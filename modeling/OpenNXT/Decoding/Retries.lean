import OpenNXT.Decoding.Decoder

/-! Decoders that throw on some fronts of a packet, and read the packet on a later call. -/
namespace OpenNXT.Decoding

/-- A packet, what it emits, and the lengths of its fronts on which the decoder throws. -/
structure RetriedPacket (β ω : Type) where
  bytes : List β
  out : List ω
  throws : ℕ → Bool

namespace RetriedPacket
variable {β ω : Type}

/-- Whether the decoder throws when the stream has arrived up to a position. -/
def throwsAt : List (RetriedPacket β ω) → ℕ → Bool
  | [], _ => false
  | packet :: packets, n =>
    if n < packet.bytes.length then packet.throws n else throwsAt packets (n - packet.bytes.length)

theorem throwsAt_of_lt {packet : RetriedPacket β ω} {n : ℕ} (h : n < packet.bytes.length)
    (packets : List (RetriedPacket β ω)) : throwsAt (packet :: packets) n = packet.throws n := by
  rw [throwsAt, if_pos h]

theorem throwsAt_add (packet : RetriedPacket β ω) (packets : List (RetriedPacket β ω)) (n : ℕ) :
    throwsAt (packet :: packets) (packet.bytes.length + n) = throwsAt packets n := by
  rw [throwsAt, if_neg (by omega), Nat.add_sub_cancel_left]

/-- It does inside of one of the packets. -/
theorem throwsAt_iff {packets : List (RetriedPacket β ω)} {n : ℕ} :
    throwsAt packets n = true ↔ ∃ before packet after k, packets = before ++ packet :: after ∧
      k < packet.bytes.length ∧ n = (before.flatMap bytes).length + k ∧ packet.throws k = true := by
  induction packets generalizing n with
  | nil => simp [throwsAt]
  | cons packet packets ih =>
    rw [throwsAt]
    split_ifs with hlt
    · constructor
      · intro h
        exact ⟨[], packet, packets, n, rfl, hlt, (Nat.zero_add n).symm, h⟩
      · rintro ⟨before, other, after, k, hsplit, hk, hn, hthrows⟩
        cases before with
        | nil =>
          obtain ⟨rfl, rfl⟩ := List.cons_eq_cons.mp hsplit
          rw [List.flatMap_nil, List.length_nil, Nat.zero_add] at hn
          rwa [hn]
        | cons first before =>
          obtain ⟨rfl, -⟩ := List.cons_eq_cons.mp hsplit
          rw [List.flatMap_cons, List.length_append] at hn
          omega
    · rw [ih]
      constructor
      · rintro ⟨before, other, after, k, hsplit, hk, hn, hthrows⟩
        refine ⟨packet :: before, other, after, k, by rw [hsplit]; rfl, hk, ?_, hthrows⟩
        rw [List.flatMap_cons, List.length_append]
        omega
      · rintro ⟨before, other, after, k, hsplit, hk, hn, hthrows⟩
        cases before with
        | nil =>
          obtain ⟨rfl, rfl⟩ := List.cons_eq_cons.mp hsplit
          rw [List.flatMap_nil, List.length_nil, Nat.zero_add] at hn
          exact absurd (hn ▸ hk) hlt
        | cons first before =>
          obtain ⟨rfl, hrest⟩ := List.cons_eq_cons.mp hsplit
          rw [List.flatMap_cons, List.length_append] at hn
          exact ⟨before, other, after, k, hrest, hk, by omega, hthrows⟩

end RetriedPacket

/-- The positions at which the chunks of a stream end. -/
def cuts {β : Type} : ℕ → List (List β) → List ℕ
  | _, [] => []
  | n, chunk :: chunks => (n + chunk.length) :: cuts (n + chunk.length) chunks

theorem cuts_eq_map {β : Type} (n : ℕ) (chunks : List (List β)) :
    cuts n chunks = (cuts 0 chunks).map (n + ·) := by
  induction chunks generalizing n with
  | nil => rfl
  | cons chunk chunks ih =>
    rw [cuts, cuts, ih (n + chunk.length), ih (0 + chunk.length), List.map_cons, List.map_map,
      Nat.zero_add]
    congr 2
    funext m
    exact Nat.add_assoc n chunk.length m

namespace Decoder
variable {σ β ω : Type} (D : Decoder σ β ω)

/-- The decoder together with whether an exception was ever caught. -/
def tracked : Decoder (σ × Bool) β ω where
  decode s xs :=
    { state := ((D.decode s.1 xs).state, s.2), unread := (D.decode s.1 xs).unread,
      out := (D.decode s.1 xs).out, thrown := (D.decode s.1 xs).thrown }
  exceptionCaught s := (D.exceptionCaught s.1, true)
  isOpen s := D.isOpen s.1
  decode_le s xs := D.decode_le s.1 xs

/-- On a front of the packet the decoder waits or throws, and reads nothing; the whole packet it
reads, whatever follows. -/
structure Retries (s : σ) (packet : RetriedPacket β ω) (s' : σ) : Prop where
  nonempty : packet.bytes ≠ []
  throws_zero : packet.throws 0 = false
  front : ∀ p q, p ++ q = packet.bytes → p ≠ [] → q ≠ [] →
    D.decode s p = { state := s, unread := p, thrown := packet.throws p.length }
  whole : ∀ rest, D.decode s (packet.bytes ++ rest) = { state := s', unread := rest, out := packet.out }

/-- A stream of such packets. An exception changes nothing where one of them starts. -/
inductive RetriedStream : σ → List (RetriedPacket β ω) → σ → Prop
  | nil (s : σ) : RetriedStream s [] s
  | cons {s s' s'' : σ} {packet : RetriedPacket β ω} {packets : List (RetriedPacket β ω)}
      (start : D.isOpen s = true) (caught : D.exceptionCaught s = s)
      (head : D.Retries s packet s') (tail : RetriedStream s' packets s'') :
      RetriedStream s (packet :: packets) s''

variable {D} {s s' : σ} {packet : RetriedPacket β ω} {packets : List (RetriedPacket β ω)}

section Retries

theorem Retries.callDecode_of_append (h : D.Retries s packet s') (thrown : Bool) (rest : List β) :
    D.tracked.callDecode (s, thrown) (packet.bytes ++ rest) =
      (D.tracked.callDecode (s', thrown) rest).emit packet.out := by
  have hlen := List.length_pos_iff.mpr h.nonempty
  have hdecode : D.tracked.decode (s, thrown) (packet.bytes ++ rest) =
      { state := (s', thrown), unread := rest, out := packet.out } := by
    simp only [tracked, h.whole rest]
  apply D.tracked.callDecode_of_decode hdecode rfl
  rw [List.length_append]
  change rest.length < packet.bytes.length + rest.length
  omega

theorem Retries.callDecode_of_front (h : D.Retries s packet s') (hcaught : D.exceptionCaught s = s)
    (thrown : Bool) {p q : List β} (hp : p ++ q = packet.bytes) (hq : q ≠ []) :
    D.tracked.callDecode (s, thrown) p =
      { state := (s, thrown || packet.throws p.length), unread := p } := by
  rw [callDecode]
  split_ifs with hnil
  · rw [hnil, List.length_nil, h.throws_zero, Bool.or_false]
  · have hdecode := h.front p q hp hnil hq
    simp only [tracked, hdecode]
    cases packet.throws p.length with
    | true => simp [hcaught]
    | false => simp

end Retries

namespace RetriedStream

theorem eq_nil_of_flatMap (h : D.RetriedStream s packets s')
    (hbytes : packets.flatMap RetriedPacket.bytes = []) : packets = [] ∧ s = s' := by
  cases h with
  | nil => exact ⟨rfl, rfl⟩
  | cons _ _ head =>
    rw [List.flatMap_cons, List.append_eq_nil_iff] at hbytes
    exact absurd hbytes.1 head.nonempty

theorem throwsAt_zero (h : D.RetriedStream s packets s') :
    RetriedPacket.throwsAt packets 0 = false := by
  cases h with
  | nil => rfl
  | cons _ _ head =>
    rw [RetriedPacket.throwsAt_of_lt (List.length_pos_iff.mpr head.nonempty)]
    exact head.throws_zero

/-- What one read leaves: some packets are taken, and the stream goes on with the others. -/
structure Taken (D : Decoder σ β ω) (packets : List (RetriedPacket β ω)) (s' : σ)
    (arrived rest : List β) (t : σ) (unread : List β) (out : List ω)
    (left : List (RetriedPacket β ω)) : Prop where
  stream : D.RetriedStream t left s'
  bytes : unread ++ rest = left.flatMap RetriedPacket.bytes
  out : out ++ left.flatMap RetriedPacket.out = packets.flatMap RetriedPacket.out
  throwsAt : ∀ n, RetriedPacket.throwsAt packets (arrived.length + n) =
    RetriedPacket.throwsAt left (unread.length + n)
  all : rest = [] → unread = []

/-- It throws exactly when the position reached is one at which a packet throws. -/
theorem callDecode (h : D.RetriedStream s packets s') (thrown : Bool) {arrived rest : List β}
    (harrived : arrived ++ rest = packets.flatMap RetriedPacket.bytes) :
    ∃ t unread out left,
      D.tracked.callDecode (s, thrown) arrived =
        { state := (t, thrown || RetriedPacket.throwsAt packets arrived.length), unread := unread,
          out := out } ∧
      Taken D packets s' arrived rest t unread out left := by
  induction h generalizing arrived with
  | nil s =>
    obtain ⟨rfl, rfl⟩ := List.append_eq_nil_iff.mp harrived
    refine ⟨s, [], [], [], ?_, .nil s, rfl, rfl, fun _ => rfl, fun _ => rfl⟩
    rw [callDecode_nil, RetriedPacket.throwsAt, Bool.or_false]
  | @cons s s₁ s₂ packet packets start caught head tail ih =>
    rw [List.flatMap_cons] at harrived
    rcases List.append_eq_append_iff.mp harrived with ⟨q, hq, hrest⟩ | ⟨q, hq, hmore⟩
    · by_cases hnil : q = []
      · -- Exactly this packet has arrived.
        subst hnil
        rw [List.append_nil] at hq
        rw [List.nil_append] at hrest
        subst hq
        have hshift := RetriedPacket.throwsAt_add packet packets
        refine ⟨s₁, [], packet.out, packets, ?_, tail, hrest, rfl, ?_, fun _ => rfl⟩
        · have hcall := head.callDecode_of_append thrown []
          have hzero := hshift 0
          rw [Nat.add_zero, tail.throwsAt_zero] at hzero
          rw [List.append_nil, callDecode_nil] at hcall
          rw [hcall, hzero, Bool.or_false, Config.emit, List.append_nil]
        · intro n
          rw [hshift, List.length_nil, Nat.zero_add]
      · have hlt : arrived.length < packet.bytes.length := by
          have hpos := List.length_pos_iff.mpr hnil
          rw [hq, List.length_append]
          omega
        refine ⟨s, arrived, [], packet :: packets, ?_, .cons start caught head tail, ?_, rfl,
          fun _ => rfl, ?_⟩
        · rw [head.callDecode_of_front caught thrown hq.symm hnil,
            RetriedPacket.throwsAt_of_lt hlt]
        · rw [harrived, List.flatMap_cons]
        · intro hempty
          rw [hempty] at hrest
          exact absurd (List.append_eq_nil_iff.mp hrest.symm).1 hnil
    · obtain ⟨t, unread, out, left, hcall, htaken⟩ := ih hmore.symm
      have hshift := RetriedPacket.throwsAt_add packet packets
      refine ⟨t, unread, packet.out ++ out, left, ?_, htaken.stream, htaken.bytes, ?_, ?_,
        htaken.all⟩
      · rw [hq, head.callDecode_of_append, hcall, List.length_append, hshift]
        rfl
      · rw [List.append_assoc, htaken.out, List.flatMap_cons]
      · intro n
        rw [hq, List.length_append, Nat.add_assoc, hshift, htaken.throwsAt]

/-- In whatever chunks it arrives, the whole stream is read, and an exception is caught exactly when
a chunk ends at a position at which a packet throws. -/
theorem feed (h : D.RetriedStream s packets s') (thrown : Bool) {chunks : List (List β)}
    {unread : List β} (before : List ω)
    (hbytes : unread ++ chunks.flatten = packets.flatMap RetriedPacket.bytes)
    (hunread : chunks = [] → unread = []) (hne : ∀ chunk ∈ chunks, chunk ≠ []) :
    D.tracked.feed { state := (s, thrown), unread := unread, out := before } chunks =
      { state := (s', thrown || (cuts unread.length chunks).any (RetriedPacket.throwsAt packets)),
        unread := [], out := before ++ packets.flatMap RetriedPacket.out } := by
  induction chunks generalizing s packets thrown unread before with
  | nil =>
    rw [hunread rfl] at hbytes ⊢
    obtain ⟨rfl, rfl⟩ := h.eq_nil_of_flatMap hbytes.symm
    simp [cuts, Decoder.feed]
  | cons chunk chunks ih =>
    have hchunk := hne chunk List.mem_cons_self
    have hmore : ∀ c ∈ chunks, c ≠ [] := fun c hc => hne c (List.mem_cons_of_mem _ hc)
    have hopen : D.tracked.isOpen (s, thrown) = true := by
      cases h with
      | nil =>
        simp only [List.flatten_cons, List.flatMap_nil, List.append_eq_nil_iff] at hbytes
        exact absurd hbytes.2.1 hchunk
      | cons start => exact start
    rw [List.flatten_cons, ← List.append_assoc] at hbytes
    obtain ⟨t, unread', out, left, hcall, htaken⟩ := h.callDecode thrown hbytes
    have hread : D.tracked.channelRead { state := (s, thrown), unread := unread, out := before }
        chunk = { state := (t, thrown || RetriedPacket.throwsAt packets (unread ++ chunk).length),
                  unread := unread', out := before ++ out } := by
      rw [channelRead, if_pos hopen, hcall]
      rfl
    have hlast : chunks = [] → unread' = [] := by
      rintro rfl
      exact htaken.all rfl
    have hcuts : (cuts (unread ++ chunk).length chunks).any (RetriedPacket.throwsAt packets) =
        (cuts unread'.length chunks).any (RetriedPacket.throwsAt left) := by
      rw [cuts_eq_map, cuts_eq_map unread'.length, List.any_map, List.any_map]
      congr 1
      funext n
      exact htaken.throwsAt n
    have hrest := ih htaken.stream
      (thrown || RetriedPacket.throwsAt packets (unread ++ chunk).length) (before ++ out) htaken.bytes hlast hmore
    rw [Decoder.feed] at hrest
    rw [Decoder.feed, List.foldl_cons, hread, hrest, cuts, List.any_cons, List.append_assoc,
      htaken.out, ← List.length_append, hcuts, Bool.or_assoc]

end RetriedStream

end Decoder

end OpenNXT.Decoding
