import OpenNXT.Decoding.Machine

/-! Decoders called on cumulated input, in the manner of Netty's `ByteToMessageDecoder`, and the
machines they implement. -/
namespace OpenNXT.Decoding

/-- What one call of `decode` left and emitted, and whether it threw. -/
structure Decoded (σ β ω : Type) extends Config σ β ω where
  thrown : Bool := false

structure Decoder (σ β ω : Type) where
  decode : σ → List β → Decoded σ β ω
  exceptionCaught : σ → σ
  isOpen : σ → Bool
  decode_le : ∀ s xs, (decode s xs).unread.length ≤ xs.length

namespace Decoder
variable {σ β ω : Type} (D : Decoder σ β ω)

/-- `decode` is called while input is left and the last call read some of it. An emission
without a read is an exception. -/
def callDecode (s : σ) (cumulation : List β) : Config σ β ω :=
  if cumulation = [] then { state := s, unread := [] }
  else
    let d := D.decode s cumulation
    if d.thrown then { d.toConfig with state := D.exceptionCaught d.state }
    else if _hlen : d.unread.length = cumulation.length then
      if d.out.isEmpty then d.toConfig
      else { d.toConfig with state := D.exceptionCaught d.state }
    else (callDecode d.state d.unread).emit d.out
termination_by cumulation.length
decreasing_by
  have hle := D.decode_le s cumulation
  exact Nat.lt_of_le_of_ne hle _hlen

@[simp] theorem callDecode_nil (s : σ) : D.callDecode s [] = { state := s, unread := [] } := by
  rw [callDecode, if_pos rfl]

/-- A call that reads something is followed by another. -/
theorem callDecode_of_decode {s : σ} {cumulation : List β} {d : Decoded σ β ω}
    (hd : D.decode s cumulation = d) (hthrown : d.thrown = false)
    (hlt : d.unread.length < cumulation.length) :
    D.callDecode s cumulation = (D.callDecode d.state d.unread).emit d.out := by
  have hne : cumulation ≠ [] := by
    intro hnil
    rw [hnil] at hlt
    exact absurd hlt (Nat.not_lt_zero _)
  rw [callDecode, if_neg hne]
  simp only [hd, hthrown, Bool.false_eq_true, if_false, Nat.ne_of_lt hlt, dite_false]

/-- One turn of that loop, and whether there is another. -/
def turn (s : σ) (cumulation : List β) : Config σ β ω × Bool :=
  if cumulation = [] then ({ state := s, unread := [] }, false)
  else
    let d := D.decode s cumulation
    if d.thrown then ({ d.toConfig with state := D.exceptionCaught d.state }, false)
    else if d.unread.length = cumulation.length then
      if d.out.isEmpty then (d.toConfig, false)
      else ({ d.toConfig with state := D.exceptionCaught d.state }, false)
    else (d.toConfig, true)

theorem callDecode_eq_turn (s : σ) (cumulation : List β) :
    D.callDecode s cumulation =
      if (D.turn s cumulation).2 then
        (D.callDecode (D.turn s cumulation).1.state (D.turn s cumulation).1.unread).emit
          (D.turn s cumulation).1.out
      else (D.turn s cumulation).1 := by
  conv_lhs => rw [callDecode]
  unfold turn
  simp only
  split_ifs <;> simp_all

/-- The loop ends: it goes on only where something was read. -/
theorem length_turn {s : σ} {cumulation : List β} (h : (D.turn s cumulation).2 = true) :
    (D.turn s cumulation).1.unread.length < cumulation.length := by
  have hle := D.decode_le s cumulation
  unfold turn at h ⊢
  simp only at h ⊢
  split_ifs at h ⊢ with hnil hthrown hlen hout
  exact Nat.lt_of_le_of_ne hle hlen

/-- A closed channel delivers nothing. -/
def channelRead (c : Config σ β ω) (chunk : List β) : Config σ β ω :=
  if D.isOpen c.state then (D.callDecode c.state (c.unread ++ chunk)).emit c.out else c

def feed (c : Config σ β ω) (chunks : List (List β)) : Config σ β ω :=
  chunks.foldl D.channelRead c

section Implements
variable {D} {m : Machine σ β ω} {live : σ → Prop} {stuck : σ → List β → Prop}

/-- One call of `decode` follows the machine. -/
structure Follows (m : Machine σ β ω) (live : σ → Prop) (isOpen : σ → Bool)
    (s : σ) (xs : List β) (d : Decoded σ β ω) : Prop where
  returns : d.thrown = false
  reaches : m.Reaches s xs d.toConfig
  live : live d.state
  idle : d.unread.length = xs.length →
    d.toConfig = { state := s, unread := xs } ∧ m.step s xs = none
  closed : isOpen d.state = false → d.unread = []

/-- A decoder implements a machine in its live states. In front of a stuck input the machine does
nothing, whatever arrives, and nothing is said about the decoder. -/
structure Implements (D : Decoder σ β ω) (m : Machine σ β ω) (live : σ → Prop)
    (stuck : σ → List β → Prop) : Prop where
  waits : ∀ s, live s → m.step s [] = none
  waits_stuck : ∀ s xs, live s → stuck s xs → m.step s xs = none
  stuck_append : ∀ s xs ys, live s → stuck s xs → stuck s (xs ++ ys)
  decode : ∀ s xs, live s → D.isOpen s → xs ≠ [] → ¬ stuck s xs →
    Follows m live D.isOpen s xs (D.decode s xs)
  closed : ∀ s xs, live s → D.isOpen s = false → m.run s xs = { state := s, unread := [] }

variable (h : D.Implements m live stuck)
include h

/-- `callDecode` runs the machine, and goes on where that ends. -/
theorem Implements.callDecode_eq (s : σ) (xs : List β) (hs : live s)
    (ho : D.isOpen s = false → xs = []) :
    D.callDecode s xs = (D.callDecode (m.run s xs).state (m.run s xs).unread).emit (m.run s xs).out ∧
      live (m.run s xs).state ∧ (D.isOpen (m.run s xs).state = false → (m.run s xs).unread = []) := by
  induction hn : xs.length using Nat.strongRecOn generalizing s xs with
  | _ n ih =>
    have hstays : m.step s xs = none →
        D.callDecode s xs =
          (D.callDecode (m.run s xs).state (m.run s xs).unread).emit (m.run s xs).out ∧
        live (m.run s xs).state ∧
        (D.isOpen (m.run s xs).state = false → (m.run s xs).unread = []) := by
      intro hwaits
      rw [Machine.run_of_waits hwaits]
      exact ⟨rfl, hs, ho⟩
    by_cases hnil : xs = []
    · subst hnil
      exact hstays (h.waits s hs)
    by_cases hstuck : stuck s xs
    · exact hstays (h.waits_stuck s xs hs hstuck)
    have hopen : D.isOpen s = true := by
      by_contra hclosed
      exact hnil (ho (Bool.not_eq_true _ ▸ hclosed))
    have hd := h.decode s xs hs hopen hnil hstuck
    by_cases hlen : (D.decode s xs).unread.length = xs.length
    · exact hstays (hd.idle hlen).2
    · have hle := D.decode_le s xs
      have hlt : (D.decode s xs).unread.length < n := by omega
      obtain ⟨hcall, hlive, hclosed⟩ := ih _ hlt _ _ hd.live hd.closed rfl
      have hrun := hd.reaches
      unfold Machine.Reaches at hrun
      have hfirst := D.callDecode_of_decode rfl hd.returns (Nat.lt_of_le_of_ne hle hlen)
      rw [hfirst, hrun, hcall]
      refine ⟨?_, hlive, hclosed⟩
      simp

/-- Where nothing is stuck, a waiting machine is a waiting decoder. -/
theorem Implements.callDecode_of_waits (s : σ) (xs : List β) (hs : live s)
    (ho : D.isOpen s = false → xs = []) (hw : m.step s xs = none) (hfree : ¬ stuck s xs) :
    D.callDecode s xs = { state := s, unread := xs } := by
  rw [callDecode]
  split_ifs with hnil
  · rw [hnil]
  · have hopen : D.isOpen s = true := by
      by_contra hclosed
      exact hnil (ho (Bool.not_eq_true _ ▸ hclosed))
    have hd := h.decode s xs hs hopen hnil hfree
    have hlen : (D.decode s xs).unread.length = xs.length := by
      have hrun := congrArg (fun c => c.unread.length) hd.reaches
      simp only [Machine.run_of_waits hw, Config.unread_emit] at hrun
      have hrest := m.length_run (D.decode s xs).state (D.decode s xs).unread
      have hle := D.decode_le s xs
      omega
    obtain ⟨hsame, -⟩ := hd.idle hlen
    simp only [hd.returns, Bool.false_eq_true, if_false, hlen, dite_true]
    rw [hsame]
    simp

/-- However the input is cut, the decoder does one run of the machine over all of it, unless that
gets stuck. -/
theorem Implements.feed_eq_run (chunks : List (List β)) (c : Config σ β ω)
    (hwaits : m.step c.state c.unread = none) (hs : live c.state)
    (hclosed : D.isOpen c.state = false → c.unread = [])
    (hfree : ¬ stuck (m.run c.state (c.unread ++ chunks.flatten)).state
      (m.run c.state (c.unread ++ chunks.flatten)).unread) :
    D.feed c chunks = (m.run c.state (c.unread ++ chunks.flatten)).emit c.out := by
  induction chunks generalizing c with
  | nil =>
    rw [List.flatten_nil, List.append_nil, Machine.run_of_waits hwaits]
    apply Config.ext
    · rfl
    · rfl
    · exact (List.append_nil c.out).symm
  | cons chunk chunks ih =>
    have hsplit := m.run_append c.state (c.unread ++ chunk) chunks.flatten
    rw [List.flatten_cons, ← List.append_assoc] at hfree ⊢
    rw [hsplit] at hfree ⊢
    rw [feed, List.foldl_cons]
    cases ho : D.isOpen c.state with
    | false =>
      have hrun := h.closed c.state (c.unread ++ chunk) hs ho
      have hunread := hclosed ho
      rw [hrun, List.nil_append] at hfree ⊢
      have hrest := ih c hwaits hs hclosed (by rwa [hunread])
      rw [hunread] at hrest
      rw [channelRead, ho]
      exact hrest
    | true =>
      obtain ⟨hcall, hlive, hcl⟩ := h.callDecode_eq c.state (c.unread ++ chunk) hs (by simp [ho])
      have hw := m.waits_run c.state (c.unread ++ chunk)
      have hfirst : ¬ stuck (m.run c.state (c.unread ++ chunk)).state
          (m.run c.state (c.unread ++ chunk)).unread := by
        intro hst
        have hmore := h.stuck_append _ _ chunks.flatten hlive hst
        rw [Machine.run_of_waits (h.waits_stuck _ _ hlive hmore)] at hfree
        exact hfree hmore
      rw [h.callDecode_of_waits _ _ hlive hcl hw hfirst] at hcall
      have hread : D.channelRead c chunk = (m.run c.state (c.unread ++ chunk)).emit c.out := by
        rw [channelRead, if_pos ho, hcall]
        simp [Config.emit]
      rw [hread]
      have hrest := ih ((m.run c.state (c.unread ++ chunk)).emit c.out) hw hlive hcl hfree
      rw [feed] at hrest
      simpa using hrest

/-- Where the machine gets stuck, the decoder is called in its state with what is left, sooner or
later, and the rest of the input follows. -/
theorem Implements.feed_of_stuck (chunks : List (List β)) (c : Config σ β ω)
    (hwaits : m.step c.state c.unread = none) (hs : live c.state)
    (hclosed : D.isOpen c.state = false → c.unread = []) (hfree : ¬ stuck c.state c.unread)
    (hstuck : stuck (m.run c.state (c.unread ++ chunks.flatten)).state
      (m.run c.state (c.unread ++ chunks.flatten)).unread) :
    ∃ xs rest out, (m.run c.state (c.unread ++ chunks.flatten)).unread = xs ++ rest.flatten ∧
      D.feed c chunks = D.feed
        ((D.callDecode (m.run c.state (c.unread ++ chunks.flatten)).state xs).emit out) rest := by
  induction chunks generalizing c with
  | nil =>
    rw [List.flatten_nil, List.append_nil, Machine.run_of_waits hwaits] at hstuck
    exact absurd hstuck hfree
  | cons chunk chunks ih =>
    have hsplit := m.run_append c.state (c.unread ++ chunk) chunks.flatten
    rw [List.flatten_cons, ← List.append_assoc] at hstuck ⊢
    rw [hsplit] at hstuck ⊢
    cases ho : D.isOpen c.state with
    | false =>
      have hrun : ∀ xs, m.run c.state xs = { state := c.state, unread := [] } :=
        fun xs => h.closed c.state xs hs ho
      rw [hrun] at hstuck
      simp only [hrun, Config.state_emit, Config.unread_emit] at hstuck
      rw [hclosed ho] at hfree
      exact absurd hstuck hfree
    | true =>
      obtain ⟨hcall, hlive, hcl⟩ := h.callDecode_eq c.state (c.unread ++ chunk) hs (by simp [ho])
      have hw := m.waits_run c.state (c.unread ++ chunk)
      have hfeed : D.feed c (chunk :: chunks) =
          D.feed ((D.callDecode c.state (c.unread ++ chunk)).emit c.out) chunks := by
        rw [feed, List.foldl_cons, channelRead, if_pos ho]
        rfl
      rw [hfeed, hcall]
      by_cases hfirst : stuck (m.run c.state (c.unread ++ chunk)).state
          (m.run c.state (c.unread ++ chunk)).unread
      · have hmore := h.stuck_append _ _ chunks.flatten hlive hfirst
        rw [Machine.run_of_waits (h.waits_stuck _ _ hlive hmore)]
        refine ⟨_, chunks, c.out ++ (m.run c.state (c.unread ++ chunk)).out, rfl, ?_⟩
        rw [Config.emit_emit]
        rfl
      · rw [h.callDecode_of_waits _ _ hlive hcl hw hfirst]
        obtain ⟨xs, rest, out, hxs, hrest⟩ := ih
          ((m.run c.state (c.unread ++ chunk)).emit c.out) hw hlive hcl hfirst hstuck
        refine ⟨xs, rest, out, hxs, ?_⟩
        have hsame : ((Config.emit (m.run c.state (c.unread ++ chunk)).out
            { state := (m.run c.state (c.unread ++ chunk)).state,
              unread := (m.run c.state (c.unread ++ chunk)).unread }).emit c.out) =
            (m.run c.state (c.unread ++ chunk)).emit c.out := by simp [Config.emit]
        rw [hsame]
        exact hrest

end Implements

section Feed
variable {D}

/-- A closed channel stays as it is. -/
theorem feed_of_closed {c : Config σ β ω} (h : D.isOpen c.state = false) (chunks : List (List β)) :
    D.feed c chunks = c := by
  induction chunks with
  | nil => rfl
  | cons chunk chunks ih =>
    rw [feed, List.foldl_cons, channelRead, if_neg (by simp [h])]
    exact ih

/-- What every call of `decode` keeps, and the handling of an exception, a whole feed keeps. -/
theorem callDecode_invariant {P : σ → Prop} (hdecode : ∀ s xs, P s → P (D.decode s xs).state)
    (hcaught : ∀ s, P s → P (D.exceptionCaught s)) (s : σ) (xs : List β) (hs : P s) :
    P (D.callDecode s xs).state := by
  induction hn : xs.length using Nat.strongRecOn generalizing s xs with
  | _ n ih =>
    rw [callDecode]
    by_cases hnil : xs = []
    · rw [if_pos hnil]
      exact hs
    · have hd := hdecode s xs hs
      rw [if_neg hnil]
      simp only
      split_ifs
      · exact hcaught _ hd
      · exact hd
      · exact hcaught _ hd
      · have hle := D.decode_le s xs
        exact ih _ (by omega) _ _ hd rfl

theorem feed_invariant {P : σ → Prop} (hdecode : ∀ s xs, P s → P (D.decode s xs).state)
    (hcaught : ∀ s, P s → P (D.exceptionCaught s)) (c : Config σ β ω) (chunks : List (List β))
    (hs : P c.state) : P (D.feed c chunks).state := by
  induction chunks generalizing c with
  | nil => exact hs
  | cons chunk chunks ih =>
    rw [feed, List.foldl_cons, channelRead]
    split_ifs
    · exact ih _ (callDecode_invariant hdecode hcaught _ _ hs)
    · exact ih _ hs

/-- Earlier output does not matter. -/
theorem channelRead_emit (o : List ω) (c : Config σ β ω) (chunk : List β) :
    D.channelRead (c.emit o) chunk = (D.channelRead c chunk).emit o := by
  rw [channelRead, channelRead, Config.state_emit, Config.unread_emit, Config.out_emit]
  split_ifs
  · rw [Config.emit_emit]
  · rfl

end Feed

section Run
variable {D} {m : Machine σ β ω}

/-- A decoder whose every call runs a machine to its end implements that machine. Its states wait
for input, from them on no step is free, and in closed states the machine drops its input. -/
theorem Implements.of_run
    (hdecode : ∀ s xs, m.step s [] = none → D.isOpen s → xs ≠ [] →
      D.decode s xs = { toConfig := m.run s xs })
    (hlt : ∀ s xs c, m.step s [] = none → m.step s xs = some c → c.unread.length < xs.length)
    (hclosed : ∀ s xs, D.isOpen s = false → m.run s xs = { state := s, unread := [] }) :
    D.Implements m (fun s => m.step s [] = none) (fun _ _ => False) where
  waits s hs := hs
  waits_stuck s xs _ hst := hst.elim
  stuck_append s xs ys _ hst := hst
  closed s xs _ ho := hclosed s xs ho
  decode s xs hs ho hxs _ := by
    have hwaits := m.waits_run s xs
    rw [hdecode s xs hs ho hxs]
    constructor
    · rfl
    · unfold Machine.Reaches
      rw [Machine.run_of_waits hwaits]
      apply Config.ext <;> simp
    · by_contra hstep
      obtain ⟨c, hc⟩ := Option.ne_none_iff_exists'.mp hstep
      have happ := m.step_append (m.run s xs).unread hc
      rw [List.nil_append, hwaits] at happ
      cases happ
    · intro hlen
      cases hstep : m.step s xs with
      | none => exact ⟨Machine.run_of_waits hstep, rfl⟩
      | some c =>
        have hfirst := hlt s xs c hs hstep
        have hrest := m.length_run c.state c.unread
        simp only [Machine.run_of_step hstep, Config.unread_emit] at hlen
        omega
    · intro hcl
      have hrun := hclosed (m.run s xs).state (m.run s xs).unread hcl
      rw [Machine.run_of_waits hwaits] at hrun
      exact congrArg Config.unread hrun

end Run

section Packet
variable {D}

end Packet

end Decoder

end OpenNXT.Decoding
