import OpenNXT.Decoding.Decoder

/-! Streams made of packets, which a decoder reads one by one in whatever chunks they arrive. -/
namespace OpenNXT.Decoding

namespace Decoder
variable {σ β ω : Type} (D : Decoder σ β ω)

/-- The chunks are handed to the decoder whatever became of its channel. -/
def hand (c : Config σ β ω) (chunks : List (List β)) : Config σ β ω :=
  chunks.foldl (fun c chunk => (D.callDecode c.state (c.unread ++ chunk)).emit c.out) c

/-- The decoder waits on every proper prefix of the packet, and reads all of it whatever follows. -/
structure Takes (s : σ) (packet : List β) (s' : σ) (out : List ω) : Prop where
  nonempty : packet ≠ []
  waits : ∀ p q, p ++ q = packet → p ≠ [] → q ≠ [] → D.decode s p = { state := s, unread := p }
  whole : ∀ rest, D.decode s (packet ++ rest) = { state := s', unread := rest, out := out }

/-- A stream of packets, each of which starts in a state with the property. -/
inductive Conversation (P : σ → Prop) : σ → List β → σ → List ω → Prop
  | nil (s : σ) : Conversation P s [] s []
  | cons {s s' s'' : σ} {packet rest : List β} {out outs : List ω} (start : P s)
      (head : D.Takes s packet s' out) (tail : Conversation P s' rest s'' outs) :
      Conversation P s (packet ++ rest) s'' (out ++ outs)

variable {D} {P : σ → Prop} {s s' : σ} {packet bytes : List β} {out outs : List ω}

section Takes

theorem Takes.callDecode_of_append (h : D.Takes s packet s' out) (rest : List β) :
    D.callDecode s (packet ++ rest) = (D.callDecode s' rest).emit out := by
  have hlen := List.length_pos_iff.mpr h.nonempty
  apply D.callDecode_of_decode (h.whole rest) rfl
  rw [List.length_append]
  change rest.length < packet.length + rest.length
  omega

theorem Takes.callDecode_of_proper (h : D.Takes s packet s' out) {p q : List β}
    (hp : p ++ q = packet) (hq : q ≠ []) : D.callDecode s p = { state := s, unread := p } := by
  rw [callDecode]
  split_ifs with hnil
  · rw [hnil]
  · rw [h.waits p q hp hnil hq]
    simp

end Takes

namespace Conversation

theorem mono {Q : σ → Prop} (hPQ : ∀ s, P s → Q s) (h : D.Conversation P s bytes s' outs) :
    D.Conversation Q s bytes s' outs := by
  induction h with
  | nil s => exact .nil s
  | cons start head _ ih => exact .cons (hPQ _ start) head ih

/-- Nothing more is said in a state without the property. -/
theorem eq_nil_of_not (h : D.Conversation P s bytes s' outs) (hs : ¬ P s) : bytes = [] := by
  cases h with
  | nil => rfl
  | cons start => exact absurd start hs

/-- On what has arrived the decoder takes some packets, and the stream goes on from there. -/
theorem callDecode (h : D.Conversation P s bytes s' outs) {p rest : List β}
    (hp : p ++ rest = bytes) :
    ∃ t u before after, D.callDecode s p = { state := t, unread := u, out := before } ∧
      D.Conversation P t (u ++ rest) s' after ∧ before ++ after = outs ∧ (rest = [] → u = []) := by
  induction h generalizing p with
  | nil s =>
    obtain ⟨rfl, rfl⟩ := List.append_eq_nil_iff.mp hp
    exact ⟨s, [], [], [], D.callDecode_nil s, .nil s, rfl, fun _ => rfl⟩
  | @cons s s₁ s₂ packet more out outs start head tail ih =>
    rcases List.append_eq_append_iff.mp hp with ⟨q, hq, hrest⟩ | ⟨q, hq, hmore⟩
    · by_cases hnil : q = []
      · -- Exactly this packet has arrived.
        subst hnil
        rw [List.append_nil] at hq
        rw [List.nil_append] at hrest
        subst hq hrest
        refine ⟨s₁, [], out, outs, ?_, tail, rfl, fun _ => rfl⟩
        have hcall := head.callDecode_of_append []
        rw [List.append_nil, callDecode_nil] at hcall
        rw [hcall]
        simp [Config.emit]
      · refine ⟨s, p, [], out ++ outs, head.callDecode_of_proper hq.symm hnil, ?_, rfl, ?_⟩
        · rw [hp]
          exact .cons start head tail
        · rintro rfl
          exact absurd (List.append_eq_nil_iff.mp hrest.symm).1 hnil
    · subst hq
      obtain ⟨t, u, before, after, hcall, htail, houts, hu⟩ := ih hmore.symm
      refine ⟨t, u, out ++ before, after, ?_, htail, ?_, hu⟩
      · rw [head.callDecode_of_append, hcall]
        rfl
      · rw [List.append_assoc, houts]

theorem eq_of_nil (h : D.Conversation P s [] s' outs) : s = s' ∧ outs = [] := by
  generalize hbytes : ([] : List β) = bytes at h
  cases h with
  | nil => exact ⟨rfl, rfl⟩
  | cons _ head =>
    exact absurd (List.append_eq_nil_iff.mp hbytes.symm).1 head.nonempty

/-- What is unread is the front of a packet, and the rest of it is in the chunks. -/
theorem hand_append {chunks : List (List β)} {u : List β} {before : List ω}
    (h : D.Conversation P s (u ++ chunks.flatten) s' outs) (hu : chunks.flatten = [] → u = []) :
    D.hand { state := s, unread := u, out := before } chunks =
      { state := s', unread := [], out := before ++ outs } := by
  induction chunks generalizing s u before outs with
  | nil =>
    rw [hu rfl] at h ⊢
    obtain ⟨rfl, rfl⟩ := h.eq_of_nil
    rw [List.append_nil]
    rfl
  | cons chunk chunks ih =>
    rw [List.flatten_cons, ← List.append_assoc] at h
    obtain ⟨t, u', between, after, hcall, htail, rfl, hu'⟩ := h.callDecode rfl
    have hrest : D.hand { state := t, unread := u', out := before ++ between } chunks =
        { state := s', unread := [], out := before ++ between ++ after } := ih htail hu'
    rw [List.append_assoc] at hrest
    rw [← hrest, Decoder.hand, List.foldl_cons, hcall]
    rfl

/-- Where every packet finds the channel open, nothing is lost by its closing. -/
theorem feed_eq_hand {chunks : List (List β)} {u : List β} {before : List ω}
    (h : D.Conversation (fun s => D.isOpen s = true) s (u ++ chunks.flatten) s' outs) :
    D.feed { state := s, unread := u, out := before } chunks =
      D.hand { state := s, unread := u, out := before } chunks := by
  induction chunks generalizing s u before outs with
  | nil => rfl
  | cons chunk chunks ih =>
    rw [List.flatten_cons, ← List.append_assoc] at h
    obtain ⟨t, u', between, after, hcall, htail, -, -⟩ := h.callDecode rfl
    have hread : D.channelRead { state := s, unread := u, out := before } chunk =
        { state := t, unread := u', out := before ++ between } := by
      cases hopen : D.isOpen s with
      | true =>
        rw [channelRead, if_pos hopen, hcall]
        rfl
      | false =>
        have hnil := h.eq_nil_of_not (by simp [hopen])
        obtain ⟨hleft, -⟩ := List.append_eq_nil_iff.mp hnil
        obtain ⟨rfl, rfl⟩ := List.append_eq_nil_iff.mp hleft
        rw [List.append_nil, callDecode_nil] at hcall
        cases hcall
        rw [channelRead, if_neg (by simp [hopen]), List.append_nil]
    rw [feed, List.foldl_cons, hread]
    have hrest : D.feed { state := t, unread := u', out := before ++ between } chunks =
        D.hand { state := t, unread := u', out := before ++ between } chunks := ih htail
    rw [feed] at hrest
    rw [hrest, hand, hand, List.foldl_cons, hcall]
    rfl

end Conversation

end Decoder

end OpenNXT.Decoding
