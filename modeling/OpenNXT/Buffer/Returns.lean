import OpenNXT.Buffer.ByteBuf

/-! What holds of everything that a reader returns. -/
namespace OpenNXT.Buffer

/-- From whatever bytes, a value with the property. -/
def Returns {α : Type} (r : Reader α) (P : α → Prop) : Prop :=
  ∀ bs v rest, r bs = some (v, rest) → P v

namespace Returns
variable {α β : Type} {P : α → Prop} {Q : β → Prop}

theorem any (r : Reader α) : Returns r fun _ => True := fun _ _ _ _ => trivial

theorem pure {v : α} (h : P v) : Returns (Pure.pure v) P := by
  intro bs w rest hw
  cases hw
  exact h

theorem fail : Returns (Reader.fail : Reader α) P := fun _ _ _ h => nomatch h

theorem bind {r : Reader α} {f : α → Reader β} (hr : Returns r P)
    (hf : ∀ v, P v → Returns (f v) Q) : Returns (r >>= f) Q := by
  intro bs w rest h
  rw [Reader.bind_apply] at h
  obtain ⟨⟨v, more⟩, hv, hw⟩ := Option.bind_eq_some_iff.mp h
  exact hf v (hr bs v more hv) more w rest hw

theorem ite {p : Prop} [Decidable p] {r s : Reader α} (hr : Returns r P) (hs : Returns s P) :
    Returns (if p then r else s) P := by
  split_ifs
  · exact hr
  · exact hs

/-- A fold each step of which keeps the property. -/
theorem foldlM {step : α → β → Reader α} (hstep : ∀ s b, P s → Returns (step s b) P) (l : List β)
    {s : α} (h : P s) : Returns (l.foldlM step s) P := by
  induction l generalizing s with
  | nil => exact pure h
  | cons b l ih =>
    rw [List.foldlM_cons]
    exact bind (hstep s b h) fun v hv => ih hv

end Returns

/-- A reader gives nothing back: what it leaves is no longer than what it was given. -/
def Shortens {α : Type} (r : Reader α) : Prop :=
  ∀ bs v rest, r bs = some (v, rest) → rest.length ≤ bs.length

namespace Shortens
variable {α β : Type}

theorem pure (v : α) : Shortens (Pure.pure v : Reader α) := by
  intro bs w rest h
  cases h
  exact le_rfl

theorem bytes (n : ℕ) : Shortens (Reader.bytes n) := by
  intro bs v rest h
  unfold Reader.bytes at h
  split_ifs at h
  cases h
  rw [List.length_drop]
  omega

theorem bind {r : Reader α} {f : α → Reader β} (hr : Shortens r) (hf : ∀ v, Shortens (f v)) :
    Shortens (r >>= f) := by
  intro bs w rest h
  rw [Reader.bind_apply] at h
  obtain ⟨⟨v, more⟩, hv, hw⟩ := Option.bind_eq_some_iff.mp h
  exact (hf v more w rest hw).trans (hr bs v more hv)

theorem word (n : ℕ) : Shortens (Reader.word n) := bind (bytes n) fun _ => pure _

theorem unsigned (n : ℕ) : Shortens (readUnsigned n) := bind (word n) fun _ => pure _

end Shortens

end OpenNXT.Buffer
