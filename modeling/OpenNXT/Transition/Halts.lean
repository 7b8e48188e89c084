import Mathlib.Logic.Relation

/-! Runs of a partial step function, and whether they end. -/
namespace OpenNXT.Transition
variable {α : Type} {step : α → Option α}

/-- The run from a state reaches one without a step. -/
inductive Halts (step : α → Option α) : α → Prop
  | stop {a : α} (h : step a = none) : Halts step a
  | next {a b : α} (h : step a = some b) (hb : Halts step b) : Halts step a

/-- A stretch of a run. -/
abbrev Steps (step : α → Option α) : α → α → Prop :=
  Relation.ReflTransGen fun a b => step a = some b

theorem halts_iff_of_step {a b : α} (h : step a = some b) : Halts step a ↔ Halts step b := by
  constructor
  · intro ha
    cases ha with
    | stop hnone =>
      rw [hnone] at h
      cases h
    | next hc hhalts =>
      rw [hc] at h
      cases h
      exact hhalts
  · exact Halts.next h

theorem halts_iff_of_steps {a b : α} (h : Steps step a b) : Halts step a ↔ Halts step b := by
  induction h with
  | refl => exact Iff.rfl
  | tail _ hstep ih => exact ih.trans (halts_iff_of_step hstep)

/-- A run that keeps coming back to states of one kind, and leaves each of them, never ends. -/
theorem not_halts_of_recurs (Inv : α → Prop)
    (hinv : ∀ a, Inv a → ∃ b, step a = some b ∧ ∃ c, Steps step b c ∧ Inv c) {a : α} (ha : Inv a) :
    ¬ Halts step a := by
  have hmain : ∀ b, Halts step b → ∀ c, Steps step b c → ¬ Inv c := by
    intro b hb
    induction hb with
    | stop h =>
      intro c hc hI
      obtain ⟨d, hd, -⟩ := hinv c hI
      rcases hc.cases_head with rfl | ⟨e, he, -⟩
      · rw [h] at hd
        cases hd
      · rw [h] at he
        cases he
    | next h _ ih =>
      intro c hc hI
      rcases hc.cases_head with rfl | ⟨e, he, hec⟩
      · obtain ⟨d, hd, e, hde, hI⟩ := hinv _ hI
        rw [h] at hd
        cases hd
        exact ih e hde hI
      · rw [h] at he
        cases he
        exact ih c hec hI
  exact fun hhalts => hmain a hhalts a .refl ha

end OpenNXT.Transition
