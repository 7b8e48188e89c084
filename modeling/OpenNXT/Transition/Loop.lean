import Mathlib.Data.List.Basic

/-! Loops over a list whose turns see what follows, and may fail. -/
namespace OpenNXT.Transition
variable {σ α β ε : Type}

theorem bind_eq_ok_iff {x : Except ε α} {f : α → Except ε β} {b : β} :
    (x >>= f) = .ok b ↔ ∃ a, x = .ok a ∧ f a = .ok b := by
  cases x with
  | error e => simp [bind, Except.bind]
  | ok a => simp [bind, Except.bind]

/-- The turns for `front`, in front of `rest`. -/
def loopOver (turn : σ → α → List α → Except ε σ) : σ → List α → List α → Except ε σ
  | s, [], _ => .ok s
  | s, a :: front, rest => do
    let s ← turn s a (front ++ rest)
    loopOver turn s front rest

theorem bind_eq_error_iff {x : Except ε α} {f : α → Except ε β} {e : ε} :
    (x >>= f) = .error e ↔ x = .error e ∨ ∃ a, x = .ok a ∧ f a = .error e := by
  cases x with
  | error e => simp [bind, Except.bind]
  | ok a => simp [bind, Except.bind]

variable {turn : σ → α → List α → Except ε σ} {s t : σ} {front rest : List α}

theorem loopOver_cons {a : α} :
    loopOver turn s (a :: front) rest = .ok t ↔
      ∃ m, turn s a (front ++ rest) = .ok m ∧ loopOver turn m front rest = .ok t := by
  rw [loopOver, bind_eq_ok_iff]

theorem loopOver_cons_error {a : α} {e : ε} :
    loopOver turn s (a :: front) rest = .error e ↔
      turn s a (front ++ rest) = .error e ∨
        ∃ m, turn s a (front ++ rest) = .ok m ∧ loopOver turn m front rest = .error e := by
  rw [loopOver, bind_eq_error_iff]

/-- What every turn for one of `front` keeps. -/
theorem loopOver_invariant {P : σ → Prop}
    (hturn : ∀ s t a rest, a ∈ front → P s → turn s a rest = .ok t → P t)
    (hs : P s) (h : loopOver turn s front rest = .ok t) : P t := by
  induction front generalizing s with
  | nil =>
    cases h
    exact hs
  | cons a front ih =>
    obtain ⟨m, hm, ht⟩ := loopOver_cons.mp h
    have hP : P m := hturn s m a _ (List.mem_cons_self ..) hs hm
    exact ih (fun s t b rest hb => hturn s t b rest (List.mem_cons_of_mem a hb)) hP ht

/-- A loop fails in a turn, and what every turn keeps holds before it. -/
theorem loopOver_not_error {P : σ → List α → Prop} {Bad : ε → Prop}
    (hturn : ∀ s t a rest, P s (a :: rest) → turn s a rest = .ok t → P t rest)
    (hsafe : ∀ s a rest e, P s (a :: rest) → turn s a rest = .error e → ¬ Bad e)
    {e : ε} (hs : P s front) (h : loopOver turn s front [] = .error e) : ¬ Bad e := by
  induction front generalizing s with
  | nil => cases h
  | cons a front ih =>
    obtain herror | ⟨m, hm, herror⟩ := loopOver_cons_error.mp h
    · rw [List.append_nil] at herror
      exact hsafe s a front e hs herror
    · rw [List.append_nil] at hm
      exact ih (hturn s m a front hs hm) herror

end OpenNXT.Transition
