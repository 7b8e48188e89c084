import Mathlib.Data.List.Basic

/-! Lists that are cut at the first few separators. -/
namespace OpenNXT.Data
variable {α : Type} [DecidableEq α]

/-- The pieces of a list that is cut at most `n` times. -/
def cuts (sep : α) : ℕ → List α → List (List α)
  | 0, s => [s]
  | n + 1, s =>
    match s.dropWhile (· ≠ sep) with
    | [] => [s]
    | _ :: rest => s.takeWhile (· ≠ sep) :: cuts sep n rest

variable {sep : α} {n : ℕ} {s t : List α}

theorem cuts_of_notMem (h : sep ∉ s) : cuts sep n s = [s] := by
  have hall : ∀ x ∈ s, decide (x ≠ sep) = true := fun x hx =>
    decide_eq_true fun heq => h (heq ▸ hx)
  have hdrop : s.dropWhile (· ≠ sep) = [] := by
    have happend := @List.dropWhile_append_of_pos _ (fun x => decide (x ≠ sep)) s [] hall
    rw [List.append_nil] at happend
    exact happend
  cases n with
  | zero => rfl
  | succ n => rw [cuts, hdrop]

theorem cuts_append_cons (h : sep ∉ s) : cuts sep (n + 1) (s ++ sep :: t) = s :: cuts sep n t := by
  have hall : ∀ x ∈ s, decide (x ≠ sep) = true := fun x hx =>
    decide_eq_true fun heq => h (heq ▸ hx)
  have hdrop : (s ++ sep :: t).dropWhile (· ≠ sep) = sep :: t := by
    rw [List.dropWhile_append_of_pos hall, List.dropWhile_cons_of_neg (by simp)]
  have htake : (s ++ sep :: t).takeWhile (· ≠ sep) = s := by
    rw [List.takeWhile_append_of_pos hall, List.takeWhile_cons_of_neg (by simp), List.append_nil]
  rw [cuts, hdrop, htake]

end OpenNXT.Data
