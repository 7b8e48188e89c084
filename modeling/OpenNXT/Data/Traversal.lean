import Mathlib.Data.List.Basic

/-! Lists mapped to values that may be missing. -/
namespace OpenNXT.Data
variable {α β : Type} {f : α → Option β}

theorem mapM_eq_map {g : α → β} {xs : List α} (h : ∀ x ∈ xs, f x = some (g x)) :
    xs.mapM f = some (xs.map g) := by
  induction xs with
  | nil => rfl
  | cons x xs ih =>
    have hrest := ih fun y hy => h y (List.mem_cons_of_mem x hy)
    rw [List.mapM_cons, h x List.mem_cons_self, hrest]
    rfl

theorem mapM_eq_none {xs : List α} {x : α} (hx : x ∈ xs) (h : f x = none) :
    xs.mapM f = none := by
  induction xs with
  | nil => cases hx
  | cons y ys ih =>
    rw [List.mapM_cons]
    rcases List.mem_cons.mp hx with rfl | hx
    · rw [h]
      rfl
    · rw [ih hx]
      cases f y <;> rfl

theorem exists_of_mem_mapM {xs : List α} {ys : List β} (h : xs.mapM f = some ys) {y : β}
    (hy : y ∈ ys) : ∃ x ∈ xs, f x = some y := by
  by_contra hnot
  push Not at hnot
  induction xs generalizing ys with
  | nil =>
    cases h
    cases hy
  | cons x xs ih =>
    rw [List.mapM_cons] at h
    cases hfx : f x with
    | none =>
      rw [hfx] at h
      cases h
    | some z =>
      cases hrest : xs.mapM f with
      | none =>
        rw [hfx, hrest] at h
        cases h
      | some zs =>
        rw [hfx, hrest] at h
        cases h
        rcases List.mem_cons.mp hy with rfl | hy
        · exact hnot x List.mem_cons_self hfx
        · exact ih hrest hy fun w hw => hnot w (List.mem_cons_of_mem x hw)

end OpenNXT.Data
