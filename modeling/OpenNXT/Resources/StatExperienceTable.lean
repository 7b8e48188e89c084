import Mathlib.Analysis.SpecialFunctions.Pow.NthRootLemmas
import Mathlib.Analysis.SpecialFunctions.Pow.Real

/-! The experience that a level takes. -/
namespace OpenNXT.Resources

structure StatExperienceTable where
  table : List ℤ

namespace StatExperienceTable

/-- `(level.toDouble() + 300.0 * 2.0.pow(level.toDouble() / 7.0)).toInt()`, by the whole part of a
seventh root. -/
def difference (level : ℕ) : ℕ := level + Nat.nthRoot 7 (300 ^ 7 * 2 ^ level)

/-- As many entries from a level on; the sum goes in four times the experience. -/
def fill : ℕ → ℕ → ℕ → List ℤ
  | 0, _, _ => []
  | n + 1, level, xp =>
    ((xp + difference level) / 4 : ℕ) :: fill n (level + 1) (xp + difference level)

def DEFAULT : StatExperienceTable := ⟨fill 120 1 0⟩

/-- No experience is negative, and none goes backwards. -/
def validate (t : StatExperienceTable) : Bool :=
  t.table.dropLast.all (0 ≤ ·) && (t.table.zip t.table.tail).all fun p => p.1 ≤ p.2

/-- How many entries from the first on are reached. -/
def reached (xp : ℤ) : List ℤ → ℕ
  | [] => 0
  | entry :: entries => if entry ≤ xp then reached xp entries + 1 else 0

def levelForXp (t : StatExperienceTable) (xp : ℤ) : ℕ := reached xp t.table

section Formula

/-- The entries are those of the formula. -/
theorem difference_eq_floor (level : ℕ) :
    (difference level : ℤ) = ⌊(level : ℝ) + 300 * (2 : ℝ) ^ ((level : ℝ) / 7)⌋ := by
  have hpow : ((2 : ℝ) ^ ((level : ℝ) / 7)) ^ 7 = 2 ^ level := by
    rw [← Real.rpow_natCast, ← Real.rpow_mul (by norm_num)]
    norm_num
  have hseven : (300 * (2 : ℝ) ^ ((level : ℝ) / 7)) ^ 7 = ((300 ^ 7 * 2 ^ level : ℕ) : ℝ) := by
    rw [mul_pow, hpow]
    push_cast
    ring
  have hnonneg : (0 : ℝ) ≤ 300 * (2 : ℝ) ^ ((level : ℝ) / 7) := by positivity
  have hle := Nat.pow_nthRoot_le (n := 7) (a := 300 ^ 7 * 2 ^ level) (.inl (by norm_num))
  have hlt := Nat.lt_pow_nthRoot_add_one (n := 7) (by norm_num) (300 ^ 7 * 2 ^ level)
  symm
  rw [Int.floor_eq_iff, difference]
  generalize Nat.nthRoot 7 (300 ^ 7 * 2 ^ level) = root at hle hlt ⊢
  have hroot : (root : ℝ) ≤ 300 * (2 : ℝ) ^ ((level : ℝ) / 7) := by
    apply le_of_pow_le_pow_left₀ (n := 7) (by norm_num) hnonneg
    rw [hseven]
    exact_mod_cast hle
  have hnext : 300 * (2 : ℝ) ^ ((level : ℝ) / 7) < root + 1 := by
    apply lt_of_pow_lt_pow_left₀ 7 (by positivity)
    rw [hseven]
    exact_mod_cast hlt
  push_cast
  constructor <;> linarith

end Formula

section Levels

theorem levelForXp_mono (t : StatExperienceTable) {xp xp' : ℤ} (h : xp ≤ xp') :
    t.levelForXp xp ≤ t.levelForXp xp' := by
  unfold levelForXp
  induction t.table with
  | nil => exact le_rfl
  | cons entry entries ih =>
    unfold reached
    split_ifs with hlow hhigh
    · exact Nat.succ_le_succ ih
    · exact absurd (hlow.trans h) hhigh
    · exact Nat.zero_le _
    · exact le_rfl

/-- The table passes its own check. -/
theorem validate_default : validate DEFAULT = true := by
  have hpos : ∀ n level xp, ∀ e ∈ fill n level xp, 0 ≤ e := by
    intro n
    induction n with
    | zero => simp [fill]
    | succ n ih =>
      intro level xp e he
      rcases List.mem_cons.mp he with rfl | he
      · exact Int.natCast_nonneg _
      · exact ih _ _ e he
  have hmono : ∀ n level xp, ∀ p ∈ (fill n level xp).zip (fill n level xp).tail, p.1 ≤ p.2 := by
    intro n
    induction n with
    | zero => simp [fill]
    | succ n ih =>
      intro level xp p hp
      cases n with
      | zero => simp [fill] at hp
      | succ n =>
        rcases List.mem_cons.mp hp with rfl | hp
        · exact Int.ofNat_le.mpr (Nat.div_le_div_right (Nat.le_add_right _ _))
        · exact ih _ _ p hp
  rw [validate, Bool.and_eq_true, List.all_eq_true, List.all_eq_true]
  exact ⟨fun e he => decide_eq_true (hpos _ _ _ e (List.dropLast_subset _ he)),
    fun p hp => decide_eq_true (hmono _ _ _ p hp)⟩

private theorem difference_eq (level root : ℕ) (hle : root ^ 7 ≤ 300 ^ 7 * 2 ^ level)
    (hlt : 300 ^ 7 * 2 ^ level < (root + 1) ^ 7) : difference level = level + root := by
  rw [difference, Nat.nthRoot_eq_of_le_of_lt hle hlt]

private theorem fill_ten (n : ℕ) :
    fill (n + 10) 1 0 = [83, 174, 276, 388, 512, 650, 801, 969, 1154, 1358] ++ fill n 11 5434 := by
  have h1 := difference_eq 1 331 (by norm_num) (by norm_num)
  have h2 := difference_eq 2 365 (by norm_num) (by norm_num)
  have h3 := difference_eq 3 403 (by norm_num) (by norm_num)
  have h4 := difference_eq 4 445 (by norm_num) (by norm_num)
  have h5 := difference_eq 5 492 (by norm_num) (by norm_num)
  have h6 := difference_eq 6 543 (by norm_num) (by norm_num)
  have h7 := difference_eq 7 600 (by norm_num) (by norm_num)
  have h8 := difference_eq 8 662 (by norm_num) (by norm_num)
  have h9 := difference_eq 9 731 (by norm_num) (by norm_num)
  have h10 := difference_eq 10 807 (by norm_num) (by norm_num)
  simp only [fill, h1, h2, h3, h4, h5, h6, h7, h8, h9, h10]
  norm_num

/-- What the levels from the second to the eleventh take. -/
theorem default_table :
    DEFAULT.table = [83, 174, 276, 388, 512, 650, 801, 969, 1154, 1358] ++ fill 110 11 5434 :=
  fill_ten 110

end Levels

end StatExperienceTable

end OpenNXT.Resources
