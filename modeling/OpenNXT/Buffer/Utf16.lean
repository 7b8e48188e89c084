import Mathlib.Data.Fintype.Basic
import Mathlib.Tactic.NormNum

/-! Text as UTF-16 code units, and the characters that it stands for. -/
namespace OpenNXT.Buffer

abbrev CodeUnit := Fin 65536

/-- A string of a language whose characters are code units. -/
abbrev Text := List CodeUnit

namespace CodeUnit

theorem mod_lt (n : ℕ) : n % 65536 < 65536 := Nat.mod_lt n (by decide)

def ofNat (n : ℕ) : CodeUnit := ⟨n % 65536, mod_lt n⟩

theorem val_ofNat {n : ℕ} (h : n < 65536) : (ofNat n).val = n := Nat.mod_eq_of_lt h

def IsHigh (u : CodeUnit) : Prop := 0xd800 ≤ u.val ∧ u.val < 0xdc00

def IsLow (u : CodeUnit) : Prop := 0xdc00 ≤ u.val ∧ u.val < 0xe000

instance (u : CodeUnit) : Decidable u.IsHigh := inferInstanceAs (Decidable (_ ∧ _))

instance (u : CodeUnit) : Decidable u.IsLow := inferInstanceAs (Decidable (_ ∧ _))

/-- One character for itself: a surrogate alone is replaced by a question mark. -/
def scalar (u : CodeUnit) : Char :=
  if u.IsHigh ∨ u.IsLow then '?' else Char.ofNat u.val

/-- The character that a pair of surrogates stands for. -/
def pair (u v : CodeUnit) : Char :=
  Char.ofNat (0x10000 + 0x400 * (u.val - 0xd800) + (v.val - 0xdc00))

end CodeUnit

namespace Text

/-- The code units of one character. -/
def unitsOf (c : Char) : Text :=
  if c.toNat < 0x10000 then [CodeUnit.ofNat c.toNat]
  else [CodeUnit.ofNat (0xd800 + (c.toNat - 0x10000) / 0x400),
    CodeUnit.ofNat (0xdc00 + (c.toNat - 0x10000) % 0x400)]

def units (cs : List Char) : Text := cs.flatMap unitsOf

/-- The characters of a text, as an encoder that replaces malformed input reads it. -/
def scalars : Text → List Char
  | [] => []
  | [u] => [u.scalar]
  | u :: v :: s =>
    if u.IsHigh ∧ v.IsLow then u.pair v :: scalars s
    else u.scalar :: scalars (v :: s)

/-- No surrogate is alone. -/
def WellFormed (s : Text) : Prop := ∃ cs, units cs = s

@[simp] theorem units_nil : units [] = [] := rfl

@[simp] theorem units_cons (c : Char) (cs : List Char) : units (c :: cs) = unitsOf c ++ units cs :=
  rfl

theorem units_append (cs ds : List Char) : units (cs ++ ds) = units cs ++ units ds :=
  List.flatMap_append

theorem toNat_not_surrogate (c : Char) :
    c.toNat < 0xd800 ∨ 0xe000 ≤ c.toNat ∧ c.toNat < 0x110000 := by
  rcases c.valid with h | h
  · exact Or.inl h
  · exact Or.inr ⟨h.1, h.2⟩

/-- A character is one code unit that is no surrogate, or a pair of them. -/
theorem unitsOf_cases (c : Char) :
    (∃ u : CodeUnit, unitsOf c = [u] ∧ ¬ u.IsHigh ∧ ¬ u.IsLow ∧ u.scalar = c) ∨
      ∃ u v : CodeUnit, unitsOf c = [u, v] ∧ u.IsHigh ∧ v.IsLow ∧ u.pair v = c := by
  have hvalid := toNat_not_surrogate c
  rw [unitsOf]
  split_ifs with hlt
  · refine Or.inl ⟨_, rfl, ?_⟩
    have hval : (CodeUnit.ofNat c.toNat).val = c.toNat := CodeUnit.val_ofNat hlt
    have hhigh : ¬ CodeUnit.IsHigh (CodeUnit.ofNat c.toNat) := by
      rw [CodeUnit.IsHigh, hval]
      omega
    have hlow : ¬ CodeUnit.IsLow (CodeUnit.ofNat c.toNat) := by
      rw [CodeUnit.IsLow, hval]
      omega
    refine ⟨hhigh, hlow, ?_⟩
    rw [CodeUnit.scalar, if_neg (not_or.mpr ⟨hhigh, hlow⟩), hval, Char.ofNat_toNat]
  · refine Or.inr ⟨_, _, rfl, ?_⟩
    have hhigh : (CodeUnit.ofNat (0xd800 + (c.toNat - 0x10000) / 0x400)).val =
        0xd800 + (c.toNat - 0x10000) / 0x400 := CodeUnit.val_ofNat (by omega)
    have hlow : (CodeUnit.ofNat (0xdc00 + (c.toNat - 0x10000) % 0x400)).val =
        0xdc00 + (c.toNat - 0x10000) % 0x400 := CodeUnit.val_ofNat (by omega)
    refine ⟨?_, ?_, ?_⟩
    · rw [CodeUnit.IsHigh, hhigh]
      omega
    · rw [CodeUnit.IsLow, hlow]
      omega
    · rw [CodeUnit.pair, hhigh, hlow]
      have hsum : 0x10000 + 0x400 * (0xd800 + (c.toNat - 0x10000) / 0x400 - 0xd800) +
          (0xdc00 + (c.toNat - 0x10000) % 0x400 - 0xdc00) = c.toNat := by omega
      rw [hsum, Char.ofNat_toNat]

theorem scalars_cons {u : CodeUnit} (hu : ¬ u.IsHigh) (s : Text) :
    scalars (u :: s) = u.scalar :: scalars s := by
  cases s with
  | nil => rfl
  | cons v s => rw [scalars, if_neg fun h => hu h.1]

/-- Characters are read back from their code units. -/
@[simp] theorem scalars_units (cs : List Char) : scalars (units cs) = cs := by
  induction cs with
  | nil => rfl
  | cons c cs ih =>
    rcases unitsOf_cases c with ⟨u, hc, hhigh, -, hscalar⟩ | ⟨u, v, hc, hhigh, hlow, hpair⟩
    · rw [units_cons, hc, List.singleton_append, scalars_cons hhigh, hscalar, ih]
    · rw [units_cons, hc, List.cons_append, List.cons_append, List.nil_append, scalars,
        if_pos ⟨hhigh, hlow⟩, hpair, ih]

theorem wellFormed_units (cs : List Char) : WellFormed (units cs) := ⟨cs, rfl⟩

theorem WellFormed.units_scalars {s : Text} (h : WellFormed s) : units (scalars s) = s := by
  obtain ⟨cs, rfl⟩ := h
  rw [scalars_units]

theorem wellFormed_nil : WellFormed [] := ⟨[], rfl⟩

theorem WellFormed.append {s t : Text} (hs : WellFormed s) (ht : WellFormed t) :
    WellFormed (s ++ t) := by
  obtain ⟨cs, rfl⟩ := hs
  obtain ⟨ds, rfl⟩ := ht
  exact ⟨cs ++ ds, units_append cs ds⟩

theorem wellFormed_singleton {u : CodeUnit} (hhigh : ¬ u.IsHigh) (hlow : ¬ u.IsLow) :
    WellFormed [u] := by
  have hvalid : u.val.isValidChar := by
    rw [CodeUnit.IsHigh] at hhigh
    rw [CodeUnit.IsLow] at hlow
    have hlt := u.isLt
    rcases Nat.lt_or_ge u.val 0xd800 with h | h
    · exact Or.inl h
    · exact Or.inr ⟨by omega, by omega⟩
  have hnat : (Char.ofNat u.val).toNat = u.val := by
    rw [Char.ofNat, dif_pos hvalid]
    rfl
  refine ⟨[Char.ofNat u.val], ?_⟩
  rw [units_cons, units_nil, List.append_nil, unitsOf, hnat, if_pos u.isLt]
  exact congrArg (fun v => [v]) (Fin.ext (CodeUnit.val_ofNat u.isLt))

/-- Text that is cut at a code unit other than a surrogate is well formed on both sides. -/
theorem WellFormed.cut {s t : Text} {u : CodeUnit} (hhigh : ¬ u.IsHigh) (hlow : ¬ u.IsLow)
    (h : WellFormed (s ++ u :: t)) : WellFormed s ∧ WellFormed t := by
  obtain ⟨cs, hcs⟩ := h
  induction cs generalizing s with
  | nil => cases s <;> simp at hcs
  | cons c cs ih =>
    rw [units_cons] at hcs
    rcases unitsOf_cases c with ⟨v, hc, -, -, -⟩ | ⟨v, w, hc, hv, hw, -⟩
    · rw [hc, List.singleton_append] at hcs
      cases s with
      | nil =>
        obtain ⟨-, rfl⟩ := List.cons_eq_cons.mp hcs
        exact ⟨wellFormed_nil, wellFormed_units cs⟩
      | cons x s =>
        obtain ⟨rfl, hrest⟩ := List.cons_eq_cons.mp hcs
        obtain ⟨⟨ds, rfl⟩, ht⟩ := ih hrest
        exact ⟨⟨c :: ds, by rw [units_cons, hc, List.singleton_append]⟩, ht⟩
    · rw [hc, List.cons_append, List.singleton_append] at hcs
      cases s with
      | nil =>
        obtain ⟨rfl, -⟩ := List.cons_eq_cons.mp hcs
        exact absurd hv hhigh
      | cons x s =>
        obtain ⟨rfl, hrest⟩ := List.cons_eq_cons.mp hcs
        cases s with
        | nil =>
          obtain ⟨rfl, -⟩ := List.cons_eq_cons.mp hrest
          exact absurd hw hlow
        | cons y s =>
          obtain ⟨rfl, htail⟩ := List.cons_eq_cons.mp hrest
          obtain ⟨⟨ds, rfl⟩, ht⟩ := ih htail
          exact ⟨⟨c :: ds, by rw [units_cons, hc, List.cons_append, List.singleton_append]⟩, ht⟩

end Text

end OpenNXT.Buffer
