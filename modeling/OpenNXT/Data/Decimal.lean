import Mathlib.Data.Int.Notation
import Mathlib.Algebra.Order.Ring.Int
import Mathlib.Tactic.Ring

/-! Whole numbers as decimal text. -/
namespace OpenNXT.Data.Decimal

/-- The code points of the zeros: the nine digits that follow one count up from it. -/
def zeros : List ℕ := [
  0x0030, 0x0660, 0x06f0, 0x07c0, 0x0966, 0x09e6, 0x0a66, 0x0ae6, 0x0b66, 0x0be6, 0x0c66, 0x0ce6,
  0x0d66, 0x0de6, 0x0e50, 0x0ed0, 0x0f20, 0x1040, 0x1090, 0x17e0, 0x1810, 0x1946, 0x19d0, 0x1a80,
  0x1a90, 0x1b50, 0x1bb0, 0x1c40, 0x1c50, 0xa620, 0xa8d0, 0xa900, 0xa9d0, 0xa9f0, 0xaa50, 0xabf0,
  0xff10]

def digit (c : Char) : Option ℕ :=
  (zeros.find? fun z => z ≤ c.toNat ∧ c.toNat ≤ z + 9).map fun z => c.toNat - z

/-- The digits after a number; `none` is a character that is not one. -/
def digits (s : List Char) (value : ℕ) : Option ℕ :=
  s.foldlM (fun value c => (digit c).map fun d => 10 * value + d) value

def parseDigits (s : List Char) : Option ℕ := if s.isEmpty then none else digits s 0

/-- A sign may be in front. -/
def parse : List Char → Option ℤ
  | '-' :: s => (parseDigits s).map fun n : ℕ => -(n : ℤ)
  | '+' :: s => (parseDigits s).map fun n : ℕ => (n : ℤ)
  | s => (parseDigits s).map fun n : ℕ => (n : ℤ)

/-- A number of some width, in two's complement; any other text is an exception. -/
def parseInt (w : ℕ) (s : List Char) : Option (BitVec w) :=
  (parse s).bind fun v =>
    if -2 ^ (w - 1) ≤ v ∧ v < 2 ^ (w - 1) then some (BitVec.ofInt w v) else none

/-- Digits with single low lines between them. -/
def literalDigits : List Char → ℕ → Option ℕ
  | [], value => some value
  | '_' :: c :: s, value => (digit c).bind fun d => literalDigits s (10 * value + d)
  | c :: s, value => (digit c).bind fun d => literalDigits s (10 * value + d)

/-- A number that begins with a digit, and has no more of them than the language reads. -/
def parseUnsignedLiteral (s : List Char) : Option ℕ :=
  if (s.head?.bind digit).isSome ∧ s.countP (fun c => (digit c).isSome) ≤ 4300 then literalDigits s 0
  else none

/-- A sign may be in front. -/
def parseLiteral : List Char → Option ℤ
  | '-' :: s => (parseUnsignedLiteral s).map fun n : ℕ => -(n : ℤ)
  | '+' :: s => (parseUnsignedLiteral s).map fun n : ℕ => (n : ℤ)
  | s => (parseUnsignedLiteral s).map fun n : ℕ => (n : ℤ)

def print (v : ℤ) : List Char :=
  if v < 0 then '-' :: Nat.toDigits 10 v.natAbs else Nat.toDigits 10 v.natAbs

section Digits

theorem digit_of_isDigit {c : Char} (h : c.isDigit) : digit c = some (c.toNat - 48) := by
  obtain ⟨hlow, hhigh⟩ := Char.isDigit_iff_toNat.mp h
  have hzero : zeros.find? (fun z => z ≤ c.toNat ∧ c.toNat ≤ z + 9) = some 48 := by
    rw [zeros, List.find?_cons_of_pos]
    simpa using ⟨hlow, hhigh⟩
  rw [digit, hzero]
  rfl

theorem digits_of_isDigit {s : List Char} (h : ∀ c ∈ s, c.isDigit) (value : ℕ) :
    digits s value = some (Nat.ofDigitChars 10 s value) := by
  induction s generalizing value with
  | nil => rfl
  | cons c s ih =>
    have hrest := ih (fun d hd => h d (List.mem_cons_of_mem c hd)) (10 * value + (c.toNat - 48))
    rw [Nat.ofDigitChars_cons, digits, List.foldlM_cons, digit_of_isDigit (h c List.mem_cons_self)]
    exact hrest

theorem isDigit_of_mem {n : ℕ} {c : Char} (h : c ∈ Nat.toDigits 10 n) : c.isDigit :=
  Nat.isDigit_of_mem_toDigits (by omega) le_rfl h

theorem parseDigits_toDigits (n : ℕ) : parseDigits (Nat.toDigits 10 n) = some n := by
  rw [parseDigits, if_neg, digits_of_isDigit fun c => isDigit_of_mem, Nat.ofDigitChars_ten_toDigits]
  rw [List.isEmpty_iff]
  exact Nat.toDigits_ne_nil

/-- Text that starts with a digit has no sign. -/
theorem parse_of_isDigit {c : Char} {s : List Char} (h : c.isDigit) :
    parse (c :: s) = (parseDigits (c :: s)).map fun n : ℕ => (n : ℤ) := by
  unfold parse
  split
  · next heq =>
    cases heq
    cases h
  · next heq =>
    cases heq
    cases h
  · rfl

theorem literalDigits_of_isDigit {s : List Char} (h : ∀ c ∈ s, c.isDigit) (value : ℕ) :
    literalDigits s value = some (Nat.ofDigitChars 10 s value) := by
  induction s generalizing value with
  | nil => rfl
  | cons c s ih =>
    have hc := h c List.mem_cons_self
    have hrest := ih (fun d hd => h d (List.mem_cons_of_mem c hd)) (10 * value + (c.toNat - 48))
    unfold literalDigits
    split
    · next heq => cases heq
    · next heq =>
      cases heq
      cases hc
    · next heq =>
      cases heq
      rw [digit_of_isDigit hc, Option.bind_some, hrest, Nat.ofDigitChars_cons]
      rfl

/-- Plain digits are the number they spell, up to the number of them that the language reads. -/
theorem parseLiteral_of_isDigit {s : List Char} (hne : s ≠ []) (hshort : s.length ≤ 4300)
    (h : ∀ c ∈ s, c.isDigit) : parseLiteral s = some (Nat.ofDigitChars 10 s 0 : ℤ) := by
  obtain ⟨c, t, rfl⟩ := List.exists_cons_of_ne_nil hne
  have hc := h c List.mem_cons_self
  have hcount : (c :: t).countP (fun c => (digit c).isSome) ≤ (c :: t).length :=
    List.countP_le_length
  have hunsigned : parseUnsignedLiteral (c :: t) = some (Nat.ofDigitChars 10 (c :: t) 0) := by
    rw [parseUnsignedLiteral, if_pos, literalDigits_of_isDigit h]
    rw [List.head?_cons, Option.bind_some, digit_of_isDigit hc]
    exact ⟨rfl, hcount.trans hshort⟩
  unfold parseLiteral
  split
  · next heq =>
    cases heq
    cases hc
  · next heq =>
    cases heq
    cases hc
  · rw [hunsigned, Option.map_some]

end Digits

section Print

theorem parse_print (v : ℤ) : parse (print v) = some v := by
  rw [print]
  split_ifs with hneg
  · rw [parse, parseDigits_toDigits, Option.map_some]
    congr
    omega
  · obtain ⟨c, s, hs⟩ := List.exists_cons_of_ne_nil (Nat.toDigits_ne_nil (n := v.natAbs) (b := 10))
    have hc : c.isDigit := by
      apply isDigit_of_mem (n := v.natAbs)
      rw [hs]
      exact List.mem_cons_self
    rw [hs, parse_of_isDigit hc, ← hs, parseDigits_toDigits, Option.map_some]
    congr
    omega

/-- What is printed of a number is read back. -/
theorem parseInt_print {w : ℕ} (v : BitVec w) : parseInt w (print v.toInt) = some v := by
  rw [parseInt, parse_print, Option.bind_some, if_pos ⟨v.le_toInt, v.toInt_lt⟩, BitVec.ofInt_toInt]

/-- The characters of a number are digits and its sign. -/
theorem mem_print {v : ℤ} {c : Char} (h : c ∈ print v) : c = '-' ∨ c.isDigit := by
  rw [print] at h
  split_ifs at h
  · rcases List.mem_cons.mp h with rfl | h
    · exact .inl rfl
    · exact .inr (isDigit_of_mem h)
  · exact .inr (isDigit_of_mem h)

theorem print_ne_nil (v : ℤ) : print v ≠ [] := by
  rw [print]
  split_ifs
  · exact List.cons_ne_nil _ _
  · exact Nat.toDigits_ne_nil

/-- Text with another character in it is not a number. -/
theorem parse_eq_none {c : Char} {s : List Char} (hminus : c ≠ '-') (hplus : c ≠ '+')
    (hdigit : digit c = none) : parse (c :: s) = none := by
  have hdigits : parseDigits (c :: s) = none := by
    rw [parseDigits, if_neg (by simp), digits, List.foldlM_cons, hdigit]
    rfl
  unfold parse
  split
  · next heq => exact absurd (List.cons.inj heq).1 hminus
  · next heq => exact absurd (List.cons.inj heq).1 hplus
  · rw [hdigits]
    rfl

end Print

end OpenNXT.Data.Decimal
