import Mathlib.Data.Int.Notation
import OpenNXT.Buffer.BigEndian

/-! Whole numbers as hexadecimal text, one byte a character. -/
namespace OpenNXT.Data.Hexadecimal
open Buffer

def digit (b : Byte) : Option ℕ :=
  if 0x30 ≤ b.toNat ∧ b.toNat ≤ 0x39 then some (b.toNat - 0x30)
  else if 0x61 ≤ b.toNat ∧ b.toNat ≤ 0x66 then some (b.toNat - 0x61 + 10)
  else if 0x41 ≤ b.toNat ∧ b.toNat ≤ 0x46 then some (b.toNat - 0x41 + 10)
  else none

/-- The digits after a number; `none` is a character that is not one. -/
def digits (s : List Byte) (value : ℕ) : Option ℕ :=
  s.foldlM (fun value b => (digit b).map fun d => 16 * value + d) value

def parseDigits (s : List Byte) : Option ℕ := if s.isEmpty then none else digits s 0

def minus : Byte := 0x2d

def plus : Byte := 0x2b

/-- One sign may be in front. -/
def parse : List Byte → Option ℤ
  | [] => none
  | b :: s =>
    if b = minus then (parseDigits s).map fun n : ℕ => -(n : ℤ)
    else if b = plus then (parseDigits s).map fun n : ℕ => (n : ℤ)
    else (parseDigits (b :: s)).map fun n : ℕ => (n : ℤ)

/-- Lower case, and no zeros in front. -/
def print (v : ℤ) : List Byte :=
  let digits := (Nat.toDigits 16 v.natAbs).map fun c => BitVec.ofNat 8 c.toNat
  if v < 0 then minus :: digits else digits

theorem digit_minus : digit minus = none := by decide

theorem digit_plus : digit plus = none := by decide

/-- Digits without a sign are a number. -/
theorem parse_of_parseDigits {s : List Byte} {n : ℕ} (h : parseDigits s = some n) :
    parse s = some (n : ℤ) := by
  cases s with
  | nil => cases h
  | cons b s =>
    have hb : digit b ≠ none := by
      intro hnone
      rw [parseDigits, if_neg (by simp), digits, List.foldlM_cons, hnone] at h
      cases h
    have hminus : b ≠ minus := fun heq => hb (heq ▸ digit_minus)
    have hplus : b ≠ plus := fun heq => hb (heq ▸ digit_plus)
    rw [parse, if_neg hminus, if_neg hplus, h, Option.map_some]

/-- A digit is no zero byte. -/
theorem ne_zero_of_parseDigits {b : Byte} {s : List Byte} {n : ℕ}
    (h : parseDigits (b :: s) = some n) : b ≠ 0 := by
  rintro rfl
  rw [parseDigits, if_neg (by simp), digits, List.foldlM_cons, show digit 0 = none by decide] at h
  cases h

end OpenNXT.Data.Hexadecimal
