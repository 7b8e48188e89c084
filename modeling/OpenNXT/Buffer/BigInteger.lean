import Mathlib.Data.Int.GCD
import Mathlib.Data.Nat.Size
import OpenNXT.Buffer.BigEndian

/-! Integers of any size as two's complement byte arrays, and their modular powers. -/
namespace OpenNXT.Buffer

namespace BigInteger

/-- The bits of a two's complement representation, without the sign bit. -/
def bitLength (n : ℤ) : ℕ := if 0 ≤ n then n.toNat.size else (-n - 1).toNat.size

/-- The shortest two's complement representation; at least one byte. -/
def toByteArray (n : ℤ) : List Byte :=
  toBytes (bitLength n / 8 + 1) (n % 256 ^ (bitLength n / 8 + 1)).toNat

/-- A two's complement representation; an empty array is an exception. -/
def ofByteArray : List Byte → Option ℤ
  | [] => none
  | b :: bs =>
    if b.toNat < 128 then some (ofBytes (b :: bs))
    else some (ofBytes (b :: bs) - 256 ^ (bs.length + 1))

/-- A modulus that is not positive, or a missing inverse, is an exception. -/
def modPow (base exponent modulus : ℤ) : Option ℤ :=
  if modulus ≤ 0 then none
  else if 0 ≤ exponent then some (base ^ exponent.toNat % modulus)
  else if base.gcd modulus = 1 then
    some (base.gcdA modulus ^ (-exponent).toNat % modulus)
  else none

section Bytes

@[simp] theorem length_toByteArray (n : ℤ) : (toByteArray n).length = bitLength n / 8 + 1 :=
  length_toBytes _ _

@[simp] theorem bitLength_natCast (n : ℕ) : bitLength n = n.size := by
  rw [bitLength, if_pos (Int.natCast_nonneg n), Int.toNat_natCast]

private theorem lt_pow_size (n : ℕ) : n < 128 * 256 ^ (n.size / 8) := by
  have hlt : n < 2 ^ n.size := Nat.lt_size_self n
  have hle : 2 ^ n.size ≤ 2 ^ (7 + 8 * (n.size / 8)) := Nat.pow_le_pow_right (by omega) (by omega)
  rw [pow_add, pow_mul] at hle
  exact hlt.trans_le hle

theorem toByteArray_natCast (n : ℕ) : toByteArray n = toBytes (n.size / 8 + 1) n := by
  have hlt := lt_pow_size n
  have hmod : ((n : ℤ) % 256 ^ (n.size / 8 + 1)).toNat = n := by
    have hcast : (n : ℤ) % 256 ^ (n.size / 8 + 1) = ((n % 256 ^ (n.size / 8 + 1) : ℕ) : ℤ) := by
      push_cast
      rfl
    have hpow : 256 ^ (n.size / 8 + 1) = 256 ^ (n.size / 8) * 256 := pow_succ _ _
    rw [hcast, Int.toNat_natCast]
    apply Nat.mod_eq_of_lt
    omega
  rw [toByteArray, bitLength_natCast, hmod]

/-- The bytes of a number without a sign start below the sign bit. -/
private theorem head_lt (n : ℕ) :
    (BitVec.ofNat 8 (n / 256 ^ (n.size / 8))).toNat = n / 256 ^ (n.size / 8) ∧
      n / 256 ^ (n.size / 8) < 128 := by
  have hlt : n / 256 ^ (n.size / 8) < 128 := by
    rw [Nat.div_lt_iff_lt_mul (by positivity)]
    exact lt_pow_size n
  refine ⟨?_, hlt⟩
  rw [BitVec.toNat_ofNat]
  exact Nat.mod_eq_of_lt (by omega)

theorem ofByteArray_toByteArray (n : ℕ) : ofByteArray (toByteArray n) = some (n : ℤ) := by
  obtain ⟨hhead, hlt⟩ := head_lt n
  have hvalue : ofBytes (toBytes (n.size / 8 + 1) n) = n := by
    rw [ofBytes_toBytes]
    have hpow : 256 ^ (n.size / 8 + 1) = 256 ^ (n.size / 8) * 256 := pow_succ _ _
    have hn := lt_pow_size n
    apply Nat.mod_eq_of_lt
    omega
  rw [toByteArray_natCast]
  rw [toBytes] at hvalue ⊢
  rw [ofByteArray, hhead, if_pos hlt, hvalue]

/-- A representation without a sign byte in front of it is the shortest. -/
theorem toByteArray_ofBytes {b : Byte} (bs : List Byte) (hpos : 0 < b.toNat)
    (hsign : b.toNat < 128) : toByteArray (ofBytes (b :: bs)) = b :: bs := by
  have htail := ofBytes_lt bs
  have hpow : 0 < 256 ^ bs.length := by positivity
  have hone : 1 * 256 ^ bs.length ≤ b.toNat * 256 ^ bs.length := Nat.mul_le_mul_right _ hpos
  have hmax : (b.toNat + 1) * 256 ^ bs.length ≤ 128 * 256 ^ bs.length :=
    Nat.mul_le_mul_right _ hsign
  rw [Nat.add_mul] at hmax
  have hlow : 8 * bs.length < (ofBytes (b :: bs)).size := by
    rw [Nat.lt_size, pow_mul, ofBytes]
    norm_num
    omega
  have hhigh : (ofBytes (b :: bs)).size ≤ 7 + 8 * bs.length := by
    rw [Nat.size_le, pow_add, pow_mul, ofBytes]
    norm_num
    omega
  have hlen : (ofBytes (b :: bs)).size / 8 + 1 = (b :: bs).length := by
    rw [List.length_cons]
    omega
  rw [toByteArray_natCast, hlen, toBytes_ofBytes]

end Bytes

section Power

theorem modPow_natCast {base exponent modulus : ℕ} (h : 0 < modulus) :
    modPow base exponent modulus = some ((base ^ exponent % modulus : ℕ) : ℤ) := by
  rw [modPow, if_neg (by omega), if_pos (Int.natCast_nonneg exponent), Int.toNat_natCast]
  push_cast
  rfl

/-- A number below the modulus needs a byte more than the modulus only for its sign. -/
theorem toByteArray_below {n modulus : ℕ} (h : n < modulus) :
    (toByteArray n).length ≤ (bitLength modulus + 7) / 8 ∨
      (toByteArray n).length = (bitLength modulus + 7) / 8 + 1 ∧
        (toByteArray n).head? = some 0 := by
  have hsize : n.size ≤ modulus.size := Nat.size_le_size h.le
  rw [length_toByteArray, bitLength_natCast, bitLength_natCast]
  by_cases hle : n.size / 8 + 1 ≤ (modulus.size + 7) / 8
  · exact Or.inl hle
  · right
    refine ⟨by omega, ?_⟩
    have hwhole : n.size = 8 * (n.size / 8) := by omega
    have hlt : n < 256 ^ (n.size / 8) := by
      have hpow := Nat.lt_size_self n
      rw [hwhole, pow_mul] at hpow
      exact hpow
    rw [toByteArray_natCast, toBytes, Nat.div_eq_of_lt hlt]
    rfl

end Power

end BigInteger

end OpenNXT.Buffer
