import OpenNXT.Buffer.BigEndian

/-! Bytes as one row of bits, the most significant bit of a byte first, and the numbers that
bits spell. -/
namespace OpenNXT.Buffer

/-- The bit at a position; there are only zeros behind the end. -/
def bitAt (bs : List Byte) (j : ℕ) : Bool := (bs.getD (j / 8) 0).getLsbD (7 - j % 8)

/-- The number that `n` bits from a position on spell. -/
def spelled (bit : ℕ → Bool) (i : ℕ) : ℕ → ℕ
  | 0 => 0
  | n + 1 => 2 * spelled bit i n + (bit (i + n)).toNat

section Spelled
variable {bit : ℕ → Bool} {i : ℕ}

theorem spelled_lt (bit : ℕ → Bool) (i n : ℕ) : spelled bit i n < 2 ^ n := by
  induction n with
  | zero => exact Nat.one_pos
  | succ n ih =>
    have hbit := Bool.toNat_lt (bit (i + n))
    rw [spelled, pow_succ]
    omega

/-- Bits in front of others count for more. -/
theorem spelled_add (bit : ℕ → Bool) (i m n : ℕ) :
    spelled bit i (m + n) = spelled bit i m * 2 ^ n + spelled bit (i + m) n := by
  induction n with
  | zero => rw [Nat.add_zero, pow_zero, Nat.mul_one, spelled, Nat.add_zero]
  | succ n ih =>
    rw [← Nat.add_assoc, spelled, ih, spelled, pow_succ, Nat.add_assoc i m n]
    ring

theorem spelled_congr {bit' : ℕ → Bool} {n : ℕ} (h : ∀ k < n, bit (i + k) = bit' (i + k)) :
    spelled bit i n = spelled bit' i n := by
  induction n with
  | zero => rfl
  | succ n ih =>
    have hfront : ∀ k < n, bit (i + k) = bit' (i + k) := fun k hk => h k (by omega)
    rw [spelled, spelled, ih hfront, h n (by omega)]

/-- The bits of a number spell it. -/
theorem spelled_eq_mod {n v : ℕ} (h : ∀ k < n, bit (i + k) = v.testBit (n - 1 - k)) :
    spelled bit i n = v % 2 ^ n := by
  induction n generalizing v with
  | zero => rw [pow_zero, Nat.mod_one, spelled]
  | succ n ih =>
    have hhalf : ∀ k < n, bit (i + k) = (v / 2).testBit (n - 1 - k) := by
      intro k hk
      rw [h k (by omega), ← Nat.testBit_succ]
      congr 1
      omega
    have hlast : (bit (i + n)).toNat = v % 2 := by
      rw [h n (by omega), Nat.add_sub_cancel, Nat.sub_self, Nat.testBit_zero]
      obtain heven | hodd := Nat.mod_two_eq_zero_or_one v
      · rw [heven]
        rfl
      · rw [hodd]
        rfl
    rw [spelled, ih hhalf, hlast, pow_succ, Nat.mul_comm (2 ^ n) 2, Nat.mod_mul]
    omega

end Spelled

section Bytes
variable {bs cs : List Byte}

theorem bitAt_set {k : ℕ} (hk : k < bs.length) (v : Byte) (j : ℕ) :
    bitAt (bs.set k v) j = if j / 8 = k then v.getLsbD (7 - j % 8) else bitAt bs j := by
  unfold bitAt
  rw [List.getD_eq_getElem?_getD, List.getD_eq_getElem?_getD, List.getElem?_set]
  split_ifs with hset hj hj
  · rfl
  · exact absurd hset.symm hj
  · exact absurd hj.symm hset
  · rfl

theorem bitAt_append_left {j : ℕ} (hj : j < 8 * bs.length) : bitAt (bs ++ cs) j = bitAt bs j := by
  unfold bitAt
  rw [List.getD_eq_getElem?_getD, List.getElem?_append_left (by omega), List.getD_eq_getElem?_getD]

/-- A bit of a byte. -/
theorem bitAt_byte (bs : List Byte) (k : ℕ) {t : ℕ} (ht : t < 8) :
    bitAt bs (8 * k + t) = (bs.getD k 0).getLsbD (7 - t) := by
  unfold bitAt
  rw [Nat.mul_add_div (Nat.succ_pos 7), Nat.div_eq_of_lt ht, Nat.add_zero, Nat.mul_add_mod,
    Nat.mod_eq_of_lt ht]

/-- Bytes are their bits. -/
theorem take_eq_take_iff {e : ℕ} (hbs : e ≤ bs.length) (hcs : e ≤ cs.length) :
    bs.take e = cs.take e ↔ ∀ j < 8 * e, bitAt bs j = bitAt cs j := by
  have hbyte : ∀ as : List Byte, e ≤ as.length → ∀ k < e, (as.take e)[k]? = some (as.getD k 0) := by
    intro as has k hk
    rw [List.getElem?_take_of_lt hk, List.getD_eq_getElem?_getD,
      List.getElem?_eq_getElem (by omega), Option.getD_some]
  constructor
  · intro h j hj
    have hbs' := hbyte bs hbs (j / 8) (by omega)
    rw [h, hbyte cs hcs (j / 8) (by omega)] at hbs'
    unfold bitAt
    rw [Option.some.inj hbs']
  · intro h
    apply List.ext_getElem?
    intro k
    by_cases hk : k < e
    · rw [hbyte bs hbs k hk, hbyte cs hcs k hk]
      congr 1
      apply BitVec.eq_of_getLsbD_eq
      intro t ht
      have hbit := h (8 * k + (7 - t)) (by omega)
      rw [bitAt_byte bs k (by omega), bitAt_byte cs k (by omega),
        show 7 - (7 - t) = t by omega] at hbit
      exact hbit
    · rw [List.getElem?_eq_none (by rw [List.length_take]; omega),
        List.getElem?_eq_none (by rw [List.length_take]; omega)]

end Bytes

end OpenNXT.Buffer
