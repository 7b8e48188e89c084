import OpenNXT.Buffer.BigEndian
import Mathlib.Data.List.Range

/-! Packet data of a width, in a byte order, with a transformed low byte: how the builder puts it and
the reader gets it. -/
namespace OpenNXT.Net.Buf
open Buffer

inductive DataType
  | byte
  | short
  | medium
  | int
  | long
  deriving DecidableEq

def DataType.bytes : DataType → ℕ
  | byte => 1
  | short => 2
  | medium => 3
  | int => 4
  | long => 8

inductive DataOrder
  | big
  | inversedMiddle
  | little
  | middle
  deriving DecidableEq

inductive DataTransformation
  | add
  | negate
  | none
  | subtract
  deriving DecidableEq

/-- The order in which the bytes of a value come, the least significant being byte `0`. -/
def positions (type : DataType) : DataOrder → List ℕ
  | .big => (List.range type.bytes).reverse
  | .inversedMiddle => [2, 3, 0, 1]
  | .little => List.range type.bytes
  | .middle => [1, 0, 3, 2]

/-- The middle orders are for plain integers. -/
def Supported (type : DataType) (order : DataOrder) (transformation : DataTransformation) : Prop :=
  order = .middle ∨ order = .inversedMiddle → transformation = .none ∧ type = .int

instance (type : DataType) (order : DataOrder) (transformation : DataTransformation) :
    Decidable (Supported type order transformation) :=
  inferInstanceAs (Decidable (_ → _))

namespace GamePacketBuilder

/-- The byte at a position; only the lowest is transformed. -/
def byteAt (transformation : DataTransformation) (value : Long) (i : ℕ) : Byte :=
  if i = 0 then
    match transformation with
    | .add => (value + 128).setWidth 8
    | .negate => (-value).setWidth 8
    | .none => value.setWidth 8
    | .subtract => (128 - value).setWidth 8
  else (value.sshiftRight (i * 8)).setWidth 8

/-- `none` is an exception. -/
def put (type : DataType) (order : DataOrder) (transformation : DataTransformation) (value : Long) :
    Option (List Byte) :=
  if Supported type order transformation then
    some ((positions type order).map (byteAt transformation value))
  else none

end GamePacketBuilder

namespace GamePacketReader

/-- What a byte at a position contributes. -/
def valueAt (transformation : DataTransformation) (i : ℕ) (b : Byte) : Long :=
  if i = 0 then
    match transformation with
    | .add => (b.signExtend 64 - 128) &&& 0xFF
    | .negate => (-b.signExtend 64) &&& 0xFF
    | .none => b.signExtend 64 &&& 0xFF
    | .subtract => (128 - b.signExtend 64) &&& 0xFF
  else (b.signExtend 64 &&& 0xFF) <<< (i * 8)

/-- The middle orders shift an `Int`, and extend its sign. -/
def intValueAt (i : ℕ) (b : Byte) : Long :=
  ((b.signExtend 32 &&& 0xFF : Word) <<< (i * 8)).signExtend 64

def getBytes (contribution : ℕ → Byte → Long) : List ℕ → Long → Reader Long
  | [], value => return value
  | i :: positions, value => do
    let b ← Reader.byte
    getBytes contribution positions (value ||| contribution i b)

def get (type : DataType) (order : DataOrder) (transformation : DataTransformation) : Reader Long :=
  if Supported type order transformation then
    if order = .middle ∨ order = .inversedMiddle then
      getBytes intValueAt (positions type order) 0
    else getBytes (valueAt transformation) (positions type order) 0
  else Reader.fail

/-- `(Math.pow(2.0, type.bytes.toDouble() * 8 - 1) - 1).toInt()` -/
def signedMax (type : DataType) : Word := BitVec.ofNat 32 (2 ^ (type.bytes * 8 - 1) - 1)

def toSigned (type : DataType) (value : Long) : Long :=
  if type ≠ .long ∧ ((signedMax type).signExtend 64).slt value then
    value - ((signedMax type + 1) * 2).signExtend 64
  else value

def getSigned (type : DataType) (order : DataOrder) (transformation : DataTransformation) :
    Reader Long := do
  let value ← get type order transformation
  return toSigned type value

/-- `longValue and -0x1L` -/
def getUnsigned (type : DataType) (order : DataOrder) (transformation : DataTransformation) :
    Reader Long := do
  let value ← get type order transformation
  return value &&& -1

end GamePacketReader

section Bytes
open GamePacketBuilder GamePacketReader

private theorem and_255 {n : ℕ} (hn : 8 ≤ n) (v : BitVec n) :
    v &&& BitVec.ofNat n 255 = (v.setWidth 8).setWidth n := by
  apply BitVec.eq_of_toNat_eq
  have hpow : 2 ^ 8 ≤ 2 ^ n := Nat.pow_le_pow_right (by omega) hn
  have h255 : (255 : ℕ) % 2 ^ n = 2 ^ 8 - 1 := Nat.mod_eq_of_lt (by omega)
  rw [BitVec.toNat_and, BitVec.toNat_ofNat, h255, Nat.and_two_pow_sub_one_eq_mod,
    BitVec.toNat_setWidth, BitVec.toNat_setWidth]
  exact (Nat.mod_eq_of_lt (by omega)).symm

theorem setWidth_signExtend {n : ℕ} (hn : 8 ≤ n) (b : Byte) :
    (b.signExtend n).setWidth 8 = b := by
  ext j hj
  rw [BitVec.getElem_setWidth, BitVec.getLsbD_signExtend]
  simp [hj, show j < n by omega]

private theorem setWidth_sub (x y : Long) : (x - y).setWidth 8 = x.setWidth 8 - y.setWidth 8 := by
  rw [BitVec.sub_eq_add_neg, BitVec.setWidth_add _ _ (by omega),
    BitVec.setWidth_neg_of_le (by omega), ← BitVec.sub_eq_add_neg]

/-- Reading undoes the transformation of the lowest byte. -/
private theorem valueAt_zero (t : DataTransformation) (v : Long) :
    valueAt t 0 (byteAt t v 0) = (v.setWidth 8).setWidth 64 := by
  have hmask : ∀ x : Long, x &&& 0xFF = (x.setWidth 8).setWidth 64 := and_255 (by omega)
  have hext := setWidth_signExtend (n := 64) (by omega)
  unfold valueAt byteAt
  rw [if_pos rfl, if_pos rfl]
  cases t with
  | add =>
    simp only [hmask, setWidth_sub, hext, BitVec.setWidth_add _ _ (show 8 ≤ 64 by omega)]
    rw [BitVec.add_sub_cancel]
  | negate =>
    simp only [hmask, hext, BitVec.setWidth_neg_of_le (show 8 ≤ 64 by omega), BitVec.neg_neg]
  | none => simp only [hmask, hext]
  | subtract =>
    simp only [hmask, setWidth_sub, hext]
    have hback : ∀ x y : Byte, x - (x - y) = y := by
      intro x y
      bv_omega
    rw [hback]

/-- A position contributes the eight bits it carries. -/
theorem getLsbD_valueAt (t : DataTransformation) (v : Long) {i j : ℕ} (hj : j < 64) :
    (valueAt t i (byteAt t v i)).getLsbD j = (decide (j / 8 = i) && v.getLsbD j) := by
  by_cases hi : i = 0
  · subst hi
    rw [valueAt_zero]
    by_cases hlow : j < 8
    · simp [hj, hlow]
    · simp [hlow]
  · have hmask : ∀ x : Long, x &&& 0xFF = (x.setWidth 8).setWidth 64 := and_255 (by omega)
    unfold valueAt byteAt
    rw [if_neg hi, if_neg hi, hmask, setWidth_signExtend (by omega)]
    simp only [BitVec.getLsbD_shiftLeft, BitVec.getLsbD_setWidth, BitVec.getLsbD_sshiftRight]
    by_cases hpos : j / 8 = i
    · have hadd : i * 8 + (j - i * 8) = j := by omega
      simp [hj, hpos, hadd, show ¬ j < i * 8 by omega, show j - i * 8 < 8 by omega,
        show j - i * 8 < 64 by omega]
    · have hout : j < i * 8 ∨ ¬ j - i * 8 < 8 := by omega
      rcases hout with h | h <;> simp [hpos, h]

theorem getLsbD_intValueAt (v : Long) {i j : ℕ} (hj : j < 32) :
    (intValueAt i (byteAt .none v i)).getLsbD j = (decide (j / 8 = i) && v.getLsbD j) := by
  have hmask : ∀ x : Word, x &&& 0xFF = (x.setWidth 8).setWidth 32 := and_255 (by omega)
  have hbyte : byteAt .none v i = (v.sshiftRight (i * 8)).setWidth 8 := by
    rw [byteAt]
    split_ifs with hi
    · subst hi
      simp
    · rfl
  rw [intValueAt, hbyte, hmask, setWidth_signExtend (by omega)]
  simp only [BitVec.getLsbD_signExtend, BitVec.getLsbD_shiftLeft, BitVec.getLsbD_setWidth,
    BitVec.getLsbD_sshiftRight]
  by_cases hpos : j / 8 = i
  · have hadd : i * 8 + (j - i * 8) = j := by omega
    simp [hj, hpos, hadd, show j < 64 by omega, show ¬ j < i * 8 by omega,
      show j - i * 8 < 8 by omega, show j - i * 8 < 32 by omega, show j - i * 8 < 64 by omega]
  · have hout : j < i * 8 ∨ ¬ j - i * 8 < 8 := by omega
    rcases hout with h | h <;> simp [hj, hpos, h, show j < 64 by omega]

end Bytes

section Columns
open GamePacketBuilder GamePacketReader

private theorem reads_getBytes (f : ℕ → Byte → Long) (g : ℕ → Byte) (ps : List ℕ) (acc : Long) :
    Reads (getBytes f ps acc) (ps.map g) (ps.foldl (fun acc i => acc ||| f i (g i)) acc) := by
  induction ps generalizing acc with
  | nil => exact Reads.pure acc
  | cons i ps ih => exact Reads.bind (Reads.byte (g i)) (ih _)

private theorem getLsbD_foldl {h : ℕ → Long} {v : Long} {j : ℕ} (ps : List ℕ) (acc : Long)
    (hpart : ∀ i, (h i).getLsbD j = (decide (j / 8 = i) && v.getLsbD j)) :
    (ps.foldl (fun acc i => acc ||| h i) acc).getLsbD j =
      (acc.getLsbD j || (decide (j / 8 ∈ ps) && v.getLsbD j)) := by
  induction ps generalizing acc with
  | nil => simp
  | cons i ps ih =>
    rw [List.foldl_cons, ih, BitVec.getLsbD_or, hpart]
    simp only [List.mem_cons, Bool.decide_or, Bool.and_or_distrib_right, Bool.or_assoc]

private theorem mem_positions {type : DataType} {order : DataOrder}
    {transformation : DataTransformation} (h : Supported type order transformation) (i : ℕ) :
    i ∈ positions type order ↔ i < type.bytes := by
  cases order with
  | big => simp [positions]
  | little => simp [positions]
  | inversedMiddle =>
    obtain ⟨-, rfl⟩ := h (Or.inr rfl)
    simp [positions, DataType.bytes]
    omega
  | middle =>
    obtain ⟨-, rfl⟩ := h (Or.inl rfl)
    simp [positions, DataType.bytes]
    omega

/-- What was put is got back, as far as the width goes; outside the middle orders the rest is
zero. -/
theorem reads_get {type : DataType} {order : DataOrder} {transformation : DataTransformation}
    {v : Long} {bs : List Byte} (h : put type order transformation v = some bs) :
    ∃ w, Reads (get type order transformation) bs w ∧
      w.setWidth (type.bytes * 8) = v.setWidth (type.bytes * 8) ∧
      (order = .big ∨ order = .little → w = (v.setWidth (type.bytes * 8)).setWidth 64) := by
  unfold put at h
  split_ifs at h with hs
  cases h
  have hmem := mem_positions hs
  have hbytes : type.bytes * 8 ≤ 64 := by cases type <;> decide
  by_cases hmid : order = .middle ∨ order = .inversedMiddle
  · obtain ⟨rfl, rfl⟩ := hs hmid
    have hread := reads_getBytes intValueAt (byteAt .none v) (positions .int order) 0
    refine ⟨(positions .int order).foldl
      (fun acc i => acc ||| intValueAt i (byteAt .none v i)) 0, ?_, ?_, ?_⟩
    · rw [GamePacketReader.get, if_pos hs, if_pos hmid]
      exact hread
    · ext j hj
      have hj32 : j < 32 := hj
      rw [BitVec.getElem_setWidth, BitVec.getElem_setWidth,
        getLsbD_foldl (v := v) _ _ fun i => getLsbD_intValueAt v hj32]
      simp [hmem, DataType.bytes, show j / 8 < 4 by omega]
    · rintro (rfl | rfl) <;> simp at hmid
  · have hread := reads_getBytes (valueAt transformation) (byteAt transformation v)
      (positions type order) 0
    have hvalue : (positions type order).foldl
        (fun acc i => acc ||| valueAt transformation i (byteAt transformation v i)) 0 =
          (v.setWidth (type.bytes * 8)).setWidth 64 := by
      ext j hj
      have hdiv : j / 8 < type.bytes ↔ j < type.bytes * 8 := by omega
      rw [← BitVec.getLsbD_eq_getElem, ← BitVec.getLsbD_eq_getElem,
        getLsbD_foldl (v := v) _ _ fun i => getLsbD_valueAt transformation v hj]
      simp [hmem, hdiv, hj]
    refine ⟨_, ?_, ?_, fun _ => rfl⟩
    · rw [GamePacketReader.get, if_pos hs, if_neg hmid, ← hvalue]
      exact hread
    · ext j hj
      simp [hj, show j < 64 by omega]

end Columns

end OpenNXT.Net.Buf
