import OpenNXT.Util.ISAACCipher

/-! Opcodes on the wire: one enciphered byte, or two from 128 on. -/
namespace OpenNXT.Net
open Buffer Util

/-- `readByte().toInt() - value and 0xff` -/
def decipher (b : Byte) (value : Word) : Word := (b.signExtend 32 - value) &&& 0xff

/-- Whether the next opcode takes two bytes, told without taking a value from the cipher. -/
def isBigOpcode (isaac : ISAACCipher) (b : Byte) : Bool :=
  128 ≤ (decipher b isaac.getCurrentValue).toInt

/-- `none` is an underflow. -/
def readOpcode (isaac : ISAACCipher) : List Byte → Option (Word × ISAACCipher × List Byte)
  | [] => none
  | b :: buf =>
    let (next, isaac) := isaac.getNextValue
    let value := decipher b next
    if value.toInt < 128 then some (value, isaac, buf)
    else match buf with
      | [] => none
      | c :: buf =>
        let (next, isaac) := isaac.getNextValue
        some (((value - 128) <<< 8) + decipher c next, isaac, buf)

/-- `writeByte` keeps the low eight bits. -/
def writeOpcode (isaac : ISAACCipher) (opcode : Word) : List Byte × ISAACCipher :=
  if 128 ≤ opcode.toInt then
    let (next, isaac) := isaac.getNextValue
    let big := ((opcode.sshiftRight 8 + 128) + next).setWidth 8
    let (next, isaac) := isaac.getNextValue
    ([big, (opcode + next).setWidth 8], isaac)
  else
    let (next, isaac) := isaac.getNextValue
    ([(opcode + next).setWidth 8], isaac)

section Decipher

theorem toNat_decipher (b : Byte) (value : Word) :
    (decipher b value).toNat = (b.toNat + (2 ^ 32 - value.toNat)) % 256 := by
  have hmask : (decipher b value).toNat = (b.signExtend 32 - value).toNat % 2 ^ 8 := by
    unfold decipher
    rw [BitVec.toNat_and]
    exact Nat.and_two_pow_sub_one_eq_mod _ 8
  have hb : (b.signExtend 32).toNat % 256 = b.toNat := by
    rw [BitVec.toNat_signExtend]
    have := b.isLt
    split <;> simp only [BitVec.toNat_setWidth] <;> omega
  have hv := value.isLt
  rw [hmask, BitVec.toNat_sub]
  omega

theorem toNat_decipher_lt (b : Byte) (value : Word) : (decipher b value).toNat < 256 := by
  rw [toNat_decipher]
  omega

theorem toInt_decipher (b : Byte) (value : Word) :
    (decipher b value).toInt = (decipher b value).toNat := by
  have := toNat_decipher_lt b value
  rw [BitVec.toInt_eq_toNat_cond]
  split <;> omega

/-- What was enciphered as a byte comes back in its low eight bits. -/
theorem toNat_decipher_encipher (v value : Word) :
    (decipher ((v + value).setWidth 8) value).toNat = v.toNat % 256 := by
  have hv := value.isLt
  rw [toNat_decipher, BitVec.toNat_setWidth, BitVec.toNat_add]
  omega

end Decipher

/-- The peek says whether reading takes two bytes. -/
theorem isBigOpcode_iff (isaac : ISAACCipher) (b : Byte) :
    isBigOpcode isaac b ↔ ¬ (decipher b isaac.getNextValue.1).toInt < 128 := by
  unfold isBigOpcode
  rw [ISAACCipher.getCurrentValue_eq, decide_eq_true_iff]
  omega

/-- Opcodes of fifteen bits. -/
def IsOpcode (opcode : Word) : Prop := opcode.toNat < 2 ^ 15

theorem toInt_of_isOpcode {opcode : Word} (h : IsOpcode opcode) : opcode.toInt = opcode.toNat := by
  unfold IsOpcode at h
  rw [BitVec.toInt_eq_toNat_cond]
  split <;> omega

private theorem toNat_sshiftRight {opcode : Word} (h : IsOpcode opcode) :
    (opcode.sshiftRight 8 + 128).toNat = opcode.toNat / 256 + 128 := by
  unfold IsOpcode at h
  have hmsb : opcode.msb = false := by
    rw [BitVec.msb_eq_decide, decide_eq_false_iff_not]
    omega
  have hshift : (opcode.sshiftRight 8).toNat = opcode.toNat / 256 := by
    rw [BitVec.sshiftRight_eq_of_msb_false hmsb, BitVec.toNat_ushiftRight, Nat.shiftRight_eq_div_pow]
  rw [BitVec.toNat_add, hshift]
  have : (128 : Word).toNat = 128 := rfl
  omega

/-- Reading an opcode undoes writing it, and both take the same values from the cipher. -/
theorem readOpcode_writeOpcode (isaac : ISAACCipher) (opcode : Word) (h : IsOpcode opcode)
    (rest : List Byte) :
    readOpcode isaac ((writeOpcode isaac opcode).1 ++ rest) =
      some (opcode, (writeOpcode isaac opcode).2, rest) := by
  have hint := toInt_of_isOpcode h
  have hlt := h
  unfold IsOpcode at hlt
  unfold writeOpcode
  split_ifs with hbig
  · have hhigh := toNat_decipher_encipher (opcode.sshiftRight 8 + 128) isaac.getNextValue.1
    have hlow := toNat_decipher_encipher opcode isaac.getNextValue.2.getNextValue.1
    rw [toNat_sshiftRight h] at hhigh
    have hnot : ¬ (decipher ((opcode.sshiftRight 8 + 128 + isaac.getNextValue.1).setWidth 8)
        isaac.getNextValue.1).toInt < 128 := by
      rw [toInt_decipher, hhigh]
      omega
    simp only [List.cons_append, List.nil_append, readOpcode]
    rw [if_neg hnot]
    congr 2
    apply BitVec.eq_of_toNat_eq
    rw [BitVec.toNat_add, hlow, BitVec.toNat_shiftLeft, BitVec.toNat_sub, hhigh,
      Nat.shiftLeft_eq]
    have : (128 : Word).toNat = 128 := rfl
    omega
  · have hlow := toNat_decipher_encipher opcode isaac.getNextValue.1
    have hsmall : (decipher ((opcode + isaac.getNextValue.1).setWidth 8)
        isaac.getNextValue.1).toInt < 128 := by
      rw [toInt_decipher, hlow]
      omega
    simp only [List.cons_append, List.nil_append, readOpcode]
    rw [if_pos hsmall]
    congr 2
    apply BitVec.eq_of_toNat_eq
    rw [hlow]
    omega

/-- Reading looks only at the bytes it takes. -/
theorem readOpcode_append {isaac isaac' : ISAACCipher} {buf rest : List Byte} {opcode : Word}
    (h : readOpcode isaac buf = some (opcode, isaac', rest)) (more : List Byte) :
    readOpcode isaac (buf ++ more) = some (opcode, isaac', rest ++ more) := by
  cases buf with
  | nil => simp [readOpcode] at h
  | cons b buf =>
    simp only [readOpcode, List.cons_append] at h ⊢
    split_ifs at h ⊢ with hsmall
    · simp only [Option.some.injEq, Prod.mk.injEq] at h ⊢
      obtain ⟨rfl, rfl, rfl⟩ := h
      exact ⟨rfl, rfl, rfl⟩
    · cases buf with
      | nil => simp at h
      | cons c buf =>
        simp only [Option.some.injEq, Prod.mk.injEq, List.cons_append] at h ⊢
        obtain ⟨rfl, rfl, rfl⟩ := h
        exact ⟨rfl, rfl, rfl⟩

theorem length_readOpcode {isaac isaac' : ISAACCipher} {buf rest : List Byte} {opcode : Word}
    (h : readOpcode isaac buf = some (opcode, isaac', rest)) : rest.length < buf.length := by
  cases buf with
  | nil => simp [readOpcode] at h
  | cons b buf =>
    simp only [readOpcode] at h
    split_ifs at h with hsmall
    · simp only [Option.some.injEq, Prod.mk.injEq] at h
      obtain ⟨-, -, rfl⟩ := h
      simp
    · cases buf with
      | nil => simp at h
      | cons c buf =>
        simp only [Option.some.injEq, Prod.mk.injEq] at h
        obtain ⟨-, -, rfl⟩ := h
        simp only [List.length_cons]
        omega

end OpenNXT.Net
