import OpenNXT.Buffer.BigEndian

/-! The numbers of a `ByteBuf`: an `Int` is written by its low bytes, and read back with or without
a sign. -/
namespace OpenNXT.Buffer

def writeByte (v : Word) : List Byte := putWord 1 (v.setWidth 8)

def writeShort (v : Word) : List Byte := putWord 2 (v.setWidth 16)

def writeMedium (v : Word) : List Byte := putWord 3 (v.setWidth 24)

def writeInt (v : Word) : List Byte := putWord 4 v

def writeLong (v : Long) : List Byte := putWord 8 v

def writeBoolean (b : Bool) : List Byte := [if b then 1 else 0]

/-- `n` bytes without a sign. -/
def readUnsigned (n : ℕ) : Reader Word := do
  let v ← Reader.word n
  return v.setWidth 32

def readUnsignedByte : Reader Word := readUnsigned 1

def readUnsignedShort : Reader Word := readUnsigned 2

def readUnsignedMedium : Reader Word := readUnsigned 3

def readMedium : Reader Word := do
  let v ← Reader.word 3
  return v.signExtend 32

def readInt : Reader Word := Reader.word 4

def readLong : Reader Long := Reader.word 8

section Fields

private theorem setWidth_setWidth {n : ℕ} {v : Word} (h : v.toNat < 2 ^ n) :
    (v.setWidth n).setWidth 32 = v := by
  apply BitVec.eq_of_toNat_eq
  have hlt := v.isLt
  rw [BitVec.toNat_setWidth, BitVec.toNat_setWidth, Nat.mod_eq_of_lt h, Nat.mod_eq_of_lt hlt]

/-- The low bytes of a number. -/
theorem reads_unsigned_low (n : ℕ) (v : Word) :
    Reads (readUnsigned n) (putWord n (v.setWidth (8 * n))) ((v.setWidth (8 * n)).setWidth 32) :=
  (Reads.word n (v.setWidth (8 * n))).map (BitVec.setWidth 32)

private theorem reads_unsigned (n : ℕ) {v : Word} (h : v.toNat < 2 ^ (8 * n)) :
    Reads (readUnsigned n) (putWord n (v.setWidth (8 * n))) v := by
  have hread := reads_unsigned_low n v
  rwa [setWidth_setWidth h] at hread

theorem reads_unsignedByte {v : Word} (h : v.toNat < 2 ^ 8) :
    Reads readUnsignedByte (writeByte v) v := reads_unsigned 1 h

theorem reads_unsignedShort {v : Word} (h : v.toNat < 2 ^ 16) :
    Reads readUnsignedShort (writeShort v) v := reads_unsigned 2 h

theorem reads_unsignedMedium {v : Word} (h : v.toNat < 2 ^ 24) :
    Reads readUnsignedMedium (writeMedium v) v := reads_unsigned 3 h

theorem reads_medium {v : Word} (h : -2 ^ 23 ≤ v.toInt ∧ v.toInt < 2 ^ 23) :
    Reads readMedium (writeMedium v) v := by
  have hback : (v.setWidth 24).signExtend 32 = v := by
    apply BitVec.eq_of_toInt_eq
    rw [BitVec.toInt_signExtend_of_le (by omega), BitVec.toInt_setWidth, Int.bmod_def]
    have hcond := BitVec.toInt_eq_toNat_cond v
    split_ifs at hcond <;> omega
  have hread := (Reads.word 3 (v.setWidth 24)).map (BitVec.signExtend 32)
  rwa [hback] at hread

theorem reads_int (v : Word) : Reads readInt (writeInt v) v := Reads.word 4 v

theorem reads_long (v : Long) : Reads readLong (writeLong v) v := Reads.word 8 v

theorem reads_boolean (b : Bool) :
    Reads readUnsignedByte (writeBoolean b) (if b then 1 else 0) := by
  have hb : writeBoolean b = writeByte (if b then 1 else 0) := by cases b <;> rfl
  have hsmall : (if b then 1 else 0 : Word).toNat < 2 ^ 8 := by cases b <;> decide
  rw [hb]
  exact reads_unsignedByte hsmall

theorem length_readUnsigned {n : ℕ} {bs rest : List Byte} {v : Word}
    (h : readUnsigned n bs = some (v, rest)) : rest.length + n = bs.length := by
  rw [readUnsigned, Reader.bind_apply] at h
  obtain ⟨⟨w, ws⟩, hw, hv⟩ := Option.bind_eq_some_iff.mp h
  cases hv
  exact Reader.length_word hw

theorem readUnsigned_rest {n : ℕ} {bs rest : List Byte} {v : Word}
    (h : readUnsigned n bs = some (v, rest)) : rest = bs.drop n := by
  rw [readUnsigned, Reader.bind_apply] at h
  obtain ⟨⟨w, ws⟩, hw, hv⟩ := Option.bind_eq_some_iff.mp h
  cases hv
  exact Reader.word_rest hw

theorem readUnsigned_eq_none {n : ℕ} {bs : List Byte} (h : bs.length < n) :
    readUnsigned n bs = none := by
  rw [readUnsigned, Reader.bind_apply, Reader.word_eq_none h]
  rfl

@[simp] theorem length_writeByte (v : Word) : (writeByte v).length = 1 := length_putWord 1 _

@[simp] theorem length_writeShort (v : Word) : (writeShort v).length = 2 := length_putWord 2 _

@[simp] theorem length_writeMedium (v : Word) : (writeMedium v).length = 3 := length_putWord 3 _

@[simp] theorem length_writeInt (v : Word) : (writeInt v).length = 4 := length_putWord 4 _

@[simp] theorem length_writeLong (v : Long) : (writeLong v).length = 8 := length_putWord 8 _

@[simp] theorem length_writeBoolean (b : Bool) : (writeBoolean b).length = 1 := rfl

end Fields

end OpenNXT.Buffer
