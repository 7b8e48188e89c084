import OpenNXT.Ext.ByteBuf

/-! The CRC-32 of a buffer, and the strings and small integers in it. -/
namespace OpenNXT.Ext
open Buffer

/-- One bit of a byte; the polynomial is reversed. -/
def crcShift (crc : Word) : Word :=
  if crc.getLsbD 0 then (crc >>> 1) ^^^ 0xEDB88320 else crc >>> 1

def crcUpdate (crc : Word) (b : Byte) : Word := crcShift^[8] (crc ^^^ b.setWidth 32)

/-- `CRC32`, which starts from ones and is inverted at the end. -/
def getCrc32 (bytes : List Byte) : Word := ~~~bytes.foldl crcUpdate 0xFFFFFFFF

example : getCrc32 [0x31, 0x32, 0x33, 0x34, 0x35, 0x36, 0x37, 0x38, 0x39] = 0xCBF43926 := by
  decide +kernel

/-- `none` is an underflow, a string without its zero byte. -/
def getString : Reader (List Char) := do
  let bytes ← readUntilZero
  return Windows1252.decode bytes

def putString (string : List Char) : List Byte := Windows1252.encode string ++ [0]

/-- Seven bits in one byte, or fifteen in two. -/
def getSmallSmartInt : Reader Word
  | [] => none
  | b :: bs =>
    if b.toNat < 128 then (do let v ← Reader.byte; return v.setWidth 32 : Reader Word) (b :: bs)
    else (do let v ← Reader.short; return v.setWidth 32 - 0x8000 : Reader Word) (b :: bs)

/-- `none` is an exception, a value out of range. -/
def putSmallSmartInt (value : Word) : Option (List Byte) :=
  if 0 ≤ value.toInt ∧ value.toInt ≤ 127 then some [value.setWidth 8]
  else if 0 ≤ value.toInt ∧ value.toInt ≤ 32767 then some (putShort ((value + 32768).setWidth 16))
  else none

/-- Three bytes, as an `Int`. -/
def getMedium : Reader Word := do
  let v ← Reader.word 3
  return v.setWidth 32

def putMedium (value : Word) : List Byte := putWord 3 (value.setWidth 24)

section Reads

theorem reads_getString {s : List Char} (h : Windows1252.Plain s) :
    Reads getString (putString s) s := reads_string_plain h

theorem reads_smallSmartInt {v : Word} {bs : List Byte} (h : putSmallSmartInt v = some bs) :
    Reads getSmallSmartInt bs v := by
  intro rest
  have hv := v.isLt
  have hsign : v.toInt = if v.toNat < 2 ^ 31 then (v.toNat : ℤ) else v.toNat - 2 ^ 32 := by
    rw [BitVec.toInt_eq_toNat_cond]
    split_ifs <;> omega
  unfold putSmallSmartInt at h
  split_ifs at h with hsmall hlarge
  · cases h
    have hback : (v.setWidth 8).setWidth 32 = v := by
      apply BitVec.eq_of_toNat_eq
      rw [BitVec.toNat_setWidth, BitVec.toNat_setWidth]
      split_ifs at hsign <;> omega
    have hread := (Reads.byte (v.setWidth 8)).map (fun w => w.setWidth 32) rest
    rw [hback] at hread
    change getSmallSmartInt (v.setWidth 8 :: rest) = _
    rw [getSmallSmartInt, if_pos]
    · exact hread
    · rw [BitVec.toNat_setWidth]
      split_ifs at hsign <;> omega
  · cases h
    have hnat : v.toNat ≤ 32767 := by split_ifs at hsign <;> omega
    have hput : ((v + 32768).setWidth 16).toNat = v.toNat + 32768 := by
      rw [BitVec.toNat_setWidth, BitVec.toNat_add, show (32768 : Word).toNat = 32768 from rfl]
      omega
    have hback : ((v + 32768).setWidth 16).setWidth 32 - 0x8000 = v := by
      apply BitVec.eq_of_toNat_eq
      rw [BitVec.toNat_sub, BitVec.toNat_setWidth, hput, show (0x8000 : Word).toNat = 32768 from rfl]
      omega
    have hbytes : putWord 2 ((v + 32768).setWidth 16) =
        [BitVec.ofNat 8 ((v.toNat + 32768) / 256), BitVec.ofNat 8 (v.toNat + 32768)] := by
      simp only [putWord, hput, toBytes, pow_one, pow_zero, Nat.div_one]
    have hhead : ¬ (BitVec.ofNat 8 ((v.toNat + 32768) / 256)).toNat < 128 := by
      rw [BitVec.toNat_ofNat]
      omega
    have hread := (Reads.word 2 ((v + 32768).setWidth 16)).map (fun w => w.setWidth 32 - 0x8000) rest
    rw [hback, hbytes] at hread
    change getSmallSmartInt (putWord 2 ((v + 32768).setWidth 16) ++ rest) = _
    rw [hbytes, List.cons_append, getSmallSmartInt, if_neg hhead]
    exact hread

theorem reads_medium {v : Word} (h : v.toNat < 2 ^ 24) : Reads getMedium (putMedium v) v := by
  have hback : (v.setWidth 24).setWidth 32 = v := by
    apply BitVec.eq_of_toNat_eq
    rw [BitVec.toNat_setWidth, BitVec.toNat_setWidth]
    omega
  have hread := (Reads.word 3 (v.setWidth 24)).map (fun w => w.setWidth 32)
  rwa [hback] at hread

end Reads

end OpenNXT.Ext
