import OpenNXT.Ext.ByteBuf
import OpenNXT.Net.Buf.NumberReads

/-! Strings, smart values and plain integers in game packets. -/
namespace OpenNXT.Net.Buf
open Buffer Ext

def GamePacketBuilder.putString (str : List Char) : List Byte := writeString str

def GamePacketReader.getString : Reader (List Char) := readString

/-- One byte below 128, or two with the top bit set. -/
def GamePacketBuilder.putSmart (value : Word) : List Byte :=
  if 128 ≤ value.toInt then putShort ((value + 32768).setWidth 16) else [value.setWidth 8]

/-- `put(DataType.INT, value)` with an `Int` for the value. -/
def GamePacketBuilder.putIntValue (value : Word) : Option (List Byte) :=
  put .int .big .none (value.signExtend 64)

/-- `getSigned(DataType.INT).toInt()` -/
def GamePacketReader.getInt : Reader Word := do
  let value ← getSigned .int .big .none
  return value.setWidth 32

open GamePacketBuilder GamePacketReader

/-- The sign that a signed read loses is not part of an `Int`. -/
theorem reads_getInt (v : Word) : ∃ bs, putIntValue v = some bs ∧ Reads getInt bs v := by
  obtain ⟨bs, hbs⟩ : ∃ bs, putIntValue v = some bs := ⟨_, rfl⟩
  refine ⟨bs, hbs, ?_⟩
  have hread := ((reads_gotten hbs).map (toSigned .int)).map fun value : Long => value.setWidth 32
  have hgotten : gotten .int .big (v.signExtend 64) = v.setWidth 64 := by
    rw [gotten, if_neg (by decide)]
    change ((v.signExtend 64).setWidth 32).setWidth 64 = v.setWidth 64
    apply congrArg (BitVec.setWidth 64)
    apply BitVec.eq_of_getLsbD_eq
    intro j hj
    rw [BitVec.getLsbD_setWidth, BitVec.getLsbD_signExtend, if_pos hj]
    simp [hj, show j < 64 by omega]
  have hcorrection : ((signedMax .int + 1) * 2).signExtend 64 = 0#64 := by decide
  have hlow : (toSigned .int (v.setWidth 64)).setWidth 32 = v := by
    rw [toSigned, hcorrection, BitVec.sub_zero, ite_self, BitVec.setWidth_setWidth_of_le _ (by omega),
      BitVec.setWidth_eq]
  rw [hgotten, hlow] at hread
  exact hread

theorem reads_getString {s : List Char} (h : Windows1252.Plain s) :
    Reads GamePacketReader.getString (GamePacketBuilder.putString s) s := reads_string_plain h

/-- The reader takes the width from the top bit of the first byte. -/
theorem reads_smart {v : Word} (hlow : 0 ≤ v.toInt) (hhigh : v.toInt ≤ 32767) :
    Reads readSmartShort (putSmart v) v.toNat := by
  have hnat : v.toInt.toNat = v.toNat := by
    rw [BitVec.toInt_eq_toNat_cond] at *
    split_ifs at * <;> omega
  have hwrite : writeSmartShort v.toInt = some (putSmart v) := by
    rw [writeSmartShort, putSmart]
    by_cases hwide : 128 ≤ v.toInt
    · rw [if_neg (by omega), if_pos ⟨hlow, hhigh⟩, if_pos hwide]
      have hsum : BitVec.ofInt 16 (v.toInt + 32768) = (v + 32768).setWidth 16 := by
        apply BitVec.eq_of_toNat_eq
        rw [BitVec.toNat_ofInt, BitVec.toNat_setWidth, BitVec.toNat_add]
        change _ = (v.toNat + 32768) % 2 ^ 32 % 2 ^ 16
        omega
      rw [hsum]
    · rw [if_pos ⟨hlow, by omega⟩, if_neg hwide]
      have hbyte : BitVec.ofInt 8 v.toInt = v.setWidth 8 := by
        apply BitVec.eq_of_toNat_eq
        rw [BitVec.toNat_ofInt, BitVec.toNat_setWidth]
        omega
      rw [hbyte]
  have hread := reads_smartShort hwrite
  rwa [hnat] at hread

end OpenNXT.Net.Buf
