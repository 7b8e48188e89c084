import OpenNXT.Ext.ByteBuf
import OpenNXT.Net.Buf.GamePacketData

/-! The codecs a packet declaration can name. -/
namespace OpenNXT.Net
open Buffer Buf

/-- What a field of a packet holds. -/
inductive FieldValue
  | string (value : List Char)
  | int (value : Word)
  | long (value : Long)
  deriving DecidableEq

structure DataCodec where
  read : Reader FieldValue
  write : FieldValue → Option (List Byte)

namespace Codecs

/-- Read as an unsigned number. Writing anything but an `Int` is a cast exception. -/
def unsigned (type : DataType) (order : DataOrder) (transformation : DataTransformation) :
    DataCodec where
  read := do
    let value ← GamePacketReader.getUnsigned type order transformation
    return .int (value.setWidth 32)
  write
    | .int value => GamePacketBuilder.put type order transformation (value.signExtend 64)
    | _ => none

/-- Read as a signed number. -/
def signed (type : DataType) (order : DataOrder) (transformation : DataTransformation) :
    DataCodec where
  read := do
    let value ← GamePacketReader.getSigned type order transformation
    return .int (value.setWidth 32)
  write
    | .int value => GamePacketBuilder.put type order transformation (value.signExtend 64)
    | _ => none

def stringCodec : DataCodec where
  read := do
    let value ← Ext.readString
    return .string value
  write
    | .string value => some (Ext.writeString value)
    | _ => none

def uByteCodec : DataCodec := unsigned .byte .big .none

def uByte128Codec : DataCodec := unsigned .byte .big .add

def u128ByteCodec : DataCodec := unsigned .byte .big .subtract

def uByteCCodec : DataCodec := unsigned .byte .big .negate

def sByteCodec : DataCodec := signed .byte .big .none

def sByte128Codec : DataCodec := signed .byte .big .add

def s128ByteCodec : DataCodec := signed .byte .big .subtract

def sByteCCodec : DataCodec := signed .byte .big .negate

def uShortCodec : DataCodec := unsigned .short .big .none

def uShort128Codec : DataCodec := unsigned .short .big .add

def uShortLECodec : DataCodec := unsigned .short .little .none

def uShortLE128Codec : DataCodec := unsigned .short .little .add

def uMediumCodec : DataCodec := unsigned .medium .big .none

def uMediumLECodec : DataCodec := unsigned .medium .little .none

def intCodec : DataCodec := unsigned .int .big .none

def intLECodec : DataCodec := unsigned .int .little .none

def intV1Codec : DataCodec := unsigned .int .middle .none

def intV2Codec : DataCodec := unsigned .int .inversedMiddle .none

def longCodec : DataCodec where
  read := do
    let value ← GamePacketReader.getSigned .long .big .none
    return .long value
  write
    | .long value => GamePacketBuilder.put .long .big .none value
    | _ => none

end Codecs

/-- The names under which the codecs are declared. -/
inductive CodecName
  | string
  | ubyte
  | ubyte128
  | u128byte
  | ubytec
  | sbyte
  | sbyte128
  | s128byte
  | sbytec
  | ushort
  | ushort128
  | ushortle
  | ushortle128
  | umedium
  | umediumle
  | int
  | intle
  | intv1
  | intv2
  | long
  deriving DecidableEq

namespace Codecs

def codecs : CodecName → DataCodec
  | .string => stringCodec
  | .ubyte => uByteCodec
  | .ubyte128 => uByte128Codec
  | .u128byte => u128ByteCodec
  | .ubytec => uByteCCodec
  | .sbyte => sByteCodec
  | .sbyte128 => sByte128Codec
  | .s128byte => s128ByteCodec
  | .sbytec => sByteCCodec
  | .ushort => uShortCodec
  | .ushort128 => uShort128Codec
  | .ushortle => uShortLECodec
  | .ushortle128 => uShortLE128Codec
  | .umedium => uMediumCodec
  | .umediumle => uMediumLECodec
  | .int => intCodec
  | .intle => intLECodec
  | .intv1 => intV1Codec
  | .intv2 => intV2Codec
  | .long => longCodec

end Codecs

/-- The values a codec is meant for. -/
def CodecName.InRange : CodecName → FieldValue → Prop
  | .string, .string s => Windows1252.Plain s
  | .ubyte, .int v | .ubyte128, .int v | .u128byte, .int v | .ubytec, .int v => v.toNat < 2 ^ 8
  | .sbyte, .int v | .sbyte128, .int v | .s128byte, .int v | .sbytec, .int v =>
    -2 ^ 7 ≤ v.toInt ∧ v.toInt < 2 ^ 7
  | .ushort, .int v | .ushort128, .int v | .ushortle, .int v | .ushortle128, .int v =>
    v.toNat < 2 ^ 16
  | .umedium, .int v | .umediumle, .int v => v.toNat < 2 ^ 24
  | .int, .int _ | .intle, .int _ | .intv1, .int _ | .intv2, .int _ => True
  | .long, .long _ => True
  | _, _ => False

structure PacketFieldDeclaration where
  key : String
  dataCodec : CodecName

section RoundTrip
open GamePacketBuilder GamePacketReader Codecs

/-- A codec reads back what it wrote. -/
def DataCodec.RoundTrips (codec : DataCodec) (v : FieldValue) : Prop :=
  ∃ bs, codec.write v = some bs ∧ Reads codec.read bs v

private theorem put_some {type : DataType} {order : DataOrder}
    {transformation : DataTransformation} (h : Supported type order transformation) (v : Long) :
    ∃ bs, put type order transformation v = some bs := by
  unfold put
  rw [if_pos h]
  exact ⟨_, rfl⟩

private theorem setWidth_signExtend (v : Word) {n : ℕ} (hn : n ≤ 32) :
    (v.signExtend 64).setWidth n = v.setWidth n := by
  ext j hj
  rw [BitVec.getElem_setWidth, BitVec.getElem_setWidth, BitVec.getLsbD_signExtend]
  simp [show j < 64 by omega, show j < 32 by omega]

/-- An unsigned value that fits its width, or a whole `Int` in any order. -/
private theorem roundTrips_unsigned {type : DataType} {order : DataOrder}
    {transformation : DataTransformation} {v : Word} (h : Supported type order transformation)
    (hv : (order = .big ∨ order = .little) ∧ type.bytes * 8 ≤ 32 ∧ v.toNat < 2 ^ (type.bytes * 8) ∨
      type = .int) : (unsigned type order transformation).RoundTrips (.int v) := by
  obtain ⟨bs, hbs⟩ := put_some h (v.signExtend 64)
  obtain ⟨w, hread, hlow, hhigh⟩ := reads_get hbs
  have hones : w &&& -1 = w := BitVec.and_allOnes
  have hback : (w &&& -1).setWidth 32 = v := by
    rw [hones]
    rcases hv with ⟨horder, hwidth, hfits⟩ | rfl
    · rw [hhigh horder, setWidth_signExtend v hwidth]
      apply BitVec.eq_of_toNat_eq
      have hlt := v.isLt
      simp only [BitVec.toNat_setWidth, Nat.mod_eq_of_lt hfits]
      omega
    · exact (hlow.trans (setWidth_signExtend v (by decide))).trans (BitVec.setWidth_eq v)
  refine ⟨bs, hbs, ?_⟩
  have hvalue := (hread.map (· &&& -1)).map fun x => FieldValue.int (x.setWidth 32)
  rw [hback] at hvalue
  exact hvalue

/-- The unsigned byte above 127 is the negative one. -/
private theorem toSigned_byte (b : Byte) :
    (toSigned .byte (b.setWidth 64)).setWidth 32 = b.signExtend 32 := by
  revert b
  decide +kernel

private theorem roundTrips_signedByte {transformation : DataTransformation} {v : Word}
    (hv : -2 ^ 7 ≤ v.toInt ∧ v.toInt < 2 ^ 7) :
    (signed .byte .big transformation).RoundTrips (.int v) := by
  have hs : Supported .byte .big transformation := by
    rintro (h | h) <;> cases h
  obtain ⟨bs, hbs⟩ := put_some hs (v.signExtend 64)
  obtain ⟨w, hread, -, hhigh⟩ := reads_get hbs
  have hw : w = (v.setWidth 8).setWidth 64 := by
    rw [hhigh (Or.inl rfl)]
    change ((v.signExtend 64).setWidth 8).setWidth 64 = _
    rw [setWidth_signExtend v (by omega)]
  have hback : (toSigned .byte w).setWidth 32 = v := by
    rw [hw, toSigned_byte]
    apply BitVec.eq_of_toInt_eq
    rw [BitVec.toInt_signExtend_of_le (by omega), BitVec.toInt_setWidth, Int.bmod_def]
    have hcond := BitVec.toInt_eq_toNat_cond v
    split_ifs at hcond <;> omega
  refine ⟨bs, hbs, ?_⟩
  have hvalue := (hread.map (toSigned .byte)).map fun x => FieldValue.int (x.setWidth 32)
  rw [hback] at hvalue
  exact hvalue

private theorem roundTrips_string {s : List Char} (hs : Windows1252.Plain s) :
    stringCodec.RoundTrips (.string s) := by
  have hread := (Ext.reads_string_plain hs).map FieldValue.string
  exact ⟨Ext.writeString s, rfl, hread⟩

private theorem roundTrips_long (v : Long) : longCodec.RoundTrips (.long v) := by
  have hs : Supported .long .big .none := by
    rintro (h | h) <;> cases h
  obtain ⟨bs, hbs⟩ := put_some hs v
  obtain ⟨w, hread, -, hhigh⟩ := reads_get hbs
  have hw : w = v := by
    rw [hhigh (Or.inl rfl)]
    exact (BitVec.setWidth_eq _).trans (BitVec.setWidth_eq v)
  rw [hw] at hread
  have hsigned : toSigned .long v = v := if_neg fun h => h.1 rfl
  have hvalue := (hread.map (toSigned .long)).map FieldValue.long
  rw [hsigned] at hvalue
  exact ⟨bs, hbs, hvalue⟩

/-- Every declared codec reads back the values it is meant for. -/
theorem roundTrips_codecs {name : CodecName} {v : FieldValue} (h : name.InRange v) :
    (codecs name).RoundTrips v := by
  cases v with
  | string s =>
    cases name with
    | string => exact roundTrips_string h
    | _ => exact h.elim
  | long v =>
    cases name with
    | long => exact roundTrips_long v
    | _ => exact h.elim
  | int v =>
    cases name with
    | string | long => exact h.elim
    | sbyte | sbyte128 | s128byte | sbytec => exact roundTrips_signedByte h
    | ubyte | ubyte128 | u128byte | ubytec | ushort | ushort128 | umedium =>
      exact roundTrips_unsigned (by decide) (Or.inl ⟨Or.inl rfl, by decide, h⟩)
    | ushortle | ushortle128 | umediumle =>
      exact roundTrips_unsigned (by decide) (Or.inl ⟨Or.inr rfl, by decide, h⟩)
    | int | intle | intv1 | intv2 => exact roundTrips_unsigned (by decide) (Or.inr rfl)

end RoundTrip

end OpenNXT.Net
