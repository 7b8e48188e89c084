import OpenNXT.Ext.ByteBuf
import OpenNXT.Model.Entity.PlayerEntity
import OpenNXT.Net.Buf.ByteArrays
import OpenNXT.Net.Login.LoginServerDecoder

/-! What a player looks like, as others are sent it. -/
namespace OpenNXT.Model
open Buffer Net.Buf

inductive Gender
  | male | female
  deriving DecidableEq

/-- What the appearance of a player is made of; the parts of its body and its colours are arrays of
fixed size. -/
structure PlayerAppearance where
  gender : Gender := .male
  showSkillLevel : Bool := false
  idkit : Vector Word 7 := #v[3, 14, 18, 26, 34, 38, 42]
  colours : Vector Word 10 := #v[3, 16, 16, 0, 0, 0, 0, 0, 0, 0]

namespace PlayerAppearance

/-- `put` without an order or a transformation, which are then plain. -/
def put (type : DataType) (value : Word) : List Byte :=
  (GamePacketBuilder.put type .big .none (value.signExtend 64)).getD []

def flags (a : PlayerAppearance) : Word :=
  (if a.gender = .female then 0x1 else 0) ||| (if a.showSkillLevel then 0x4 else 0)

/-- The part of the body that a slot shows. -/
def getLookIndex : ℕ → Option (Fin 7)
  | 4 => some 2
  | 6 => some 3
  | 7 => some 5
  | 8 => some 0
  | 9 => some 4
  | 10 => some 6
  | 11 => some 1
  | _ => none

def shows (a : PlayerAppearance) (lookIndex : Fin 7) : Bool := (0 : Word).slt (a.idkit.get lookIndex)

def putSlot (a : PlayerAppearance) (index : ℕ) : List Byte :=
  match getLookIndex index with
  | some lookIndex =>
    if a.shows lookIndex then put .short (0x100 + a.idkit.get lookIndex) else put .byte 0
  | none => put .byte 0

/-- The slots that are not worn, in order. -/
def slots (wearpos : List Word) : List ℕ :=
  (List.range wearpos.length).filter fun index => wearpos[index]? = some 0

def appendAppearance (a : PlayerAppearance) (wearpos : List Word) : List Byte :=
  (slots wearpos).flatMap a.putSlot ++ put .short 0 ++ a.colours.toList.flatMap (put .byte) ++
    (List.replicate 10 (put .byte 0)).flatten ++ put .short 2699

/-- The name is that of the player who controls the entity, if there is one. -/
def modelData (a : PlayerAppearance) (wearpos : List Word) (name : Option (List Char)) :
    List Byte :=
  put .byte a.flags ++ put .byte 0 ++ a.appendAppearance wearpos ++
    Ext.writeString (name.getD ['n', 'u', 'l', 'l']) ++ put .byte 3 ++
    (if a.showSkillLevel then put .short 1000 else put .byte 0 ++ put .byte (-1)) ++ put .byte 0

def refresh (md5 : List Byte → List Byte) (a : PlayerAppearance) (wearpos : List Word)
    (name : Option (List Char)) : PlayerModel where
  data := a.modelData wearpos name
  hash := md5 (a.modelData wearpos name)

/-- How many bytes a slot comes to. -/
def slotSize (a : PlayerAppearance) (index : ℕ) : ℕ :=
  match getLookIndex index with
  | some lookIndex => if a.shows lookIndex then 2 else 1
  | none => 1

section Sizes

@[simp] theorem length_put (type : DataType) (value : Word) :
    (put type value).length = type.bytes := by
  have hsupported : Supported type .big .none := by
    rintro (h | h) <;> cases h
  rw [put, GamePacketBuilder.put, if_pos hsupported, Option.getD_some, List.length_map, positions,
    List.length_reverse, List.length_range]

theorem length_putSlot (a : PlayerAppearance) (index : ℕ) :
    (a.putSlot index).length = a.slotSize index := by
  rw [putSlot, slotSize]
  cases getLookIndex index with
  | none => exact length_put .byte 0
  | some lookIndex =>
    dsimp only
    split_ifs
    · exact length_put .short _
    · exact length_put .byte 0

theorem length_modelData (a : PlayerAppearance) (wearpos : List Word) (name : Option (List Char)) :
    (a.modelData wearpos name).length =
      31 + ((slots wearpos).map a.slotSize).sum + (name.getD ['n', 'u', 'l', 'l']).length := by
  have hslots : ((slots wearpos).flatMap a.putSlot).length =
      ((slots wearpos).map a.slotSize).sum := by
    rw [List.length_flatMap]
    exact congrArg List.sum (List.map_congr_left fun index _ => a.length_putSlot index)
  have hcolours : (a.colours.toList.flatMap (put .byte)).length = 10 := by
    rw [List.length_flatMap, List.map_congr_left (fun v _ => length_put .byte v), List.map_const',
      List.sum_replicate, Vector.length_toList]
    rfl
  have hskill : (if a.showSkillLevel then put .short 1000
      else put .byte 0 ++ put .byte (-1)).length = 2 := by
    split_ifs <;> simp [DataType.bytes]
  simp only [modelData, appendAppearance, List.length_append, hslots, hcolours, hskill, length_put,
    Ext.writeString, Windows1252.length_encode, List.length_flatten, List.map_replicate,
    List.sum_replicate, DataType.bytes, List.length_singleton, smul_eq_mul]
  omega

end Sizes

end PlayerAppearance

/-- The block holds the data backwards, as many bytes of it as the client is told. -/
def LengthAgrees (model : PlayerModel) : Prop :=
  ∃ length bytes, UpdateBlock.appearance.encode model = length :: bytes ∧
    bytes.length = (-length).toNat ∧ bytes.reverse = model.data

section Blocks
open PlayerAppearance

/-- The block is what the builder puts. -/
theorem encode_appearance (model : PlayerModel) :
    (do
      let length ← GamePacketBuilder.put .byte .big .negate (BitVec.ofNat 64 model.data.length)
      let bytes ← ByteAccess.putBytesReverse .none model.data
      return length ++ bytes) = some (UpdateBlock.appearance.encode model) := by
  have hlength : (-BitVec.ofNat 64 model.data.length).setWidth 8 =
      -BitVec.ofNat 8 model.data.length := by
    rw [BitVec.setWidth_neg_of_le (by omega), BitVec.setWidth_ofNat_of_le (by omega)]
  have hput : GamePacketBuilder.put .byte .big .negate (BitVec.ofNat 64 model.data.length) =
      some [-BitVec.ofNat 8 model.data.length] := by
    rw [← hlength]
    rfl
  rw [hput]
  rfl

theorem lengthAgrees_iff_length (model : PlayerModel) :
    LengthAgrees model ↔ model.data.length ≤ 255 := by
  have hback : (- -BitVec.ofNat 8 model.data.length).toNat = model.data.length % 256 := by
    rw [BitVec.neg_neg, BitVec.toNat_ofNat]
  constructor
  · rintro ⟨length, bytes, hencode, hlength, -⟩
    cases hencode
    rw [hback, List.length_reverse] at hlength
    omega
  · intro hle
    refine ⟨_, _, rfl, ?_, List.reverse_reverse _⟩
    rw [hback, List.length_reverse]
    omega

/-- The length byte is right just where the data has at most 255 bytes: a name is as long as its
player likes. -/
theorem lengthAgrees_refresh_iff (md5 : List Byte → List Byte) (a : PlayerAppearance)
    (wearpos : List Word) (name : Option (List Char)) :
    LengthAgrees (a.refresh md5 wearpos name) ↔
      ((slots wearpos).map a.slotSize).sum + (name.getD ['n', 'u', 'l', 'l']).length ≤ 224 := by
  have hlength := a.length_modelData wearpos name
  rw [lengthAgrees_iff_length, refresh]
  dsimp only
  omega

/-- A name has no length that the login would not take. -/
theorem readName_writeString {name : List Char} (h : Windows1252.Plain name) :
    Net.LoginServerDecoder.readName (0 :: Ext.writeString name) = some (name, []) := by
  have hread := (Reads.bytes [0]).bind (f := fun _ => Ext.readString) (Ext.reads_string_plain h)
  have hname := hread []
  rwa [List.append_nil] at hname

/-- A name of 250 letters. -/
theorem not_lengthAgrees_letters :
    Net.LoginServerDecoder.readName (0 :: Ext.writeString (List.replicate 250 'a')) =
        some (List.replicate 250 'a', []) ∧
      ¬ LengthAgrees (PlayerAppearance.refresh id {} (List.replicate 12 0)
        (some (List.replicate 250 'a'))) := by
  constructor
  · apply readName_writeString
    intro c hc
    rw [(List.mem_replicate.mp hc).2]
    exact ⟨Windows1252.encodable_of_ascii (by decide), by decide⟩
  · rw [lengthAgrees_iff_length, refresh]
    dsimp only
    rw [length_modelData, Option.getD_some, List.length_replicate]
    omega

end Blocks

end OpenNXT.Model
