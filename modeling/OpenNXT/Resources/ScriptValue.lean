import OpenNXT.Ext.ByteBuffer
import OpenNXT.Resources.ScriptVarType

/-! The types and the values that definitions hold, as they are written. -/
namespace OpenNXT.Resources
open Buffer Ext Util

/-- What a map of a definition holds. -/
inductive ScriptValue
  | int (v : Word)
  | string (s : List Char)
  deriving DecidableEq

/-- A type by its legacy character. -/
def readLegacyType : Reader ScriptVarType := do
  let b ← Reader.byte
  let c ← Reader.ofOption (TextUtils.cp1252ToChar b)
  Reader.ofOption (ScriptVarType.getByChar c)

/-- A type by its id; an id that there is not is an exception. -/
def readType : Reader ScriptVarType := do
  let type ← getSmallSmartInt
  Reader.ofOption (ScriptVarType.getById type)

/-- The id of a type, in one byte or in two. -/
def typeBytes (t : ScriptVarType) : List Byte := (putSmallSmartInt t.id).getD []

theorem putSmallSmartInt_id (t : ScriptVarType) : putSmallSmartInt t.id = some (typeBytes t) := by
  have hlt := t.id_lt
  have hsome : (putSmallSmartInt t.id).isSome := by
    rw [putSmallSmartInt, BitVec.toInt_eq_toNat_of_lt (by omega)]
    split_ifs <;> first | rfl | omega
  obtain ⟨bytes, hbytes⟩ := Option.isSome_iff_exists.mp hsome
  rw [typeBytes, hbytes, Option.getD_some]

theorem reads_type (t : ScriptVarType) : Reads readType (typeBytes t) t := by
  have hid := Reads.ofOption (ScriptVarType.getById_eq_some.mpr (rfl : t.id = t.id))
  have hread : Reads readType (typeBytes t ++ []) t :=
    (reads_smallSmartInt (putSmallSmartInt_id t)).bind hid
  rwa [List.append_nil] at hread

theorem length_typeBytes (t : ScriptVarType) :
    (typeBytes t).length = if t.id.toNat < 128 then 1 else 2 := by
  have hlt := t.id_lt
  rw [typeBytes, putSmallSmartInt, BitVec.toInt_eq_toNat_of_lt (by omega)]
  split_ifs <;> first | rfl | omega

def readValue (strings : Bool) : Reader ScriptValue :=
  if strings then do let s ← getString; return .string s
  else do let v ← Reader.int; return .int v

namespace ScriptValue

def isString : ScriptValue → Bool
  | int _ => false
  | string _ => true

/-- Strings have to be ones that can be written. -/
def Plain : ScriptValue → Prop
  | int _ => True
  | string s => Windows1252.Plain s

def bytes : ScriptValue → List Byte
  | int v => putInt v
  | string s => putString s

theorem reads_bytes {v : ScriptValue} (h : v.Plain) : Reads (readValue v.isString) v.bytes v := by
  cases v with
  | int v => exact (Reads.word 4 v).map ScriptValue.int
  | string s => exact (reads_getString h).map ScriptValue.string

end ScriptValue

end OpenNXT.Resources
