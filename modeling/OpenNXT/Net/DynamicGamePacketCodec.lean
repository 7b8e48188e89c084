import OpenNXT.Data.SortedMap
import OpenNXT.Net.PacketFieldDeclaration
import Mathlib.Data.String.Basic

/-! Packets whose fields are declared: the fields of a map written one after the other, and read back
into a map. -/
namespace OpenNXT.Net
open Buffer Data

abbrev FieldMap := SortedMap String FieldValue

namespace DynamicGamePacketCodec

/-- A missing key is an exception. -/
def encodeField (map : FieldMap) (field : PacketFieldDeclaration) : Option (List Byte) := do
  let value ← map.get? field.key
  (Codecs.codecs field.dataCodec).write value

def encode (fields : List PacketFieldDeclaration) (map : FieldMap) : Option (List Byte) := do
  let written ← fields.mapM (encodeField map)
  return written.flatten

def readField (map : FieldMap) (field : PacketFieldDeclaration) : Reader FieldMap := do
  let value ← (Codecs.codecs field.dataCodec).read
  return map.insert field.key value

def readFieldMap (fields : List PacketFieldDeclaration) : Reader FieldMap :=
  fields.foldlM readField SortedMap.empty

end DynamicGamePacketCodec

/-- The map assigns a value in its codec's range to each declared key, and to no other. -/
structure FieldMap.Matches (map : FieldMap) (fields : List PacketFieldDeclaration) : Prop where
  declared : ∀ key ∈ map.keys, ∃ field ∈ fields, field.key = key
  inRange : ∀ field ∈ fields, ∃ value, map.get? field.key = some value ∧
    field.dataCodec.InRange value

section RoundTrip
open DynamicGamePacketCodec

private theorem encodeField_reads {map : FieldMap} {field : PacketFieldDeclaration}
    {value : FieldValue} (hvalue : map.get? field.key = some value)
    (hrange : field.dataCodec.InRange value) (read : FieldMap) :
    ∃ bs, encodeField map field = some bs ∧
      Reads (readField read field) bs (read.insert field.key value) := by
  obtain ⟨bs, hwrite, hread⟩ := roundTrips_codecs hrange
  refine ⟨bs, ?_, ?_⟩
  · rw [encodeField, hvalue]
    exact hwrite
  · exact hread.map fun v => read.insert field.key v

/-- Reading the fields one after the other binds every declared key to the value of the map, and
keeps what was read before. -/
private theorem encodeFields_reads {map : FieldMap} {fields : List PacketFieldDeclaration}
    (h : ∀ field ∈ fields, ∃ value, map.get? field.key = some value ∧
      field.dataCodec.InRange value) (read : FieldMap) :
    ∃ written result, fields.mapM (encodeField map) = some written ∧
      Reads (fields.foldlM readField read) written.flatten result ∧
      ∀ key, result.get? key =
        if ∃ field ∈ fields, field.key = key then map.get? key else read.get? key := by
  induction fields generalizing read with
  | nil => exact ⟨[], read, rfl, Reads.pure read, fun key => by simp⟩
  | cons field fields ih =>
    obtain ⟨value, hvalue, hrange⟩ := h field List.mem_cons_self
    obtain ⟨bs, hbs, hread⟩ := encodeField_reads hvalue hrange read
    obtain ⟨written, result, hwritten, hreads, hresult⟩ :=
      ih (fun f hf => h f (List.mem_cons_of_mem _ hf)) (read.insert field.key value)
    refine ⟨bs :: written, result, ?_, ?_, fun key => ?_⟩
    · rw [List.mapM_cons, hbs, hwritten]
      rfl
    · rw [List.foldlM_cons, List.flatten_cons]
      exact Reads.bind hread hreads
    · rw [hresult, SortedMap.get?_insert]
      by_cases hrest : ∃ f ∈ fields, f.key = key
      · have hany : ∃ f ∈ field :: fields, f.key = key :=
          hrest.imp fun f hf => ⟨List.mem_cons_of_mem _ hf.1, hf.2⟩
        rw [if_pos hrest, if_pos hany]
      · rw [if_neg hrest]
        by_cases hkey : key = field.key
        · have hany : ∃ f ∈ field :: fields, f.key = key := ⟨field, List.mem_cons_self, hkey.symm⟩
          rw [if_pos hkey, if_pos hany, hkey, hvalue]
        · have hnone : ¬ ∃ f ∈ field :: fields, f.key = key := by
            rintro ⟨f, hf, hfkey⟩
            rcases List.mem_cons.mp hf with rfl | hf
            · exact hkey hfkey.symm
            · exact hrest ⟨f, hf, hfkey⟩
          rw [if_neg hkey, if_neg hnone]

/-- The fields written are read back into the same map, and nothing else is consumed. -/
theorem readFieldMap_encode {fields : List PacketFieldDeclaration} {map : FieldMap}
    (h : map.Matches fields) :
    ∃ bs, encode fields map = some bs ∧ Reads (readFieldMap fields) bs map := by
  obtain ⟨written, result, hwritten, hread, hresult⟩ := encodeFields_reads h.inRange SortedMap.empty
  have hsame : result = map := by
    apply SortedMap.ext_get?
    intro key
    rw [hresult]
    by_cases hdecl : ∃ field ∈ fields, field.key = key
    · rw [if_pos hdecl]
    · have hnone : map.get? key = none := by
        rw [SortedMap.get?_eq_none]
        exact fun hkey => hdecl (h.declared key hkey)
      rw [if_neg hdecl, hnone, SortedMap.get?_empty]
  rw [hsame] at hread
  refine ⟨written.flatten, ?_, hread⟩
  rw [encode, hwritten]
  rfl

/-- A negated byte and a string behind it. -/
theorem readFieldMap_encode_two :
    ∃ bs, encode [⟨"level", .sbytec⟩, ⟨"name", .string⟩]
        ((SortedMap.empty.insert "level" (.int (-3))).insert "name" (.string ['a', '€'])) = some bs ∧
      Reads (readFieldMap [⟨"level", .sbytec⟩, ⟨"name", .string⟩]) bs
        ((SortedMap.empty.insert "level" (.int (-3))).insert "name" (.string ['a', '€'])) := by
  apply readFieldMap_encode
  refine ⟨fun key hkey => ?_, fun field hfield => ?_⟩
  · obtain ⟨value, hvalue⟩ := SortedMap.mem_keys.mp hkey
    rw [SortedMap.get?_insert, SortedMap.get?_insert] at hvalue
    split_ifs at hvalue with hname hlevel
    · exact ⟨⟨"name", .string⟩, by simp, hname.symm⟩
    · exact ⟨⟨"level", .sbytec⟩, by simp, hlevel.symm⟩
    · cases hvalue
  · rcases List.mem_pair.mp hfield with rfl | rfl
    · refine ⟨.int (-3), by simp, ?_⟩
      show -2 ^ 7 ≤ (-3 : Word).toInt ∧ (-3 : Word).toInt < 2 ^ 7
      decide
    · refine ⟨.string ['a', '€'], by simp, ?_⟩
      intro c hc
      rcases List.mem_pair.mp hc with rfl | rfl
      · exact ⟨Windows1252.encodable_of_decodeByte 0x61 (by decide) (by decide), by decide⟩
      · exact ⟨Windows1252.encodable_of_decodeByte 0x80 (by decide) (by decide), by decide⟩

end RoundTrip

end OpenNXT.Net
