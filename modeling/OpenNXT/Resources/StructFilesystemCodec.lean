import OpenNXT.Buffer.OpcodeStream
import OpenNXT.Resources.DefinitionList
import OpenNXT.Resources.ScriptValue

/-! Structs in index 22, 32 to an archive. -/
namespace OpenNXT.Resources
open Buffer Data Ext Filesystem
open Filesystem.ReferenceTable (storedOnly)

structure StructDefinition where
  values : SortedMap ℤ ScriptValue := .empty

namespace StructFilesystemCodec

def readEntries : ℕ → SortedMap ℤ ScriptValue → Reader (SortedMap ℤ ScriptValue)
  | 0, values => return values
  | n + 1, values => do
    let tag ← Reader.byte
    let key ← getMedium
    let value ← readValue (tag = 1)
    readEntries n (values.insert key.toInt value)

/-- The size is a byte with a sign; one below zero is no entry. -/
def decodeStep (opcode : Byte) (d : StructDefinition) : Reader StructDefinition :=
  match opcode.toNat with
  | 249 => do
    let size ← Reader.byte
    let values ← readEntries size.toInt.toNat d.values
    return { d with values := values }
  | _ => Reader.fail

def decode (data : List Byte) : Option StructDefinition := readOpcodes decodeStep data.length {} data

def putEntry (e : ℤ × ScriptValue) : List (Option (List Byte)) :=
  match e.2 with
  | .string s => [some [1], some (putMedium (BitVec.ofInt 32 e.1)), some (putString s)]
  | .int v => [some [0], some (putMedium (BitVec.ofInt 32 e.1)), some (putInt v)]

/-- What is put, in order; `order` is the one in which the map is walked. -/
def puts (data : StructDefinition) (order : List (ℤ × ScriptValue)) : List (Option (List Byte)) :=
  [some [249], some [BitVec.ofNat 8 data.values.size]] ++ order.flatMap putEntry ++ [some [0]]

section
variable (codecs : Codecs) (read : ℤ → Option (List Byte))

def load (t : ReferenceTable) (id : Word) :
    ReferenceTable × Except ResourceError (Option StructDefinition) :=
  loadDefinition codecs read decode t (ResourceType.getArchive id 5) (ResourceType.getFile id 5)

def getMaxId (t : ReferenceTable) : Except ResourceError Word :=
  Resources.getMaxId (.error .nullArchive) 32 t

/-- `0 until getMaxId + 1`, whose end is an `Int`. -/
def list (t : ReferenceTable) :
    ReferenceTable × Except ResourceError (SortedMap ℤ StructDefinition) :=
  listBelow (load codecs read) ((getMaxId t).map fun max => (max + 1).toInt.toNat) t

/-- The file is one of eight bits of the id, not of five. -/
def store (t : ReferenceTable) (id : Word) (data : StructDefinition)
    (order : List (ℤ × ScriptValue)) (rounds : ℕ) :
    Option (ReferenceTable × Except ResourceError Unit) :=
  storeDefinition codecs read t (ResourceType.getArchive id 5) (ResourceType.getFile id 8)
    (putGrowing (puts data order) rounds 4096)

end

/-- Up to 255 entries with keys of three bytes, and strings that can be written. -/
structure Storable (d : StructDefinition) : Prop where
  keys : ∀ k ∈ d.values.keys, 0 ≤ k ∧ k < 2 ^ 24
  plain : ∀ v ∈ d.values.values, v.Plain
  size : d.values.size ≤ 255

section Entries

def entryBytes (e : ℤ × ScriptValue) : List Byte :=
  (if e.2.isString then 1 else 0) :: (putMedium (BitVec.ofInt 32 e.1) ++ e.2.bytes)

theorem written_putEntry (e : ℤ × ScriptValue) : Written (putEntry e) (entryBytes e) := by
  obtain ⟨k, v⟩ := e
  cases v with
  | string s => exact ⟨[[1], putMedium (BitVec.ofInt 32 k), putString s], rfl, by simp [entryBytes,
      ScriptValue.isString, ScriptValue.bytes]⟩
  | int v => exact ⟨[[0], putMedium (BitVec.ofInt 32 k), putInt v], rfl, by simp [entryBytes,
      ScriptValue.isString, ScriptValue.bytes]⟩

/-- What an entry of the map has to be for its layout. -/
def Fits (e : ℤ × ScriptValue) : Prop := (0 ≤ e.1 ∧ e.1 < 2 ^ 24) ∧ e.2.Plain

theorem reads_entry {e : ℤ × ScriptValue} (h : Fits e) {n : ℕ} {values m : SortedMap ℤ ScriptValue}
    {bs : List Byte} (hrest : Reads (readEntries n (values.insert e.1 e.2)) bs m) :
    Reads (readEntries (n + 1) values) (entryBytes e ++ bs) m := by
  obtain ⟨k, v⟩ := e
  obtain ⟨⟨hzero, hlt⟩, hplain⟩ := h
  dsimp only at hzero hlt
  have hnat : (BitVec.ofInt 32 k).toNat = k.toNat := by
    rw [BitVec.toNat_ofInt]
    omega
  have hkey : (BitVec.ofInt 32 k).toInt = k := by
    rw [BitVec.toInt_eq_toNat_of_lt (by omega), hnat]
    omega
  have htag : decide ((if v.isString then 1 else 0 : Byte) = 1) = v.isString := by
    cases v <;> rfl
  have hvalue : Reads (do
      let value ← readValue ((if v.isString then 1 else 0 : Byte) = 1)
      readEntries n (values.insert (BitVec.ofInt 32 k).toInt value)) (v.bytes ++ bs) m := by
    rw [hkey, htag]
    exact (ScriptValue.reads_bytes hplain).bind hrest
  have hkey24 : (BitVec.ofInt 32 k).toNat < 2 ^ 24 := by omega
  rw [entryBytes, List.cons_append, List.append_assoc]
  refine (Reads.byte (if v.isString then 1 else 0)).bind ?_
  refine (reads_medium hkey24).bind ?_
  exact hvalue

theorem reads_entries {es : List (ℤ × ScriptValue)} (h : ∀ e ∈ es, Fits e)
    (values : SortedMap ℤ ScriptValue) : Reads (readEntries es.length values)
      (es.flatMap entryBytes) (es.foldl (fun m e => m.insert e.1 e.2) values) := by
  induction es generalizing values with
  | nil => exact Reads.pure values
  | cons e es ih =>
    rw [List.flatMap_cons, List.foldl_cons]
    exact reads_entry (h e List.mem_cons_self)
      (ih (fun d hd => h d (List.mem_cons_of_mem e hd)) _)

end Entries

/-- How many bytes the definition comes to, in every order. -/
def encodedSize (d : StructDefinition) : ℕ :=
  (d.values.entries.map fun e => (entryBytes e).length).sum + 3

/-- The bytes of the file. -/
def encoded (d : StructDefinition) (order : List (ℤ × ScriptValue)) : List Byte :=
  249 :: ((BitVec.ofNat 8 d.values.size :: order.flatMap entryBytes) ++ [0])

section Encoded
variable {d : StructDefinition} {order : List (ℤ × ScriptValue)}

theorem fits_entries (h : Storable d) (horder : order.Perm d.values.entries) :
    ∀ e ∈ order, Fits e := by
  intro e he
  have hmem := horder.mem_iff.mp he
  exact ⟨h.keys e.1 (List.mem_map_of_mem hmem), h.plain e.2 (List.mem_map_of_mem hmem)⟩

theorem length_encoded (horder : order.Perm d.values.entries) :
    (encoded d order).length = encodedSize d := by
  have hmap : (order.flatMap entryBytes).length =
      (d.values.entries.map fun e => (entryBytes e).length).sum := by
    rw [List.length_flatMap]
    exact (horder.map _).sum_eq
  simp only [encoded, encodedSize, List.length_cons, List.length_append, hmap, List.length_nil]

/-- The attempts end up to a gigabyte. -/
theorem putGrowing_puts_iff (horder : order.Perm d.values.entries)
    {result : Except PutError (List Byte)} : (∃ n, putGrowing (puts d order) n 4096 = some result) ↔
      encodedSize d ≤ 2 ^ 30 ∧ result = .ok (encoded d order) := by
  have hentries := Written.flatMap fun e (_ : e ∈ order) => written_putEntry e
  have hsize : Written [some [249], some [BitVec.ofNat 8 d.values.size]]
      [249, BitVec.ofNat 8 d.values.size] := ⟨[[249], [BitVec.ofNat 8 d.values.size]], rfl, rfl⟩
  have hstop : Written [some [0]] [0] := ⟨[[0]], rfl, rfl⟩
  have hall : Written (puts d order) (encoded d order) := (hsize.append hentries).append hstop
  rw [← length_encoded horder]
  exact hall.putGrowing_iff

theorem toInt_size (h : Storable d) : (BitVec.ofNat 8 d.values.size : Byte).toInt =
    if d.values.size ≤ 127 then (d.values.size : ℤ) else d.values.size - 256 := by
  have hle := h.size
  have hnat : (BitVec.ofNat 8 d.values.size : Byte).toNat = d.values.size := by
    rw [BitVec.toNat_ofNat, Nat.mod_eq_of_lt (by omega)]
  rw [BitVec.toInt_eq_toNat_cond, hnat]
  split_ifs <;> omega

theorem decode_encoded (h : Storable d) (horder : order.Perm d.values.entries)
    (hsize : d.values.size ≤ 127) : decode (encoded d order) = some d := by
  have hcount : (BitVec.ofNat 8 d.values.size : Byte).toInt.toNat = order.length := by
    rw [toInt_size h, if_pos hsize, horder.length_eq]
    rfl
  have hentries := reads_entries (fits_entries h horder) .empty
  rw [SortedMap.foldl_insert_perm horder, ← hcount] at hentries
  have hvalues : Reads (decodeStep 249 {}) (BitVec.ofNat 8 d.values.size ::
      order.flatMap entryBytes) d :=
    (Reads.byte (BitVec.ofNat 8 d.values.size)).bind (hentries.map StructDefinition.mk)
  have hread := (Stream.entry (by decide) hvalues (Stream.stop d)).read le_rfl []
  rwa [List.append_nil] at hread

/-- From 128 entries on none is read: the tag of the first one is taken for an opcode. -/
theorem decode_encoded_ne (h : Storable d) (horder : order.Perm d.values.entries)
    (hsize : 127 < d.values.size) : decode (encoded d order) ≠ some d := by
  have hcount : (BitVec.ofNat 8 d.values.size : Byte).toInt.toNat = 0 := by
    have hle := h.size
    rw [toInt_size h, if_neg (by omega)]
    omega
  have hstep (rest : List Byte) : decodeStep 249 {} (BitVec.ofNat 8 d.values.size :: rest) =
      some ({}, rest) := by
    have hbyte := (Reads.byte (BitVec.ofNat 8 d.values.size)).bind_append (fun size => do
      let values ← readEntries size.toInt.toNat .empty
      return ({ values := values } : StructDefinition)) rest
    rw [hcount] at hbyte
    exact hbyte
  obtain ⟨e, es, rfl⟩ : ∃ e es, order = e :: es := by
    apply List.exists_cons_of_length_pos
    rw [horder.length_eq]
    exact lt_trans (by omega) hsize
  intro hd
  rw [decode, encoded, List.length_cons, readOpcodes, if_neg (by decide), List.cons_append, hstep,
    Option.bind_some, List.flatMap_cons, entryBytes, List.cons_append, List.cons_append,
    List.length_cons, readOpcodes] at hd
  cases hstring : e.2.isString with
  | false =>
    rw [hstring, if_pos (by decide)] at hd
    rw [← Option.some.inj hd] at hsize
    cases hsize
  | true =>
    rw [hstring, if_neg (by decide)] at hd
    cases hd

theorem decode_encoded_iff (h : Storable d) (horder : order.Perm d.values.entries) :
    decode (encoded d order) = some d ↔ d.values.size ≤ 127 :=
  ⟨fun hd => not_lt.mp fun hlt => decode_encoded_ne h horder hlt hd, decode_encoded h horder⟩

end Encoded

/-- After storing a struct it is loaded as it was, and every other one is what it was before. -/
def StoresOne (codecs : Codecs) (read : ℤ → Option (List Byte)) (t : ReferenceTable) (id : Word)
    (d : StructDefinition) (order : List (ℤ × ScriptValue)) : Prop :=
  ∃ rounds t', store codecs read t id d order rounds = some (t', .ok ()) ∧
    (load codecs read t' id).2 = .ok (some d) ∧
    ∀ j, j ≠ id → (load codecs read t' j).2 = (load codecs read t j).2

section RoundTrip
variable {codecs : Codecs} {read : ℤ → Option (List Byte)} {t : ReferenceTable} {id : Word}
  {d : StructDefinition} {order : List (ℤ × ScriptValue)}

/-- The file that is written is one that is read exactly where the bits of the id between are
zero. -/
theorem load_putFile (h : Available codecs read t (ResourceType.getArchive id 5))
    (bytes : List Byte) (j : Word) :
    (load codecs read ((t.loadArchive codecs read (ResourceType.getArchive id 5)).1.putFile
      (ResourceType.getArchive id 5) (ResourceType.getFile id 8) bytes) j).2 =
      if j = id ∧ id.toNat % 256 < 32 then decodeFile decode (some bytes)
      else (load codecs read t j).2 := by
  have hfile := fileAt_putFile h (ResourceType.getFile id 8) bytes (ResourceType.getArchive j 5)
    (ResourceType.getFile j 5)
  have hplace : ResourceType.getArchive j 5 = ResourceType.getArchive id 5 ∧
      ResourceType.getFile j 5 = ResourceType.getFile id 8 ↔ j = id ∧ id.toNat % 256 < 32 := by
    rw [ResourceType.getArchive_eq (by omega), ResourceType.getArchive_eq (by omega),
      ResourceType.getFile_eq (by omega), ResourceType.getFile_eq (by omega), ← BitVec.toNat_inj]
    omega
  simp only [load, loadDefinition]
  rw [← fileAt, hfile, if_congr hplace rfl rfl]
  split_ifs <;> rfl

/-- Only structs whose id has no bit from the sixth to the eighth are stored where they are loaded,
and of those the ones of 127 entries at most. Others are found only if they were there before. -/
theorem storesOne_iff (hin : (t.archives.get? (ResourceType.getArchive id 5)).isSome)
    (h : Storable d) (horder : order.Perm d.values.entries) :
    StoresOne codecs read t id d order ↔
      Available codecs read t (ResourceType.getArchive id 5) ∧ encodedSize d ≤ 2 ^ 30 ∧
        if id.toNat % 256 < 32 then d.values.size ≤ 127
        else ∃ data, fileAt codecs read t (ResourceType.getArchive id 5)
          (ResourceType.getFile id 5) = .ok (some data) ∧ decode data = some d := by
  unfold StoresOne store
  constructor
  · rintro ⟨rounds, t', hstore, hload, -⟩
    obtain ⟨havailable, bytes, hput, rfl⟩ := (storeDefinition_eq_some_iff hin).mp hstore
    obtain ⟨hsize, hbytes⟩ := (putGrowing_puts_iff horder).mp ⟨rounds, hput⟩
    cases hbytes
    rw [load_putFile havailable] at hload
    refine ⟨havailable, hsize, ?_⟩
    split_ifs with hbits
    · rw [if_pos ⟨rfl, hbits⟩] at hload
      exact (decode_encoded_iff h horder).mp (decodeFile_eq.mp hload)
    · rw [if_neg fun hboth => hbits hboth.2] at hload
      exact bind_decodeFile_eq.mp hload
  · rintro ⟨havailable, hsize, hread⟩
    obtain ⟨rounds, hput⟩ := (putGrowing_puts_iff horder).mpr ⟨hsize, rfl⟩
    refine ⟨rounds, _, (storeDefinition_eq_some_iff hin).mpr ⟨havailable, _, hput, rfl⟩, ?_, ?_⟩
    · rw [load_putFile havailable]
      by_cases hbits : id.toNat % 256 < 32
      · rw [if_pos hbits] at hread
        rw [if_pos ⟨rfl, hbits⟩, decodeFile_eq]
        exact (decode_encoded_iff h horder).mpr hread
      · rw [if_neg hbits] at hread
        rw [if_neg fun hboth => hbits hboth.2]
        exact bind_decodeFile_eq.mpr hread
    · intro j hj
      rw [load_putFile havailable, if_neg fun hboth => hj hboth.1]

end RoundTrip

/-- A number and a string. -/
def weapon : StructDefinition where
  values := (SortedMap.empty.insert 14 (.int 3)).insert 641 (.string ['a', 'x', 'e'])

theorem storable_weapon : Storable weapon where
  keys := by decide
  plain v hv := by
    have hvalues : weapon.values.values = [.int 3, .string ['a', 'x', 'e']] := by decide
    have hmem : v = .int 3 ∨ v = .string ['a', 'x', 'e'] := by simpa [hvalues] using hv
    rcases hmem with rfl | rfl
    · trivial
    · exact Windows1252.plain_of_ascii (by decide)
  size := by decide

theorem storesOne_weapon : StoresOne storedOnly (fun _ => none) (newTable 8) 260 weapon
    weapon.values.entries := by
  have hin : ((newTable 8).archives.get? (ResourceType.getArchive 260 5)).isSome := by decide
  refine (storesOne_iff hin storable_weapon (List.Perm.refl _)).mpr
    ⟨available_newTable _, by decide, ?_⟩
  rw [if_pos (by decide)]
  decide

/-- The struct 33 is written to the file 33 of the archive 1, and read from the file 1. -/
theorem not_storesOne_between : ¬ StoresOne storedOnly (fun _ => none) (newTable 1) 33 weapon
    weapon.values.entries := by
  rintro ⟨rounds, t', hstore, hload, -⟩
  have hin : ((newTable 1).archives.get? (ResourceType.getArchive 33 5)).isSome := by decide
  obtain ⟨havailable, bytes, -, rfl⟩ := (storeDefinition_eq_some_iff hin).mp hstore
  rw [load_putFile havailable, if_neg (by decide)] at hload
  cases hload

end StructFilesystemCodec

end OpenNXT.Resources
