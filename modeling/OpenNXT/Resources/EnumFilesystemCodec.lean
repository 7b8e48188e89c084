import OpenNXT.Buffer.OpcodeStream
import OpenNXT.Resources.DefinitionList
import OpenNXT.Resources.ScriptValue

/-! Enums in index 17, 256 to an archive. -/
namespace OpenNXT.Resources
open Buffer Data Ext Filesystem
open Filesystem.ReferenceTable (storedOnly)

structure EnumDefinition where
  keyType : ScriptVarType := .int
  valueType : ScriptVarType := .int
  defaultInt : Word := 0
  defaultString : Option (List Char) := none
  values : SortedMap ℤ ScriptValue := .empty

namespace EnumFilesystemCodec

def readKey (wide : Bool) : Reader ℤ :=
  if wide then do let v ← Reader.int; return v.toInt
  else do let v ← Reader.short; return v.toNat

def readValues (strings wide : Bool) :
    ℕ → SortedMap ℤ ScriptValue → Reader (SortedMap ℤ ScriptValue)
  | 0, values => return values
  | n + 1, values => do
    let key ← readKey wide
    let value ← readValue strings
    readValues strings wide n (values.insert key value)

/-- The opcodes 5 and 6; 7 and 8 have the size of an array in front, and keys of two bytes. -/
def readMap (opcode : ℕ) (d : EnumDefinition) : Reader EnumDefinition := do
  let _ ← if opcode = 7 ∨ opcode = 8 then Reader.bytes 2 else pure []
  let size ← Reader.short
  let values ← readValues (opcode = 5 ∨ opcode = 7) (opcode = 5 ∨ opcode = 6) size.toNat d.values
  return { d with values := values }

def decodeStep (opcode : Byte) (d : EnumDefinition) : Reader EnumDefinition :=
  match opcode.toNat with
  | 1 => do let type ← readLegacyType; return { d with keyType := type }
  | 2 => do let type ← readLegacyType; return { d with valueType := type }
  | 3 => do let s ← getString; return { d with defaultString := some s }
  | 4 => do let v ← Reader.int; return { d with defaultInt := v }
  | 5 => readMap 5 d
  | 6 => readMap 6 d
  | 7 => readMap 7 d
  | 8 => readMap 8 d
  | 101 => do let type ← readType; return { d with keyType := type }
  | 102 => do let type ← readType; return { d with valueType := type }
  | _ => Reader.fail

def decode (data : List Byte) : Option EnumDefinition := readOpcodes decodeStep data.length {} data

/-- One entry of the map; a value of the wrong class is an exception. -/
def putEntry (strings : Bool) (e : ℤ × ScriptValue) : List (Option (List Byte)) :=
  [some (putInt (BitVec.ofInt 32 e.1)),
    match e.2 with
    | .string s => if strings then some (putString s) else none
    | .int v => if strings then none else some (putInt v)]

/-- What is put, in order; `order` is the one in which the map is walked. -/
def puts (data : EnumDefinition) (order : List (ℤ × ScriptValue)) : List (Option (List Byte)) :=
  let strings : Bool := data.valueType.type = .string
  [some [101], putSmallSmartInt data.keyType.id, some [102], putSmallSmartInt data.valueType.id] ++
    (match data.defaultString with
    | none => []
    | some s => [some [3], some (putString s)]) ++
    (if data.defaultInt ≠ 0 then [some [4], some (putInt data.defaultInt)] else []) ++
    [some [if strings then 5 else 6], some (putShort (BitVec.ofNat 16 data.values.size))] ++
    order.flatMap (putEntry strings) ++ [some [0]]

section
variable (codecs : Codecs) (read : ℤ → Option (List Byte))

def load (t : ReferenceTable) (id : Word) :
    ReferenceTable × Except ResourceError (Option EnumDefinition) :=
  loadDefinition codecs read decode t (ResourceType.getArchive id 8) (ResourceType.getFile id 8)

def getMaxId (t : ReferenceTable) : Except ResourceError Word :=
  Resources.getMaxId (.error .nullArchive) 256 t

/-- `0 until getMaxId + 1`, whose end is an `Int`. -/
def list (t : ReferenceTable) :
    ReferenceTable × Except ResourceError (SortedMap ℤ EnumDefinition) :=
  listBelow (load codecs read) ((getMaxId t).map fun max => (max + 1).toInt.toNat) t

/-- As many attempts as `rounds` allows. -/
def store (t : ReferenceTable) (id : Word) (data : EnumDefinition) (order : List (ℤ × ScriptValue))
    (rounds : ℕ) : Option (ReferenceTable × Except ResourceError Unit) :=
  storeDefinition codecs read t (ResourceType.getArchive id 8) (ResourceType.getFile id 8)
    (putGrowing (puts data order) rounds 4096)

end

/-- A value of the type. -/
def Typed (valueType : ScriptVarType) (v : ScriptValue) : Prop :=
  valueType.type = (if v.isString then .string else .integer) ∧ v.Plain

/-- Any map of `Int` keys to values of the type, and strings that can be written. -/
structure Storable (d : EnumDefinition) : Prop where
  defaultString : ∀ s ∈ d.defaultString, Windows1252.Plain s
  base : d.valueType.type = .string ∨ d.valueType.type = .integer
  keys : ∀ k ∈ d.values.keys, -2 ^ 31 ≤ k ∧ k < 2 ^ 31
  typed : ∀ v ∈ d.values.values, Typed d.valueType v
  size : d.values.size ≤ 65535

section Entries
variable {strings : Bool}

def entryBytes (e : ℤ × ScriptValue) : List Byte := putInt (BitVec.ofInt 32 e.1) ++ e.2.bytes

/-- What an entry of the map has to be for its layout. -/
def Fits (strings : Bool) (e : ℤ × ScriptValue) : Prop :=
  (-2 ^ 31 ≤ e.1 ∧ e.1 < 2 ^ 31) ∧ e.2.isString = strings ∧ e.2.Plain

theorem written_putEntry {e : ℤ × ScriptValue} (h : Fits strings e) :
    Written (putEntry strings e) (entryBytes e) := by
  obtain ⟨k, v⟩ := e
  obtain ⟨-, rfl, -⟩ := h
  refine Written.cons rfl ?_
  cases v with
  | string s => exact ⟨[putString s], rfl, List.append_nil _⟩
  | int v => exact ⟨[putInt v], rfl, List.append_nil _⟩

theorem reads_key {k : ℤ} (h : -2 ^ 31 ≤ k ∧ k < 2 ^ 31) :
    Reads (readKey true) (putInt (BitVec.ofInt 32 k)) k := by
  have hread := (Reads.word 4 (BitVec.ofInt 32 k)).map BitVec.toInt
  rwa [BitVec.toInt_ofInt, Int.bmod_eq_of_le (by omega) (by omega)] at hread

theorem reads_entry {e : ℤ × ScriptValue} (h : Fits strings e) {α : Type}
    {f : ℤ → ScriptValue → Reader α} {bs : List Byte} {w : α} (hf : Reads (f e.1 e.2) bs w) :
    Reads (do let key ← readKey true; let value ← readValue strings; f key value)
      (entryBytes e ++ bs) w := by
  obtain ⟨hk, rfl, hplain⟩ := h
  rw [entryBytes, List.append_assoc]
  exact (reads_key hk).bind ((ScriptValue.reads_bytes hplain).bind hf)

theorem reads_values {es : List (ℤ × ScriptValue)} (h : ∀ e ∈ es, Fits strings e)
    (values : SortedMap ℤ ScriptValue) :
    Reads (readValues strings true es.length values) (es.flatMap entryBytes)
      (es.foldl (fun m e => m.insert e.1 e.2) values) := by
  induction es generalizing values with
  | nil => exact Reads.pure values
  | cons e es ih =>
    rw [List.flatMap_cons, List.foldl_cons]
    exact reads_entry (h e List.mem_cons_self)
      (ih (fun d hd => h d (List.mem_cons_of_mem e hd)) _)

end Entries

/-- The bytes of the map are as many in every order. -/
def mapSize (d : EnumDefinition) : ℕ := (d.values.entries.map fun e => (entryBytes e).length).sum

/-- How many bytes the definition comes to. -/
def encodedSize (d : EnumDefinition) : ℕ :=
  (typeBytes d.keyType).length + (typeBytes d.valueType).length +
    (match d.defaultString with
    | none => 0
    | some s => s.length + 2) +
    (if d.defaultInt ≠ 0 then 5 else 0) + mapSize d + 6

def defaultStringBytes : Option (List Char) → List Byte
  | none => []
  | some s => 3 :: putString s

/-- The bytes of the file. -/
def encoded (d : EnumDefinition) (order : List (ℤ × ScriptValue)) : List Byte :=
  101 :: (typeBytes d.keyType ++ 102 :: (typeBytes d.valueType ++
    (defaultStringBytes d.defaultString ++
    ((if d.defaultInt ≠ 0 then 4 :: putInt d.defaultInt else []) ++
    (if d.valueType.type = .string then 5 else 6) ::
      ((putShort (BitVec.ofNat 16 d.values.size) ++ order.flatMap entryBytes) ++ [0])))))

section Encoded
variable {d : EnumDefinition} {order : List (ℤ × ScriptValue)}

theorem fits_entries (h : Storable d) (horder : order.Perm d.values.entries) :
    ∀ e ∈ order, Fits (d.valueType.type = .string) e := by
  intro e he
  have hmem := horder.mem_iff.mp he
  have htyped := h.typed e.2 (List.mem_map_of_mem hmem)
  refine ⟨h.keys e.1 (List.mem_map_of_mem hmem), ?_, htyped.2⟩
  rw [htyped.1]
  cases e.2.isString <;> rfl

theorem written_puts (h : Storable d) (horder : order.Perm d.values.entries) :
    Written (puts d order) (encoded d order) := by
  have hstring : Written
      (match d.defaultString with
      | none => []
      | some s => [some [3], some (putString s)])
      (defaultStringBytes d.defaultString) := by
    cases d.defaultString with
    | none => exact Written.nil
    | some s => exact ⟨[[3], putString s], rfl, by simp [defaultStringBytes]⟩
  have hint : Written (if d.defaultInt ≠ 0 then [some [4], some (putInt d.defaultInt)] else [])
      (if d.defaultInt ≠ 0 then 4 :: putInt d.defaultInt else []) :=
    Written.optional ⟨[[4], putInt d.defaultInt], rfl, by simp⟩
  have htypes : Written
      [some [101], putSmallSmartInt d.keyType.id, some [102], putSmallSmartInt d.valueType.id]
      (101 :: (typeBytes d.keyType ++ 102 :: typeBytes d.valueType)) := by
    rw [putSmallSmartInt_id, putSmallSmartInt_id]
    exact ⟨[[101], typeBytes d.keyType, [102], typeBytes d.valueType], rfl, by simp⟩
  have hsize : Written [some [if d.valueType.type = .string then 5 else 6],
      some (putShort (BitVec.ofNat 16 d.values.size))]
      ((if d.valueType.type = .string then 5 else 6) :: putShort (BitVec.ofNat 16 d.values.size)) :=
    ⟨[[if d.valueType.type = .string then 5 else 6], putShort (BitVec.ofNat 16 d.values.size)],
      rfl, by simp⟩
  have hentries := Written.flatMap fun e he => written_putEntry (fits_entries h horder e he)
  have hstop : Written [some [0]] [0] := ⟨[[0]], rfl, rfl⟩
  have hall := ((((htypes.append hstring).append hint).append hsize).append hentries).append hstop
  simpa [puts, encoded] using hall

theorem length_encoded (horder : order.Perm d.values.entries) :
    (encoded d order).length = encodedSize d := by
  have hmap : (order.flatMap entryBytes).length = mapSize d := by
    rw [List.length_flatMap, mapSize]
    exact (horder.map _).sum_eq
  have hstring : (defaultStringBytes d.defaultString).length = match d.defaultString with
      | none => 0
      | some s => s.length + 2 := by
    cases d.defaultString with
    | none => rfl
    | some s => simp [defaultStringBytes, putString]
  have hint : (if d.defaultInt ≠ 0 then 4 :: putInt d.defaultInt else []).length =
      if d.defaultInt ≠ 0 then 5 else 0 := by
    split_ifs <;> simp
  simp only [encoded, encodedSize, List.length_cons, List.length_append, hmap, hstring, hint,
    length_putWord, List.length_nil]
  omega

theorem stream_defaultString {e e' : EnumDefinition} {rest : List Byte}
    {default : Option (List Char)} (h : ∀ s ∈ default, Windows1252.Plain s)
    (hnone : e.defaultString = none)
    (hrest : Stream decodeStep rest { e with defaultString := default } e') :
    Stream decodeStep (defaultStringBytes default ++ rest) e e' := by
  cases default with
  | none =>
    rw [defaultStringBytes, List.nil_append]
    rwa [← hnone] at hrest
  | some s =>
    have hread : Reads (decodeStep 3 e) (putString s) { e with defaultString := some s } :=
      (reads_getString (h s rfl)).map fun s => ({ e with defaultString := some s } : EnumDefinition)
    exact Stream.entry (by decide) hread hrest

/-- The map, in whichever order it was walked. -/
theorem reads_map (h : Storable d) (horder : order.Perm d.values.entries) {e : EnumDefinition}
    (hempty : e.values = .empty) :
    Reads (decodeStep (if d.valueType.type = .string then 5 else 6) e)
      (putShort (BitVec.ofNat 16 d.values.size) ++ order.flatMap entryBytes)
      { e with values := d.values } := by
  have hsize : (BitVec.ofNat 16 d.values.size).toNat = order.length := by
    have hle := h.size
    rw [BitVec.toNat_ofNat, horder.length_eq, Nat.mod_eq_of_lt (by omega)]
    rfl
  have hvalues := reads_values (fits_entries h horder) .empty
  rw [SortedMap.foldl_insert_perm horder, ← hsize] at hvalues
  have hread (opcode : ℕ) (hopcode : opcode = 5 ∨ opcode = 6)
      (hstring : opcode = 5 ↔ d.valueType.type = .string) :
      Reads (readMap opcode e) (putShort (BitVec.ofNat 16 d.values.size) ++
        order.flatMap entryBytes) { e with values := d.values } := by
    have harray : ¬ (opcode = 7 ∨ opcode = 8) := by omega
    have hkeys : decide (opcode = 5 ∨ opcode = 6) = true := decide_eq_true hopcode
    have hstrings : decide (opcode = 5 ∨ opcode = 7) = decide (d.valueType.type = .string) := by
      rw [decide_eq_decide, ← hstring]
      omega
    simp only [readMap, if_neg harray, hempty, hkeys, hstrings]
    rw [← List.nil_append (putShort _ ++ _)]
    refine (Reads.pure []).bind ?_
    refine (Reads.word 2 (BitVec.ofNat 16 d.values.size)).bind ?_
    exact hvalues.map fun values => ({ e with values := values } : EnumDefinition)
  split_ifs with hstring
  · exact hread 5 (Or.inl rfl) (by simp [hstring])
  · exact hread 6 (Or.inr rfl) (by simp [hstring])

/-- What is written is one stream, from the definition that loading starts with. -/
theorem stream_encoded (h : Storable d) (horder : order.Perm d.values.entries) :
    Stream decodeStep (encoded d order) {} d := by
  have hkey : Reads (decodeStep 101 {}) (typeBytes d.keyType) { keyType := d.keyType } :=
    (reads_type d.keyType).map fun type => ({ keyType := type } : EnumDefinition)
  have hvalue : Reads (decodeStep 102 { keyType := d.keyType }) (typeBytes d.valueType)
      { keyType := d.keyType, valueType := d.valueType } :=
    (reads_type d.valueType).map fun type =>
      ({ keyType := d.keyType, valueType := type } : EnumDefinition)
  have hmap := reads_map h horder (e := { d with values := .empty }) rfl
  have hlast : Stream decodeStep ((if d.valueType.type = .string then 5 else 6) ::
      ((putShort (BitVec.ofNat 16 d.values.size) ++ order.flatMap entryBytes) ++ [0]))
      { d with values := .empty } d :=
    Stream.entry (by split_ifs <;> decide) hmap (Stream.stop d)
  have hint : Stream decodeStep ((if d.defaultInt ≠ 0 then 4 :: putInt d.defaultInt else []) ++ _)
      { d with defaultInt := 0, values := .empty } d :=
    Stream.optional (by decide)
      (fun _ => (Reads.word 4 d.defaultInt).map fun v =>
        ({ keyType := d.keyType, valueType := d.valueType, defaultString := d.defaultString,
           defaultInt := v } : EnumDefinition))
      (fun hzero => by rw [not_not.mp hzero]) hlast
  have hstring := stream_defaultString (e := { keyType := d.keyType, valueType := d.valueType })
    h.defaultString rfl hint
  exact Stream.entry (by decide) hkey (Stream.entry (by decide) hvalue hstring)

/-- The attempts end up to a gigabyte. -/
theorem putGrowing_puts_iff (h : Storable d) (horder : order.Perm d.values.entries)
    {result : Except PutError (List Byte)} : (∃ n, putGrowing (puts d order) n 4096 = some result) ↔
      encodedSize d ≤ 2 ^ 30 ∧ result = .ok (encoded d order) := by
  rw [← length_encoded horder]
  exact (written_puts h horder).putGrowing_iff

theorem decode_encoded (h : Storable d) (horder : order.Perm d.values.entries) :
    decode (encoded d order) = some d := by
  have hread := (stream_encoded h horder).read le_rfl []
  rwa [List.append_nil] at hread

end Encoded

section RoundTrip
variable {codecs : Codecs} {read : ℤ → Option (List Byte)} {t : ReferenceTable} {id : Word}
  {d : EnumDefinition} {order : List (ℤ × ScriptValue)}

/-- An enum is stored and loaded again as it was exactly where it comes to a gigabyte at most: the
buffer of the next attempt would have a size of zero, and so would all that follow. -/
theorem restores_iff_encodedSize
    (hin : (t.archives.get? (ResourceType.getArchive id 8)).isSome) (h : Storable d)
    (horder : order.Perm d.values.entries) :
    Restores codecs read (fun rounds => store codecs read t id d order rounds)
        (fun t' => load codecs read t' id) t (ResourceType.getArchive id 8)
        (ResourceType.getFile id 8) d ↔
      Available codecs read t (ResourceType.getArchive id 8) ∧ encodedSize d ≤ 2 ^ 30 := by
  unfold store load
  rw [restores_iff hin]
  refine and_congr_right fun _ => ?_
  constructor
  · rintro ⟨rounds, bytes, hput, -⟩
    exact ((putGrowing_puts_iff h horder).mp ⟨rounds, hput⟩).1
  · intro hsize
    obtain ⟨rounds, hput⟩ := (putGrowing_puts_iff h horder).mpr ⟨hsize, rfl⟩
    refine ⟨rounds, encoded d order, hput, ?_⟩
    rw [if_pos rfl]
    change decodeFile decode (some (encoded d order)) = _
    rw [decodeFile, decode_encoded h horder]

end RoundTrip

/-- Two entries, of which one has the key -1. -/
def colours : EnumDefinition where
  valueType := .string
  defaultString := some ['r', 'e', 'd']
  values := (SortedMap.empty.insert (-1) (.string ['b'])).insert 7 (.string [])

theorem storable_colours : Storable colours where
  defaultString s hs := by
    cases hs
    exact Windows1252.plain_of_ascii (by decide)
  base := Or.inl rfl
  keys := by decide
  typed v hv := by
    have hvalues : colours.values.values = [.string ['b'], .string []] := by decide
    have hmem : v = .string ['b'] ∨ v = .string [] := by simpa [hvalues] using hv
    rcases hmem with rfl | rfl
    · exact ⟨rfl, Windows1252.plain_of_ascii (by decide)⟩
    · exact ⟨rfl, Windows1252.plain_of_ascii (by decide)⟩
  size := by decide

theorem restores_colours :
    Restores storedOnly (fun _ => none) (fun rounds =>
        store storedOnly (fun _ => none) (newTable 1) 300 colours colours.values.entries rounds)
      (fun t' => load storedOnly (fun _ => none) t' 300) (newTable 1) 1 44 colours := by
  have hin : ((newTable 1).archives.get? (ResourceType.getArchive 300 8)).isSome := by decide
  exact (restores_iff_encodedSize hin storable_colours (List.Perm.refl _)).mpr
    ⟨available_newTable _, by decide⟩

section LongDefault
variable {s : List Char}

theorem storable_default (hs : Windows1252.Plain s) : Storable { defaultString := some s } where
  defaultString s' hs' := by
    cases hs'
    exact hs
  base := Or.inr rfl
  keys k hk := absurd hk List.not_mem_nil
  typed v hv := absurd hv List.not_mem_nil
  size := Nat.zero_le _

theorem encodedSize_default (s : List Char) :
    encodedSize { defaultString := some s } = s.length + 10 := by
  have hint : ScriptVarType.int.id.toNat < 128 := by decide
  have hmap : mapSize { defaultString := some s } = 0 := rfl
  simp only [encodedSize, length_typeBytes, hmap, if_pos hint]
  rw [if_neg (not_not.mpr rfl)]
  omega

theorem not_restores_default (hs : Windows1252.Plain s) (hlen : 2 ^ 30 < s.length + 10) :
    ¬ Restores storedOnly (fun _ => none) (fun rounds =>
        store storedOnly (fun _ => none) (newTable 0) 0 { defaultString := some s } [] rounds)
      (fun t' => load storedOnly (fun _ => none) t' 0) (newTable 0) 0 0
      { defaultString := some s } := by
  intro hrestores
  have hin : ((newTable 0).archives.get? (ResourceType.getArchive 0 8)).isSome := by decide
  obtain ⟨-, rounds, bytes, hput, -⟩ := (restores_iff hin).mp hrestores
  have hsize := ((putGrowing_puts_iff (storable_default hs) (List.Perm.refl _)).mp
    ⟨rounds, hput⟩).1
  rw [encodedSize_default] at hsize
  omega

end LongDefault

/-- A default string of a gigabyte. -/
theorem not_restores_longDefault :
    ¬ Restores storedOnly (fun _ => none) (fun rounds =>
        store storedOnly (fun _ => none) (newTable 0) 0
          { defaultString := some (List.replicate (2 ^ 30) 'a') } [] rounds)
      (fun t' => load storedOnly (fun _ => none) t' 0) (newTable 0) 0 0
      { defaultString := some (List.replicate (2 ^ 30) 'a') } := by
  apply not_restores_default
  · apply Windows1252.plain_of_ascii
    rw [List.all_eq_true]
    intro c hc
    rw [List.eq_of_mem_replicate hc]
    decide
  · rw [List.length_replicate]
    omega

end EnumFilesystemCodec

end OpenNXT.Resources
