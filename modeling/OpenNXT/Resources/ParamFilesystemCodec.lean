import OpenNXT.Buffer.OpcodeStream
import OpenNXT.Resources.DefinitionList
import OpenNXT.Resources.ScriptValue

/-! Params in the archive 11 of index 2. -/
namespace OpenNXT.Resources
open Buffer Data Ext Filesystem Util

structure ParamDefinition where
  defaultInt : Word := 0
  defaultString : List Char := ['n', 'u', 'l', 'l']
  membersOnly : Bool := true
  type : ScriptVarType := .int
  deriving DecidableEq

namespace ParamFilesystemCodec

def decodeStep (opcode : Byte) (d : ParamDefinition) : Reader ParamDefinition :=
  match opcode.toNat with
  | 1 => do let type ← readLegacyType; return { d with type := type }
  | 2 => do let v ← Reader.int; return { d with defaultInt := v }
  | 4 => return { d with membersOnly := true }
  | 5 => do let s ← getString; return { d with defaultString := s }
  | 101 => do let type ← readType; return { d with type := type }
  | _ => Reader.fail

def decode (data : List Byte) : Option ParamDefinition := readOpcodes decodeStep data.length {} data

/-- What is put, in order. Nothing is put for a param that is not only for members. -/
def puts (data : ParamDefinition) : List (Option (List Byte)) :=
  [some [101], putSmallSmartInt data.type.id] ++
    (if data.defaultInt ≠ 0 then [some [2], some (putInt data.defaultInt)] else []) ++
    (if data.membersOnly then [some [4]] else []) ++
    (if data.defaultString ≠ ['n', 'u', 'l', 'l'] then
      [some [5], some (putString data.defaultString)] else []) ++ [some [0]]

section
variable (codecs : Codecs) (read : ℤ → Option (List Byte))

def load (t : ReferenceTable) (id : Word) :
    ReferenceTable × Except ResourceError (Option ParamDefinition) :=
  loadDefinition codecs read decode t 11 id.toInt

def getMaxId (t : ReferenceTable) : Except ResourceError Word :=
  match t.archives.get? 11 with
  | none => .error .nullArchive
  | some archive =>
    match archive.files.lastKey with
    | none => .error .noElement
    | some file => .ok (BitVec.ofInt 32 file)

/-- `0 until getMaxId + 1`, whose end is an `Int`. -/
def list (t : ReferenceTable) :
    ReferenceTable × Except ResourceError (SortedMap ℤ ParamDefinition) :=
  listBelow (load codecs read) ((getMaxId t).map fun max => (max + 1).toInt.toNat) t

/-- As many attempts as `rounds` allows. -/
def store (t : ReferenceTable) (id : Word) (data : ParamDefinition) (rounds : ℕ) :
    Option (ReferenceTable × Except ResourceError Unit) :=
  storeDefinition codecs read t 11 id.toInt (putGrowing (puts data) rounds 4096)

end

/-- How many bytes the definition comes to. -/
def encodedSize (d : ParamDefinition) : ℕ :=
  (typeBytes d.type).length + (if d.defaultInt ≠ 0 then 5 else 0) +
    (if d.membersOnly then 1 else 0) +
    (if d.defaultString ≠ ['n', 'u', 'l', 'l'] then d.defaultString.length + 2 else 0) + 2

/-- The bytes of the file. -/
def encoded (d : ParamDefinition) : List Byte :=
  101 :: (typeBytes d.type ++
    ((if d.defaultInt ≠ 0 then 2 :: putInt d.defaultInt else []) ++
    ((if d.membersOnly then [4] else []) ++
    ((if d.defaultString ≠ ['n', 'u', 'l', 'l'] then 5 :: putString d.defaultString else []) ++
      [0]))))

section Encoded
variable {d : ParamDefinition}

theorem length_encoded (d : ParamDefinition) : (encoded d).length = encodedSize d := by
  have hstring : (if d.defaultString ≠ ['n', 'u', 'l', 'l'] then 5 :: putString d.defaultString
      else []).length =
      if d.defaultString ≠ ['n', 'u', 'l', 'l'] then d.defaultString.length + 2 else 0 := by
    split_ifs <;> simp [putString]
  have hmembers : (if d.membersOnly then [4] else [] : List Byte).length =
      if d.membersOnly then 1 else 0 := by
    split_ifs <;> rfl
  have hint : (if d.defaultInt ≠ 0 then 2 :: putInt d.defaultInt else []).length =
      if d.defaultInt ≠ 0 then 5 else 0 := by
    split_ifs <;> simp
  simp only [encoded, encodedSize, List.length_cons, List.length_append, hstring, hmembers, hint,
    List.length_nil]
  omega

theorem written_puts (d : ParamDefinition) : Written (puts d) (encoded d) := by
  have htype : Written [some [101], putSmallSmartInt d.type.id] (101 :: typeBytes d.type) := by
    rw [putSmallSmartInt_id]
    exact ⟨[[101], typeBytes d.type], rfl, by simp⟩
  have hint : Written (if d.defaultInt ≠ 0 then [some [2], some (putInt d.defaultInt)] else [])
      (if d.defaultInt ≠ 0 then 2 :: putInt d.defaultInt else []) :=
    Written.optional ⟨[[2], putInt d.defaultInt], rfl, by simp⟩
  have hmembers : Written (if d.membersOnly then [some [4]] else [])
      (if d.membersOnly then [4] else []) := Written.optional ⟨[[4]], rfl, rfl⟩
  have hstring : Written
      (if d.defaultString ≠ ['n', 'u', 'l', 'l'] then
        [some [5], some (putString d.defaultString)] else [])
      (if d.defaultString ≠ ['n', 'u', 'l', 'l'] then 5 :: putString d.defaultString else []) :=
    Written.optional ⟨[[5], putString d.defaultString], rfl, by simp⟩
  have hstop : Written [some [0]] [0] := ⟨[[0]], rfl, rfl⟩
  have hall := (((htype.append hint).append hmembers).append hstring).append hstop
  simpa [puts, encoded] using hall

/-- The attempts end up to a gigabyte. -/
theorem putGrowing_puts_iff {result : Except PutError (List Byte)} :
    (∃ n, putGrowing (puts d) n 4096 = some result) ↔
      encodedSize d ≤ 2 ^ 30 ∧ result = .ok (encoded d) := by
  rw [← length_encoded]
  exact (written_puts d).putGrowing_iff

/-- Whatever is stored is only for members when it is loaded. -/
theorem decode_encoded (h : Windows1252.Plain d.defaultString) :
    decode (encoded d) = some { d with membersOnly := true } := by
  have htype : Reads (decodeStep 101 {}) (typeBytes d.type) { type := d.type } :=
    (reads_type d.type).map fun type => ({ type := type } : ParamDefinition)
  have hstring : Stream decodeStep ((if d.defaultString ≠ ['n', 'u', 'l', 'l'] then
      5 :: putString d.defaultString else []) ++ [0])
      { type := d.type, defaultInt := d.defaultInt } { d with membersOnly := true } :=
    Stream.optional (by decide)
      (fun _ => (reads_getString h).map fun s =>
        ({ type := d.type, defaultInt := d.defaultInt, defaultString := s } : ParamDefinition))
      (fun hnull => by rw [not_not.mp hnull]) (Stream.stop _)
  have hmembers : Stream decodeStep ((if d.membersOnly then [4] else []) ++ _)
      { type := d.type, defaultInt := d.defaultInt } { d with membersOnly := true } :=
    Stream.optional (by decide) (fun _ => Reads.pure _) (fun _ => rfl) hstring
  have hint : Stream decodeStep ((if d.defaultInt ≠ 0 then 2 :: putInt d.defaultInt else []) ++ _)
      { type := d.type } { d with membersOnly := true } :=
    Stream.optional (by decide)
      (fun _ => (Reads.word 4 d.defaultInt).map fun v =>
        ({ type := d.type, defaultInt := v } : ParamDefinition))
      (fun hzero => by rw [not_not.mp hzero]) hmembers
  have hread := (Stream.entry (by decide) htype hint).read le_rfl []
  rwa [List.append_nil] at hread

end Encoded

/-- A param is stored and loaded again as it was exactly where it is only for members, and comes to
a gigabyte at most. -/
theorem restores_iff_membersOnly {codecs : Codecs} {read : ℤ → Option (List Byte)}
    {t : ReferenceTable} {id : Word} {d : ParamDefinition} (hin : (t.archives.get? 11).isSome)
    (h : Windows1252.Plain d.defaultString) :
    Restores codecs read (fun rounds => store codecs read t id d rounds)
        (fun t' => load codecs read t' id) t 11 id.toInt d ↔
      Available codecs read t 11 ∧ d.membersOnly = true ∧ encodedSize d ≤ 2 ^ 30 := by
  have hmembers : ({ d with membersOnly := true } : ParamDefinition) = d ↔ d.membersOnly = true := by
    obtain ⟨_, _, members, _⟩ := d
    cases members <;> simp
  unfold store load
  rw [restores_iff hin]
  refine and_congr_right fun _ => ?_
  simp only [if_pos, bind_decodeFile_eq]
  constructor
  · rintro ⟨rounds, bytes, hput, data, hdata, hdecode⟩
    cases hdata
    obtain ⟨hsize, hbytes⟩ := putGrowing_puts_iff.mp ⟨rounds, hput⟩
    cases hbytes
    rw [decode_encoded h, Option.some.injEq] at hdecode
    exact ⟨hmembers.mp hdecode, hsize⟩
  · rintro ⟨honly, hsize⟩
    obtain ⟨rounds, hput⟩ := putGrowing_puts_iff.mpr ⟨hsize, rfl⟩
    refine ⟨rounds, encoded d, hput, encoded d, rfl, ?_⟩
    rw [decode_encoded h, hmembers.mpr honly]

end ParamFilesystemCodec

end OpenNXT.Resources
