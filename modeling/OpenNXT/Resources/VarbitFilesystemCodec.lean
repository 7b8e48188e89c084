import OpenNXT.Buffer.OpcodeStream
import OpenNXT.Resources.DefinitionList
import OpenNXT.Resources.EnumFilesystemCodec
import OpenNXT.Resources.StructFilesystemCodec

/-! Varbits in index 22, and what the lists of enums, structs and varbits leave out. -/
namespace OpenNXT.Resources
open Buffer Data Filesystem
open Filesystem.ReferenceTable (storedOnly)

structure VarbitDefinition where
  baseVar : Word := 0
  leastSignificantBit : Word := 0
  mostSignificantBit : Word := 0
  deriving DecidableEq

namespace VarbitFilesystemCodec

def decodeStep (opcode : Byte) (_ : VarbitDefinition) : Reader VarbitDefinition :=
  match opcode.toNat with
  | 1 => do
    let baseVar ← Reader.short
    let leastSignificantBit ← Reader.byte
    let mostSignificantBit ← Reader.byte
    return {
      baseVar := baseVar.setWidth 32
      leastSignificantBit := leastSignificantBit.setWidth 32
      mostSignificantBit := mostSignificantBit.setWidth 32 }
  | _ => Reader.fail

def decode (data : List Byte) : Option VarbitDefinition := readOpcodes decodeStep data.length {} data

def puts (data : VarbitDefinition) : List (Option (List Byte)) :=
  [some [1], some (putShort (data.baseVar.setWidth 16)),
    some [data.leastSignificantBit.setWidth 8], some [data.mostSignificantBit.setWidth 8], some [0]]

/-- The multiplier is ten, not the 32 files that the ids of an archive have room for. -/
def getMaxId (t : ReferenceTable) : Except ResourceError Word :=
  Resources.getMaxId (.ok 0) 10 t

section
variable (codecs : Codecs) (read : ℤ → Option (List Byte))

def load (t : ReferenceTable) (id : Word) :
    ReferenceTable × Except ResourceError (Option VarbitDefinition) :=
  loadDefinition codecs read decode t (ResourceType.getArchive id 5) (ResourceType.getFile id 5)

/-- `0..getMaxId`. -/
def list (t : ReferenceTable) :
    ReferenceTable × Except ResourceError (SortedMap ℤ VarbitDefinition) :=
  listBelow (load codecs read) ((getMaxId t).map fun max => (max.toInt + 1).toNat) t

def store (t : ReferenceTable) (id : Word) (data : VarbitDefinition) :
    Option (ReferenceTable × Except ResourceError Unit) :=
  storeDefinition codecs read t (ResourceType.getArchive id 5) (ResourceType.getFile id 5)
    (some (putChunks 6 (puts data) []))

end

end VarbitFilesystemCodec

theorem count_until (max : Word) : (max + 1).toInt.toNat ≤ 2 ^ 31 := by
  have hlt : (max + 1).toInt < 2 ^ 31 := BitVec.toInt_lt
  omega

theorem count_through (max : Word) : (max.toInt + 1).toNat ≤ 2 ^ 31 := by
  have hlt : max.toInt < 2 ^ 31 := BitVec.toInt_lt
  omega

section Lists
variable {codecs : Codecs} {read : ℤ → Option (List Byte)} {t : ReferenceTable} {k : ℤ} {a : Archive}

/-- A list has every definition that can be loaded exactly where the last archive has a file, and
every file with a definition has an id up to what is computed from the last one: 256 or 32 for each
archive before, but ten for varbits, and an `Int` in the end. -/
theorem lists_all_iff (hlast : t.archives.lastKey = some k) (ha : t.archives.get? k = some a) :
    (ListsAll (EnumFilesystemCodec.list codecs read t).2
        (fun id => (EnumFilesystemCodec.load codecs read t id).2) ↔
      (a.files.lastKey = none ∧ Throws codecs read EnumFilesystemCodec.decode t 8) ∨
        ∃ f, a.files.lastKey = some f ∧ Covered codecs read EnumFilesystemCodec.decode t 8
          (BitVec.ofInt 32 (k * 256 + f) + 1).toInt.toNat) ∧
    (ListsAll (StructFilesystemCodec.list codecs read t).2
        (fun id => (StructFilesystemCodec.load codecs read t id).2) ↔
      (a.files.lastKey = none ∧ Throws codecs read StructFilesystemCodec.decode t 5) ∨
        ∃ f, a.files.lastKey = some f ∧ Covered codecs read StructFilesystemCodec.decode t 5
          (BitVec.ofInt 32 (k * 32 + f) + 1).toInt.toNat) ∧
    (ListsAll (VarbitFilesystemCodec.list codecs read t).2
        (fun id => (VarbitFilesystemCodec.load codecs read t id).2) ↔
      (a.files.lastKey = none ∧ Throws codecs read VarbitFilesystemCodec.decode t 5) ∨
        ∃ f, a.files.lastKey = some f ∧ Covered codecs read VarbitFilesystemCodec.decode t 5
          ((BitVec.ofInt 32 (k * 10 + f)).toInt + 1).toNat) := by
  exact ⟨listsAll_listBelow_iff count_until hlast ha, listsAll_listBelow_iff count_until hlast ha,
    listsAll_listBelow_iff count_through hlast ha⟩

/-- The bound, as long as it is an `Int`. -/
theorem toNat_maxId_succ {m : ℤ} (hzero : 0 ≤ m) (hlt : m < 2 ^ 31 - 1) :
    m < ((BitVec.ofInt 32 m + 1).toInt.toNat : ℤ) := by
  have hnat : (BitVec.ofInt 32 m).toNat = m.toNat := by
    rw [BitVec.toNat_ofInt]
    omega
  have hsucc : (BitVec.ofInt 32 m + 1).toNat = m.toNat + 1 := by
    rw [BitVec.toNat_add, hnat, show (1 : Word).toNat = 1 from rfl, Nat.mod_eq_of_lt (by omega)]
  rw [BitVec.toInt_eq_toNat_of_lt (by omega), hsucc]
  omega

/-- Enums and structs are all listed up to the greatest `Int`. -/
theorem enums_and_structs_listed (hlast : t.archives.lastKey = some k)
    (ha : t.archives.get? k = some a) {f : ℤ} (hf : a.files.lastKey = some f) (hfile : 0 ≤ f)
    (hk : 0 ≤ k) :
    (k * 256 + f < 2 ^ 31 - 1 → ListsAll (EnumFilesystemCodec.list codecs read t).2
      (fun id => (EnumFilesystemCodec.load codecs read t id).2)) ∧
    (k * 32 + f < 2 ^ 31 - 1 → ListsAll (StructFilesystemCodec.list codecs read t).2
      (fun id => (StructFilesystemCodec.load codecs read t id).2)) := by
  constructor
  · intro hlt
    refine (listsAll_listBelow_iff count_until hlast ha).mpr (Or.inr ⟨f, hf, ?_⟩)
    exact covered_of_lt (by decide) (by decide) hlast ha hf hfile
      (toNat_maxId_succ (by omega) hlt)
  · intro hlt
    refine (listsAll_listBelow_iff count_until hlast ha).mpr (Or.inr ⟨f, hf, ?_⟩)
    exact covered_of_lt (by decide) (by decide) hlast ha hf hfile
      (toNat_maxId_succ (by omega) hlt)

end Lists

/-- A table of one archive with one file, which is a definition of every kind. -/
def oneFile (archive file : ℤ) : ReferenceTable where
  archives := SortedMap.empty.insert archive
    { loaded := true, files := SortedMap.empty.insert file { data := [0] } }

theorem lists_all_oneFile :
    ListsAll (EnumFilesystemCodec.list storedOnly (fun _ => none) (oneFile 0 3)).2
      (fun id => (EnumFilesystemCodec.load storedOnly (fun _ => none) (oneFile 0 3) id).2) ∧
    ListsAll (StructFilesystemCodec.list storedOnly (fun _ => none) (oneFile 0 3)).2
      (fun id => (StructFilesystemCodec.load storedOnly (fun _ => none) (oneFile 0 3) id).2) ∧
    ListsAll (VarbitFilesystemCodec.list storedOnly (fun _ => none) (oneFile 0 3)).2
      (fun id => (VarbitFilesystemCodec.load storedOnly (fun _ => none) (oneFile 0 3) id).2) := by
  have hlast : (oneFile 0 3).archives.lastKey = some 0 := by decide
  have hfile : (SortedMap.empty.insert 3 { data := [0] } : SortedMap ℤ ArchiveFile).lastKey =
      some 3 := by decide
  obtain ⟨henum, hstruct, hvarbit⟩ := @lists_all_iff storedOnly (fun _ => none)
    (oneFile 0 3) 0 _ hlast rfl
  refine ⟨henum.mpr (Or.inr ⟨3, hfile, ?_⟩), hstruct.mpr (Or.inr ⟨3, hfile, ?_⟩),
    hvarbit.mpr (Or.inr ⟨3, hfile, ?_⟩)⟩
  all_goals exact covered_of_lt (by decide) (by decide) hlast rfl hfile (by decide) (by decide)

/-- The varbit 32, in the second archive, is not listed; an enum archive without files is an
exception. -/
theorem not_lists_all_second :
    ¬ ListsAll (VarbitFilesystemCodec.list storedOnly (fun _ => none) (oneFile 1 0)).2
      (fun id => (VarbitFilesystemCodec.load storedOnly (fun _ => none) (oneFile 1 0) id).2) ∧
    ¬ ListsAll (EnumFilesystemCodec.list storedOnly (fun _ => none) (newTable 0)).2
      (fun id => (EnumFilesystemCodec.load storedOnly (fun _ => none) (newTable 0) id).2) := by
  constructor
  · intro hall
    rcases (listsAll_listBelow_iff count_through (k := 1) (by decide) rfl).mp hall with
      ⟨hnone, -⟩ | ⟨f, hf, hcovered⟩
    · cases hnone
    · have hzero : (0 : ℤ) = f := Option.some.inj hf
      subst hzero
      have hlt : ∀ id : Word, id.toNat < 11 → ∃ d, (VarbitFilesystemCodec.load storedOnly
          (fun _ => none) (oneFile 1 0) id).2 = .ok d := by
        intro id hid
        have harchive : ResourceType.getArchive id 5 = 0 := by
          rw [ResourceType.getArchive_eq (by decide), Nat.div_eq_of_lt (by omega)]
          rfl
        refine ⟨none, ?_⟩
        rw [VarbitFilesystemCodec.load, harchive]
        rfl
      exact absurd (hcovered hlt 32 [0] rfl rfl) (by decide)
  · intro hall
    rcases (listsAll_listBelow_iff count_until (k := 0) (by decide) rfl).mp hall with
      ⟨-, id, e, hid⟩ | ⟨f, hf, -⟩
    · rw [loadDefinition_newTable] at hid
      cases hid
    · cases hf

end OpenNXT.Resources
