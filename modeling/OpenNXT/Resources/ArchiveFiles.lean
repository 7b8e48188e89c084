import OpenNXT.Buffer.GrowingBuffer
import OpenNXT.Filesystem.TableUpdate

/-! Definitions as files of the archives of a table: what the codecs of every type do to load and
to store one. -/
namespace OpenNXT.Resources
open Buffer Data Filesystem

/-- Where an exception comes from. -/
inductive ResourceError
  | table
  | container
  | payload
  | definition
  /-- "index … table". -/
  | noTable
  /-- "failed to create or get archive". -/
  | noArchive
  /-- An archive that is `null`. -/
  | nullArchive
  /-- The key of a map that is empty. -/
  | noElement
  deriving DecidableEq

namespace ResourceType

def getArchive (id : Word) (size : ℕ) : ℤ := (id >>> size).toInt

def getFile (id : Word) (size : ℕ) : ℤ := (id &&& ((1 : Word) <<< size - 1)).toInt

section
variable {size : ℕ}

theorem getArchive_eq (hpos : 0 < size) (id : Word) :
    getArchive id size = (id.toNat / 2 ^ size : ℕ) := by
  have hid := id.isLt
  have htwo : 2 ^ 1 ≤ 2 ^ size := Nat.pow_le_pow_right (by omega) hpos
  have hlt : id.toNat / 2 ^ size < 2 ^ 31 :=
    lt_of_le_of_lt (Nat.div_le_div_left htwo (by omega)) (by omega)
  rw [getArchive, BitVec.toInt_eq_toNat_of_lt] <;>
    rw [BitVec.toNat_ushiftRight, Nat.shiftRight_eq_div_pow]
  omega

theorem getFile_eq (hsize : size < 32) (id : Word) :
    getFile id size = (id.toNat % 2 ^ size : ℕ) := by
  have hpow : 2 ^ size ≤ 2 ^ 31 := Nat.pow_le_pow_right (by omega) (by omega)
  have hpos : 0 < 2 ^ size := Nat.two_pow_pos size
  have hmask : ((1 : Word) <<< size - 1).toNat = 2 ^ size - 1 := by
    have hone : ((1 : Word) <<< size).toNat = 2 ^ size := by
      rw [BitVec.toNat_shiftLeft, show (1 : Word).toNat = 1 from rfl, Nat.shiftLeft_eq, Nat.one_mul]
      omega
    rw [BitVec.toNat_sub, hone, show (1 : Word).toNat = 1 from rfl]
    omega
  have hand : (id &&& ((1 : Word) <<< size - 1)).toNat = id.toNat % 2 ^ size := by
    rw [BitVec.toNat_and, hmask, Nat.and_two_pow_sub_one_eq_mod]
  have hlt := Nat.mod_lt id.toNat hpos
  rw [getFile, BitVec.toInt_eq_toNat_of_lt] <;> rw [hand]
  omega

end

end ResourceType

section
variable (codecs : Codecs) (read : ℤ → Option (List Byte))

/-- The data of a file, which may not be there. -/
def loadFile (t : ReferenceTable) (archive file : ℤ) :
    ReferenceTable × Except ResourceError (Option (List Byte)) :=
  let loaded := t.loadArchive codecs read archive
  (loaded.1, match loaded.2 with
    | .returned (some a) => .ok ((a.files.get? file).map (·.data))
    | .returned none => .ok none
    | .containerThrown => .error .container
    | .payloadThrown => .error .payload)

/-- The files of an archive, which may not be there. -/
def loadFiles (t : ReferenceTable) (archive : ℤ) :
    ReferenceTable × Except ResourceError (Option (SortedMap ℤ ArchiveFile)) :=
  let loaded := t.loadArchive codecs read archive
  (loaded.1, match loaded.2 with
    | .returned a => .ok (a.map (·.files))
    | .containerThrown => .error .container
    | .payloadThrown => .error .payload)

theorem loadFile_eq (t : ReferenceTable) (archive file : ℤ) :
    loadFile codecs read t archive file = ((loadFiles codecs read t archive).1,
      (loadFiles codecs read t archive).2.map fun files =>
        files.bind fun files => (files.get? file).map (·.data)) := by
  unfold loadFile loadFiles
  dsimp only
  cases (t.loadArchive codecs read archive).2 with
  | returned a =>
    cases a with
    | none => rfl
    | some a => rfl
  | containerThrown => rfl
  | payloadThrown => rfl

/-- What a file is decoded to; `none` is an exception. -/
def decodeFile {α : Type} (decode : List Byte → Option α) :
    Option (List Byte) → Except ResourceError (Option α)
  | none => .ok none
  | some data =>
    match decode data with
    | none => .error .definition
    | some d => .ok (some d)

theorem decodeFile_eq {α : Type} {decode : List Byte → Option α} {data : List Byte} {d : α} :
    decodeFile decode (some data) = .ok (some d) ↔ decode data = some d := by
  cases hdecode : decode data <;> simp [decodeFile, hdecode]

theorem bind_decodeFile_eq {α : Type} {decode : List Byte → Option α}
    {file : Except ResourceError (Option (List Byte))} {d : α} :
    file.bind (decodeFile decode) = .ok (some d) ↔
      ∃ data, file = .ok (some data) ∧ decode data = some d := by
  cases file with
  | error e => simp [Except.bind]
  | ok data =>
    cases data with
    | none => simp [Except.bind, decodeFile]
    | some data => simp [Except.bind, decodeFile_eq]

def loadDefinition {α : Type} (decode : List Byte → Option α) (t : ReferenceTable)
    (archive file : ℤ) : ReferenceTable × Except ResourceError (Option α) :=
  let data := loadFile codecs read t archive file
  (data.1, data.2.bind (decodeFile decode))

/-- The file is put into the archive of the table; an archive that is created is in no table.
`none` is a loop that goes on. -/
def storeDefinition (t : ReferenceTable) (archive file : ℤ)
    (encoded : Option (Except PutError (List Byte))) :
    Option (ReferenceTable × Except ResourceError Unit) :=
  let loaded := t.loadOrCreateArchive codecs read archive
  match loaded.2 with
  | .returned (some _) => encoded.map fun attempt =>
      match attempt with
      | .ok bytes => (loaded.1.putFile archive file bytes, .ok ())
      | .error _ => (loaded.1, .error .definition)
  | .returned none => some (loaded.1, .error .noArchive)
  | .containerThrown => some (loaded.1, .error .container)
  | .payloadThrown => some (loaded.1, .error .payload)

/-- The archive is in the table, and is loaded or can be. -/
def Available (t : ReferenceTable) (archive : ℤ) : Prop :=
  ∃ a, (t.loadArchive codecs read archive).2 = .returned (some a)

end

section Entry
variable {codecs : Codecs} {raw : Option (List Byte)} {a b : Archive}

theorem loadEntry_loaded (h : a.loaded = true) :
    ReferenceTable.loadEntry codecs raw a = (a, .returned (some a)) := by
  unfold ReferenceTable.loadEntry
  rw [if_pos h]

/-- An entry stays, or is loaded from then on. -/
theorem loadEntry_cases (h : a.loaded = false) :
    (∃ outcome, ReferenceTable.loadEntry codecs raw a = (a, outcome) ∧
      (outcome = .returned none ∨ outcome = .containerThrown)) ∨
    ∃ b, b.loaded = true ∧ (ReferenceTable.loadEntry codecs raw a = (b, .returned (some b)) ∨
      ReferenceTable.loadEntry codecs raw a = (b, .payloadThrown)) := by
  unfold ReferenceTable.loadEntry
  rw [if_neg (Bool.eq_false_iff.mp h)]
  cases raw with
  | none => exact Or.inl ⟨_, rfl, Or.inl rfl⟩
  | some stored =>
    dsimp only
    cases Container.decode codecs stored with
    | none => exact Or.inl ⟨_, rfl, Or.inr rfl⟩
    | some container =>
      dsimp only
      by_cases hlimit : maxArray ≤ container.data.length
      · rw [if_pos hlimit]
        exact Or.inl ⟨_, rfl, Or.inr rfl⟩
      · rw [if_neg hlimit]
        refine Or.inr ⟨_, Archive.loaded_decodeInPlace a container.data, ?_⟩
        cases (a.decodeInPlace container.data).thrown with
        | true => exact Or.inr rfl
        | false => exact Or.inl rfl

theorem setData_keys (files : SortedMap ℤ ArchiveFile) (data : List (List Byte)) :
    (Archive.setData files data).keys = files.keys := by
  have hfold (es : List (ℤ × List Byte)) (m : SortedMap ℤ ArchiveFile) :
      (es.foldl (fun m e => m.modify e.1 fun file => { file with data := e.2 }) m).keys =
        m.keys := by
    induction es generalizing m with
    | nil => rfl
    | cons e es ih => rw [List.foldl_cons, ih, SortedMap.keys_modify]
  exact hfold _ files

/-- Loading an archive gives its files data, and no other files. -/
theorem keys_loadEntry (codecs : Codecs) (raw : Option (List Byte)) (a : Archive) :
    (ReferenceTable.loadEntry codecs raw a).1.files.keys = a.files.keys := by
  have hdecode (buffer : List Byte) :
      (a.decodeInPlace buffer).state.files.keys = a.files.keys := by
    unfold Archive.decodeInPlace
    split_ifs
    · exact setData_keys _ _
    · cases Archive.readSizeTable a.files.size buffer with
      | none => rfl
      | some chunkSizes =>
        dsimp only
        split_ifs
        · exact setData_keys _ _
        · exact setData_keys _ _
  unfold ReferenceTable.loadEntry
  split_ifs
  · rfl
  · cases raw with
    | none => rfl
    | some raw =>
      dsimp only
      cases Container.decode codecs raw with
      | none => rfl
      | some container =>
        dsimp only
        split_ifs
        · rfl
        · exact hdecode container.data
        · exact hdecode container.data

/-- An archive that is returned is the one of the table from then on, and loaded. -/
theorem loadEntry_returned (h : (ReferenceTable.loadEntry codecs raw a).2 = .returned (some b)) :
    (ReferenceTable.loadEntry codecs raw a).1 = b ∧ b.loaded = true := by
  cases hloaded : a.loaded with
  | true =>
    rw [loadEntry_loaded hloaded] at h ⊢
    cases h
    exact ⟨rfl, hloaded⟩
  | false =>
    obtain ⟨outcome, hentry, rfl | rfl⟩ | ⟨c, hc, hentry | hentry⟩ :=
      loadEntry_cases hloaded
    all_goals
      rw [hentry] at h ⊢
      cases h
    exact ⟨rfl, hc⟩

/-- Loading again ends the same way, unless the payload was refused. -/
theorem loadEntry_again (h : (ReferenceTable.loadEntry codecs raw a).2 ≠ .payloadThrown) :
    ReferenceTable.loadEntry codecs raw (ReferenceTable.loadEntry codecs raw a).1 =
      ReferenceTable.loadEntry codecs raw a := by
  cases hloaded : a.loaded with
  | true => rw [loadEntry_loaded hloaded, loadEntry_loaded hloaded]
  | false =>
    obtain ⟨outcome, hentry, -⟩ | ⟨c, hc, hentry | hentry⟩ :=
      loadEntry_cases hloaded
    · rw [hentry, hentry]
    · rw [hentry, loadEntry_loaded hc]
    · rw [hentry] at h
      exact absurd rfl h

end Entry

section Table
variable {codecs : Codecs} {read : ℤ → Option (List Byte)} {t : ReferenceTable}

/-- What loading a file returns. -/
def fileAt (codecs : Codecs) (read : ℤ → Option (List Byte)) (t : ReferenceTable)
    (archive file : ℤ) : Except ResourceError (Option (List Byte)) :=
  (loadFile codecs read t archive file).2

theorem loadArchive_outcome (k : ℤ) : (t.loadArchive codecs read k).2 =
    ((t.archives.get? k).map fun a => (ReferenceTable.loadEntry codecs (read k) a).2).getD
      (.returned none) := by
  unfold ReferenceTable.loadArchive
  cases t.archives.get? k with
  | none => rfl
  | some a => rfl

theorem get?_loadArchive (k j : ℤ) : (t.loadArchive codecs read k).1.archives.get? j =
    if j = k then (t.archives.get? k).map fun a => (ReferenceTable.loadEntry codecs (read k) a).1
    else t.archives.get? j := by
  unfold ReferenceTable.loadArchive
  cases hget : t.archives.get? k with
  | none =>
    split_ifs with hj
    · rw [hj]
      exact hget
    · rfl
  | some a => exact SortedMap.get?_insert _ _ _ _

/-- Loading one archive changes nothing for the others, nor for itself. -/
theorem loadArchive_again {k : ℤ} (h : (t.loadArchive codecs read k).2 ≠ .payloadThrown) (j : ℤ) :
    ((t.loadArchive codecs read k).1.loadArchive codecs read j).2 =
      (t.loadArchive codecs read j).2 := by
  rw [loadArchive_outcome, loadArchive_outcome, get?_loadArchive]
  split_ifs with hj
  · subst hj
    rw [loadArchive_outcome] at h
    cases hget : t.archives.get? j with
    | none => rfl
    | some a =>
      rw [hget] at h
      simp only [Option.map_some, Option.getD_some] at h ⊢
      rw [loadEntry_again h]
  · rfl

/-- An archive that is returned stands in the table, loaded. -/
theorem get?_of_returned {k : ℤ} {b : Archive}
    (h : (t.loadArchive codecs read k).2 = .returned (some b)) :
    (t.loadArchive codecs read k).1.archives.get? k = some b ∧ b.loaded = true := by
  rw [loadArchive_outcome] at h
  rw [get?_loadArchive, if_pos rfl]
  cases hget : t.archives.get? k with
  | none =>
    rw [hget] at h
    cases h
  | some a =>
    rw [hget] at h
    obtain ⟨hsame, hloaded⟩ := loadEntry_returned h
    exact ⟨congrArg some hsame, hloaded⟩

/-- A file that is loaded is one that the table has for its archive. -/
theorem file_of_fileAt {k f : ℤ} {data : List Byte} (h : fileAt codecs read t k f = .ok (some data)) :
    ∃ a, t.archives.get? k = some a ∧ f ∈ a.files.keys := by
  unfold fileAt loadFile at h
  dsimp only at h
  cases houtcome : (t.loadArchive codecs read k).2 with
  | returned archive =>
    cases archive with
    | none =>
      rw [houtcome] at h
      cases h
    | some b =>
      rw [houtcome] at h
      obtain ⟨file, hfile, -⟩ := Option.map_eq_some_iff.mp (Except.ok.inj h)
      obtain ⟨hget, -⟩ := get?_of_returned houtcome
      rw [get?_loadArchive, if_pos rfl] at hget
      obtain ⟨a, ha, rfl⟩ := Option.map_eq_some_iff.mp hget
      refine ⟨a, ha, ?_⟩
      rw [← keys_loadEntry codecs (read k)]
      exact SortedMap.mem_keys.mpr ⟨file, hfile⟩
  | containerThrown =>
    rw [houtcome] at h
    cases h
  | payloadThrown =>
    rw [houtcome] at h
    cases h

theorem loadOrCreateArchive_eq {k : ℤ} (h : (t.archives.get? k).isSome) :
    t.loadOrCreateArchive codecs read k = t.loadArchive codecs read k := by
  obtain ⟨a, ha⟩ := Option.isSome_iff_exists.mp h
  unfold ReferenceTable.loadOrCreateArchive ReferenceTable.loadArchive
  rw [ha]

theorem loadArchive_putFile {k : ℤ} {b : Archive}
    (h : (t.loadArchive codecs read k).2 = .returned (some b)) (f : ℤ) (bytes : List Byte) (j : ℤ) :
    (((t.loadArchive codecs read k).1.putFile k f bytes).loadArchive codecs read j).2 =
      if j = k then .returned (some (b.putFile f bytes)) else (t.loadArchive codecs read j).2 := by
  obtain ⟨hget, hloaded⟩ := get?_of_returned h
  rw [loadArchive_outcome, ReferenceTable.putFile, SortedMap.get?_modify]
  split_ifs with hj
  · subst hj
    rw [hget]
    simp only [Option.map_some, Option.getD_some]
    rw [loadEntry_loaded (by exact hloaded)]
  · rw [get?_loadArchive, if_neg hj, ← loadArchive_outcome]

/-- Only the file that was put is another one. -/
theorem fileAt_putFile {k : ℤ} (h : Available codecs read t k) (f : ℤ) (bytes : List Byte)
    (j g : ℤ) : fileAt codecs read ((t.loadArchive codecs read k).1.putFile k f bytes) j g =
      if j = k ∧ g = f then .ok (some bytes) else fileAt codecs read t j g := by
  obtain ⟨b, hb⟩ := h
  simp only [fileAt, loadFile]
  rw [loadArchive_putFile hb]
  by_cases hj : j = k
  · subst hj
    rw [if_pos rfl, hb]
    simp only [Archive.putFile, SortedMap.get?_insert, true_and]
    by_cases hg : g = f
    · rw [if_pos hg, if_pos hg]
      rfl
    · rw [if_neg hg, if_neg hg]
  · rw [if_neg hj, if_neg fun h => hj h.1]

/-- A store that returns puts one file. -/
theorem storeDefinition_eq_some_iff {k f : ℤ} {encoded : Option (Except PutError (List Byte))}
    {t' : ReferenceTable} (hin : (t.archives.get? k).isSome) :
    storeDefinition codecs read t k f encoded = some (t', .ok ()) ↔
      Available codecs read t k ∧ ∃ bytes, encoded = some (.ok bytes) ∧
        t' = (t.loadArchive codecs read k).1.putFile k f bytes := by
  unfold storeDefinition Available
  rw [loadOrCreateArchive_eq hin]
  dsimp only
  cases (t.loadArchive codecs read k).2 with
  | returned archive =>
    cases archive with
    | none => simp
    | some a =>
      cases encoded with
      | none => simp
      | some attempt =>
        cases attempt with
        | error e => simp
        | ok bytes => simp [eq_comm]
  | containerThrown => simp
  | payloadThrown => simp

/-- The definition is stored, as one file, and loaded again. -/
def Restores {α : Type} (codecs : Codecs) (read : ℤ → Option (List Byte))
    (store : ℕ → Option (ReferenceTable × Except ResourceError Unit))
    (load : ReferenceTable → ReferenceTable × Except ResourceError (Option α)) (t : ReferenceTable)
    (archive file : ℤ) (d : α) : Prop :=
  ∃ rounds bytes t', store rounds = some (t', .ok ()) ∧
    t' = (t.loadArchive codecs read archive).1.putFile archive file bytes ∧
    (load t').2 = .ok (some d)

theorem restores_iff {α : Type} {decode : List Byte → Option α}
    {encode : ℕ → Option (Except PutError (List Byte))} {k f g : ℤ} {d : α}
    (hin : (t.archives.get? k).isSome) :
    Restores codecs read (fun rounds => storeDefinition codecs read t k f (encode rounds))
        (fun t' => loadDefinition codecs read decode t' k g) t k f d ↔
      Available codecs read t k ∧ ∃ rounds bytes, encode rounds = some (.ok bytes) ∧
        (if g = f then .ok (some bytes) else fileAt codecs read t k g).bind (decodeFile decode) =
          .ok (some d) := by
  have hload : Available codecs read t k → ∀ bytes, (loadDefinition codecs read decode
      ((t.loadArchive codecs read k).1.putFile k f bytes) k g).2 =
        (if g = f then .ok (some bytes) else fileAt codecs read t k g).bind (decodeFile decode) := by
    intro hk bytes
    have hfile := fileAt_putFile hk f bytes k g
    simp only [true_and] at hfile
    rw [← hfile]
    rfl
  constructor
  · rintro ⟨rounds, bytes, t', hstore, rfl, hd⟩
    obtain ⟨hk, bytes', hencode, hsame⟩ := (storeDefinition_eq_some_iff hin).mp hstore
    refine ⟨hk, rounds, bytes', hencode, ?_⟩
    rw [← hload hk, ← hsame]
    exact hd
  · rintro ⟨hk, rounds, bytes, hencode, hd⟩
    refine ⟨rounds, bytes, _, (storeDefinition_eq_some_iff hin).mpr ⟨hk, bytes, hencode, rfl⟩, rfl, ?_⟩
    rw [hload hk]
    exact hd

/-- A table of one archive that has no file yet. -/
def newTable (archive : ℤ) : ReferenceTable where
  archives := SortedMap.empty.insert archive { loaded := true }

theorem get?_newTable (archive : ℤ) :
    (newTable archive).archives.get? archive = some { loaded := true } := by
  rw [newTable, SortedMap.get?_insert, if_pos rfl]

theorem available_newTable (archive : ℤ) : Available codecs read (newTable archive) archive :=
  ⟨{ loaded := true }, by
    rw [loadArchive_outcome, get?_newTable, Option.map_some, loadEntry_loaded rfl, Option.getD_some]⟩

theorem loadDefinition_newTable {α : Type} {decode : List Byte → Option α} (archive k f : ℤ) :
    (loadDefinition codecs read decode (newTable archive) k f).2 = .ok none := by
  simp only [loadDefinition, loadFile, loadArchive_outcome, newTable, SortedMap.get?_insert]
  split_ifs
  · rfl
  · rfl

end Table

end OpenNXT.Resources
