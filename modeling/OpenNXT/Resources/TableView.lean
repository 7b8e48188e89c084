import OpenNXT.Resources.ConfigIndex
import OpenNXT.Resources.VarbitFilesystemCodec

/-! What the definitions of a table depend on: the files of the archives that are loaded, and what
is stored of the others. -/
namespace OpenNXT.Resources
open Buffer Data Filesystem

/-- Two states of an archive that definitions cannot tell apart. -/
inductive SameEntry (raw raw' : Option (List Byte)) (a a' : Archive) : Prop
  | same (hraw : raw' = raw) (ha : a' = a)
  | loaded (h : a.loaded = true) (h' : a'.loaded = true) (hfiles : a'.files = a.files)

structure SameView (read read' : ℤ → Option (List Byte)) (t t' : ReferenceTable) : Prop where
  keys : t'.archives.keys = t.archives.keys
  entries : ∀ k a a', t.archives.get? k = some a → t'.archives.get? k = some a' →
    SameEntry (read k) (read' k) a a'

/-- A use of a table that returns the same for both states, and leaves two of the kind. -/
def Respects {α : Type} (read read' : ℤ → Option (List Byte))
    (f f' : ReferenceTable → ReferenceTable × Except ResourceError α) : Prop :=
  ∀ t t', SameView read read' t t' →
    (f' t').2 = (f t).2 ∧ SameView read read' (f t).1 (f' t').1

section
variable {codecs : Codecs} {raw raw' : Option (List Byte)} {a a' : Archive}
  {read read' : ℤ → Option (List Byte)} {t t' : ReferenceTable}

theorem SameEntry.files (h : SameEntry raw raw' a a') : a'.files = a.files := by
  cases h with
  | same _ ha => rw [ha]
  | loaded _ _ hfiles => exact hfiles

theorem SameEntry.loadEntry (codecs : Codecs) (h : SameEntry raw raw' a a') :
    SameEntry raw raw' (ReferenceTable.loadEntry codecs raw a).1
      (ReferenceTable.loadEntry codecs raw' a').1 ∧
    ((ReferenceTable.loadEntry codecs raw' a').2 = (ReferenceTable.loadEntry codecs raw a).2 ∨
      ∃ b b', (ReferenceTable.loadEntry codecs raw a).2 = .returned (some b) ∧
        (ReferenceTable.loadEntry codecs raw' a').2 = .returned (some b') ∧ b'.files = b.files) := by
  cases h with
  | same hraw ha =>
    rw [hraw, ha]
    exact ⟨.same rfl rfl, Or.inl rfl⟩
  | loaded h h' hfiles =>
    rw [loadEntry_loaded h, loadEntry_loaded h']
    exact ⟨.loaded h h' hfiles, Or.inr ⟨a, a', rfl, rfl, hfiles⟩⟩

theorem SameView.get? (h : SameView read read' t t') (k : ℤ) :
    (t.archives.get? k = none ∧ t'.archives.get? k = none) ∨
      ∃ a a', t.archives.get? k = some a ∧ t'.archives.get? k = some a' ∧
        SameEntry (read k) (read' k) a a' := by
  by_cases hmem : k ∈ t.archives.keys
  · obtain ⟨a, ha⟩ := SortedMap.mem_keys.mp hmem
    rw [← h.keys] at hmem
    obtain ⟨a', ha'⟩ := SortedMap.mem_keys.mp hmem
    exact Or.inr ⟨a, a', ha, ha', h.entries k a a' ha ha'⟩
  · refine Or.inl ⟨SortedMap.get?_eq_none.mpr hmem, SortedMap.get?_eq_none.mpr ?_⟩
    rwa [h.keys]

theorem keys_loadArchive (k : ℤ) :
    (t.loadArchive codecs read k).1.archives.keys = t.archives.keys := by
  unfold ReferenceTable.loadArchive
  cases hget : t.archives.get? k with
  | none => rfl
  | some a => exact SortedMap.keys_insert_of_mem (SortedMap.mem_keys.mpr ⟨a, hget⟩) _

theorem respects_loadFiles (codecs : Codecs) (k : ℤ) : Respects read read' (fun t => loadFiles codecs read t k)
    (fun t => loadFiles codecs read' t k) := by
  intro t t' h
  refine ⟨?_, ?_, ?_⟩
  · simp only [loadFiles, loadArchive_outcome]
    rcases h.get? k with ⟨hnone, hnone'⟩ | ⟨a, a', ha, ha', hentry⟩
    · rw [hnone, hnone']
      rfl
    · rw [ha, ha']
      simp only [Option.map_some, Option.getD_some]
      rcases (hentry.loadEntry codecs).2 with hsame | ⟨b, b', hb, hb', hfiles⟩
      · rw [hsame]
      · rw [hb, hb']
        simp only [Option.map_some, hfiles]
  · simp only [loadFiles, keys_loadArchive, h.keys]
  · intro j b b' hb hb'
    simp only [loadFiles, get?_loadArchive] at hb hb'
    split_ifs at hb hb' with hj
    · subst hj
      obtain ⟨a, ha, rfl⟩ := Option.map_eq_some_iff.mp hb
      obtain ⟨a', ha', rfl⟩ := Option.map_eq_some_iff.mp hb'
      exact ((h.entries j a a' ha ha').loadEntry codecs).1
    · exact h.entries j b b' hb hb'

theorem respects_loadFile (codecs : Codecs) (k file : ℤ) : Respects read read' (fun t => loadFile codecs read t k file)
    (fun t => loadFile codecs read' t k file) := by
  intro t t' h
  obtain ⟨hfiles, hview⟩ := respects_loadFiles codecs k t t' h
  simp only [loadFile_eq]
  exact ⟨congrArg _ hfiles, hview⟩

theorem respects_loadDefinition {α : Type} (codecs : Codecs) (decode : List Byte → Option α) (k file : ℤ) :
    Respects read read' (fun t => loadDefinition codecs read decode t k file)
      (fun t => loadDefinition codecs read' decode t k file) := by
  intro t t' h
  obtain ⟨hfile, hview⟩ := respects_loadFile codecs k file t t' h
  exact ⟨congrArg (fun file => file.bind (decodeFile decode)) hfile, hview⟩

theorem respects_listFrom {α : Type}
    {load load' : ReferenceTable → Word → ReferenceTable × Except ResourceError (Option α)}
    (hload : ∀ id, Respects read read' (fun t => load t id) (fun t => load' t id))
    (ids : List Word) (result : SortedMap ℤ α) :
    Respects read read' (fun t => listFrom load ids t result)
      (fun t => listFrom load' ids t result) := by
  induction ids generalizing result with
  | nil => exact fun t t' h => ⟨rfl, h⟩
  | cons id ids ih =>
    intro t t' h
    obtain ⟨hsame, hview⟩ := hload id t t' h
    dsimp only at hsame hview
    simp only [listFrom, hsame]
    cases (load t id).2 with
    | error e => exact ⟨rfl, hview⟩
    | ok d =>
      cases d with
      | none => exact ih result _ _ hview
      | some d => exact ih _ _ _ hview

/-- A bound that depends on the numbers of archives and files alone. -/
theorem respects_listBelow {α : Type}
    {load load' : ReferenceTable → Word → ReferenceTable × Except ResourceError (Option α)}
    (hload : ∀ id, Respects read read' (fun t => load t id) (fun t => load' t id))
    {count : ReferenceTable → Except ResourceError ℕ}
    (hcount : ∀ t t', SameView read read' t t' → count t' = count t) :
    Respects read read' (fun t => listBelow load (count t) t)
      (fun t => listBelow load' (count t) t) := by
  intro t t' h
  dsimp only
  rw [hcount t t' h]
  cases count t with
  | error e => exact ⟨rfl, h⟩
  | ok n => exact respects_listFrom hload _ _ t t' h

theorem SameView.getMaxId (h : SameView read read' t t') (missing : Except ResourceError Word)
    (filesPerArchive : ℤ) :
    Resources.getMaxId missing filesPerArchive t' = Resources.getMaxId missing filesPerArchive t := by
  have hlast : t'.highestEntry = t.highestEntry := by
    rw [ReferenceTable.highestEntry, SortedMap.lastKey, h.keys]
    rfl
  unfold Resources.getMaxId
  rw [hlast]
  rcases h.get? (t.highestEntry - 1) with ⟨hnone, hnone'⟩ | ⟨a, a', ha, ha', hentry⟩
  · simp only [hnone, hnone']
  · simp only [ha, ha', hentry.files]

theorem SameView.paramMaxId (h : SameView read read' t t') :
    ParamFilesystemCodec.getMaxId t' = ParamFilesystemCodec.getMaxId t := by
  unfold ParamFilesystemCodec.getMaxId
  rcases h.get? 11 with ⟨hnone, hnone'⟩ | ⟨a, a', ha, ha', hentry⟩
  · rw [hnone, hnone']
  · simp only [ha, ha', hentry.files]

section Vars
open VarDefinitionFilesystemCodec

theorem SameView.candidateArchives (h : SameView read read' t t') (archives : List ℤ) :
    VarDefinitionFilesystemCodec.candidateArchives archives t' =
      VarDefinitionFilesystemCodec.candidateArchives archives t := by
  unfold VarDefinitionFilesystemCodec.candidateArchives
  rw [h.keys]

theorem respects_loadFrom (codecs : Codecs) (id : ℤ) (archives : List ℤ) :
    Respects read read' (loadFrom codecs read id archives) (loadFrom codecs read' id archives) := by
  induction archives with
  | nil => exact fun t t' h => ⟨rfl, h⟩
  | cons archive archives ih =>
    intro t t' h
    obtain ⟨hsame, hview⟩ := respects_loadFile codecs archive id t t' h
    dsimp only at hsame hview
    simp only [loadFrom, hsame]
    cases (loadFile codecs read t archive id).2 with
    | error e => exact ⟨rfl, hview⟩
    | ok data =>
      cases data with
      | none => exact ih _ _ hview
      | some data => exact ⟨rfl, hview⟩

theorem respects_listArchives (codecs : Codecs) (archives : List ℤ) (result : SortedMap ℤ VarDefinition) :
    Respects read read' (fun t => listArchives codecs read archives t result)
      (fun t => listArchives codecs read' archives t result) := by
  induction archives generalizing result with
  | nil => exact fun t t' h => ⟨rfl, h⟩
  | cons archive archives ih =>
    intro t t' h
    obtain ⟨hsame, hview⟩ := respects_loadFiles codecs archive t t' h
    dsimp only at hsame hview
    simp only [listArchives, hsame]
    cases (loadFiles codecs read t archive).2 with
    | error e => exact ⟨rfl, hview⟩
    | ok files =>
      cases files with
      | none => exact ih result _ _ hview
      | some files =>
        dsimp only
        cases listFiles files result with
        | none => exact ⟨rfl, hview⟩
        | some result => exact ih result _ _ hview

end Vars

end

end OpenNXT.Resources
