import OpenNXT.Resources.KeptTable

/-! The codecs of the twelve types of resources, over the indices of one file system. -/
namespace OpenNXT.Resources
open Buffer Data Filesystem
open Filesystem.ReferenceTable (storedOnly)

inductive ResourceType
  | enum | param | struct | varPlayer | varNpc | varClient | varWorld | varRegion | varObject
  | varClan | varClanSetting | varbit
  deriving DecidableEq

abbrev ResourceType.Definition : ResourceType → Type
  | .enum => EnumDefinition
  | .param => ParamDefinition
  | .struct => StructDefinition
  | .varbit => VarbitDefinition
  | _ => VarDefinition

/-- What a codec does with the table of its index. A store is told in which order it meets the
entries of a map, and for how many rounds it may go on. -/
structure FilesystemResourceCodec (α : Type) where
  index : ℕ
  load : Codecs → (ℤ → Option (List Byte)) → ReferenceTable → Word →
    ReferenceTable × Except ResourceError (Option α)
  list : Codecs → (ℤ → Option (List Byte)) → ReferenceTable →
    ReferenceTable × Except ResourceError (SortedMap ℤ α)
  store : Codecs → (ℤ → Option (List Byte)) → ReferenceTable → Word → α → List (ℤ × ScriptValue) →
    ℕ → Option (ReferenceTable × Except ResourceError Unit)

namespace VarConfigArchiveGroups

def player : List ℤ := []
def npc : List ℤ := []
def client : List ℤ := []
def world : List ℤ := []
def region : List ℤ := []
def object : List ℤ := []
def clan : List ℤ := []
def clanSetting : List ℤ := []

end VarConfigArchiveGroups

def enumCodec : FilesystemResourceCodec EnumDefinition where
  index := 17
  load := EnumFilesystemCodec.load
  list := EnumFilesystemCodec.list
  store := EnumFilesystemCodec.store

def paramCodec : FilesystemResourceCodec ParamDefinition where
  index := 2
  load := ParamFilesystemCodec.load
  list := ParamFilesystemCodec.list
  store codecs read t id data _ rounds := ParamFilesystemCodec.store codecs read t id data rounds

def structCodec : FilesystemResourceCodec StructDefinition where
  index := 22
  load := StructFilesystemCodec.load
  list := StructFilesystemCodec.list
  store := StructFilesystemCodec.store

def varCodec (archiveCandidates : List ℤ) : FilesystemResourceCodec VarDefinition where
  index := 2
  load codecs read := VarDefinitionFilesystemCodec.load codecs read archiveCandidates
  list codecs read := VarDefinitionFilesystemCodec.list codecs read archiveCandidates
  store codecs read t id data _ _ :=
    VarDefinitionFilesystemCodec.store codecs read archiveCandidates t id data

def varbitCodec : FilesystemResourceCodec VarbitDefinition where
  index := 22
  load := VarbitFilesystemCodec.load
  list := VarbitFilesystemCodec.list
  store codecs read t id data _ _ := VarbitFilesystemCodec.store codecs read t id data

def fsCodices : (type : ResourceType) → FilesystemResourceCodec type.Definition
  | .enum => enumCodec
  | .param => paramCodec
  | .struct => structCodec
  | .varPlayer => varCodec VarConfigArchiveGroups.player
  | .varNpc => varCodec VarConfigArchiveGroups.npc
  | .varClient => varCodec VarConfigArchiveGroups.client
  | .varWorld => varCodec VarConfigArchiveGroups.world
  | .varRegion => varCodec VarConfigArchiveGroups.region
  | .varObject => varCodec VarConfigArchiveGroups.object
  | .varClan => varCodec VarConfigArchiveGroups.clan
  | .varClanSetting => varCodec VarConfigArchiveGroups.clanSetting
  | .varbit => varbitCodec

/-- One index: whether its table was looked for, the table once it was read, and what is stored. -/
structure IndexState where
  checked : Bool := false
  cached : Option ReferenceTable := none
  store : Store

namespace IndexState

def getReferenceTable (codecs : Codecs) (s : IndexState) :
    IndexState × Except ResourceError (Option ReferenceTable) :=
  match s.cached with
  | some t => (s, .ok (some t))
  | none =>
    if s.checked then (s, .ok none)
    else
      let s := { s with checked := true }
      if s.store.referenceTable = none then (s, .ok none)
      else
        match s.store.getReferenceTable codecs with
        | none => (s, .error .table)
        | some t => ({ s with cached := some t }, .ok (some t))

/-- A use of the table; `missing` is what is returned without one. -/
def use {α : Type} (codecs : Codecs) (missing : Except ResourceError α)
    (f : (ℤ → Option (List Byte)) → ReferenceTable → ReferenceTable × Except ResourceError α)
    (s : IndexState) : IndexState × Except ResourceError α :=
  let found := s.getReferenceTable codecs
  match found.2 with
  | .error e => (found.1, .error e)
  | .ok none => (found.1, missing)
  | .ok (some t) =>
    let used := f found.1.store.read t
    ({ found.1 with cached := some used.1 }, used.2)

def update (codecs : Codecs) (s : IndexState) : Option IndexState :=
  match s.cached with
  | none => some s
  | some t => do
    let (t, store) ← t.update codecs s.store
    return { s with cached := some t, store := store }

end IndexState

abbrev Indices := ℕ → IndexState

section
variable (codecs : Codecs) (type : ResourceType) (fs : Indices)

def load (id : Word) : Indices × Except ResourceError (Option type.Definition) :=
  let codec := fsCodices type
  let used := (fs codec.index).use codecs (.ok none) fun read t => codec.load codecs read t id
  (Function.update fs codec.index used.1, used.2)

def list : Indices × Except ResourceError (SortedMap ℤ type.Definition) :=
  let codec := fsCodices type
  let used := (fs codec.index).use codecs (.ok .empty) fun read t => codec.list codecs read t
  (Function.update fs codec.index used.1, used.2)

/-- `none` is a store that goes on. -/
def store (id : Word) (data : type.Definition) (order : List (ℤ × ScriptValue)) (rounds : ℕ) :
    Option (Indices × Except ResourceError Unit) :=
  let codec := fsCodices type
  let found := (fs codec.index).getReferenceTable codecs
  match found.2 with
  | .error e => some (Function.update fs codec.index found.1, .error e)
  | .ok none => some (Function.update fs codec.index found.1, .error .noTable)
  | .ok (some t) =>
    (codec.store codecs found.1.store.read t id data order rounds).map fun stored =>
      (Function.update fs codec.index { found.1 with cached := some stored.1 }, stored.2)

/-- Every table that was read is written back; `none` is an exception. -/
def update : Option Indices :=
  (List.range 255).foldlM (fun fs i => do
    let s ← (fs i).update codecs
    return Function.update fs i s) fs

end

/-- States of a file system from whatever is stored at first. -/
inductive Reachable (codecs : Codecs) : Indices → Prop
  | opened (stored : ℕ → Store) : Reachable codecs fun i => { store := stored i }
  | load {fs : Indices} (h : Reachable codecs fs) (type : ResourceType) (id : Word) :
      Reachable codecs (load codecs type fs id).1
  | list {fs : Indices} (h : Reachable codecs fs) (type : ResourceType) :
      Reachable codecs (list codecs type fs).1
  | store {fs fs' : Indices} (h : Reachable codecs fs) {type : ResourceType} {id : Word}
      {data : type.Definition} {order : List (ℤ × ScriptValue)} {rounds : ℕ}
      {result : Except ResourceError Unit}
      (hstore : store codecs type fs id data order rounds = some (fs', result)) :
      Reachable codecs fs'
  | update {fs fs' : Indices} (h : Reachable codecs fs) (hupdate : update codecs fs = some fs') :
      Reachable codecs fs'

/-- What every codec keeps to: it sees no more of a table than its files, only loads archives when
it loads or lists, and puts files only into archives that are loaded. -/
structure Lawful {α : Type} (codec : FilesystemResourceCodec α) : Prop where
  load : ∀ codecs read read' id, Respects read read' (fun t => codec.load codecs read t id)
    (fun t => codec.load codecs read' t id)
  list : ∀ codecs read read', Respects read read' (codec.list codecs read) (codec.list codecs read')
  loads : ∀ codecs read id, OnlyLoads codecs read fun t => codec.load codecs read t id
  lists : ∀ codecs read, OnlyLoads codecs read (codec.list codecs read)
  kept : ∀ {codecs read t id data order rounds t' result}, Kept t →
    codec.store codecs read t id data order rounds = some (t', result) → Kept t'

section Lawful

theorem lawful_enum : Lawful enumCodec where
  load _ _ _ _ := respects_loadDefinition _ _ _ _
  list _ _ _ := respects_listBelow (fun _ => respects_loadDefinition _ _ _ _)
    fun _ _ h => congrArg _ (h.getMaxId _ _)
  loads _ _ _ := onlyLoads_loadDefinition _ _ _
  lists _ _ := onlyLoads_listBelow (fun _ => onlyLoads_loadDefinition _ _ _) _
  kept := kept_storeDefinition

theorem lawful_param : Lawful paramCodec where
  load _ _ _ _ := respects_loadDefinition _ _ _ _
  list _ _ _ := respects_listBelow (fun _ => respects_loadDefinition _ _ _ _)
    fun _ _ h => congrArg _ h.paramMaxId
  loads _ _ _ := onlyLoads_loadDefinition _ _ _
  lists _ _ := onlyLoads_listBelow (fun _ => onlyLoads_loadDefinition _ _ _) _
  kept := kept_storeDefinition

theorem lawful_struct : Lawful structCodec where
  load _ _ _ _ := respects_loadDefinition _ _ _ _
  list _ _ _ := respects_listBelow (fun _ => respects_loadDefinition _ _ _ _)
    fun _ _ h => congrArg _ (h.getMaxId _ _)
  loads _ _ _ := onlyLoads_loadDefinition _ _ _
  lists _ _ := onlyLoads_listBelow (fun _ => onlyLoads_loadDefinition _ _ _) _
  kept := kept_storeDefinition

theorem lawful_var (archiveCandidates : List ℤ) : Lawful (varCodec archiveCandidates) where
  load codecs read read' id t t' h := by
    simp only [varCodec, VarDefinitionFilesystemCodec.load, h.candidateArchives]
    exact respects_loadFrom _ _ _ t t' h
  list codecs read read' t t' h := by
    simp only [varCodec, VarDefinitionFilesystemCodec.list, h.candidateArchives]
    exact respects_listArchives _ _ _ t t' h
  loads _ _ _ _ := onlyLoads_loadFrom _ _ _
  lists _ _ _ := onlyLoads_listArchives _ _ _
  kept := kept_storeDefinition

theorem lawful_varbit : Lawful varbitCodec where
  load _ _ _ _ := respects_loadDefinition _ _ _ _
  list _ _ _ := respects_listBelow (fun _ => respects_loadDefinition _ _ _ _)
    fun _ _ h => congrArg _ (h.getMaxId _ _)
  loads _ _ _ := onlyLoads_loadDefinition _ _ _
  lists _ _ := onlyLoads_listBelow (fun _ => onlyLoads_loadDefinition _ _ _) _
  kept := kept_storeDefinition

theorem lawful_fsCodices (type : ResourceType) : Lawful (fsCodices type) := by
  cases type with
  | enum => exact lawful_enum
  | param => exact lawful_param
  | struct => exact lawful_struct
  | varbit => exact lawful_varbit
  | _ => exact lawful_var _

end Lawful

/-- The table of an index, if it was read, is one whose changed archives are loaded. -/
def IndexState.Kept (s : IndexState) : Prop := ∀ t, s.cached = some t → Resources.Kept t

section IndexState
variable {codecs : Codecs} {s s' : IndexState}

theorem kept_getReferenceTable (codecs : Codecs) (h : s.Kept) : (s.getReferenceTable codecs).1.Kept ∧
    ∀ t, (s.getReferenceTable codecs).2 = .ok (some t) → Kept t := by
  unfold IndexState.getReferenceTable
  cases hcached : s.cached with
  | some t =>
    refine ⟨h, fun t' ht' => ?_⟩
    cases ht'
    exact h t hcached
  | none =>
    dsimp only
    split_ifs with hchecked hmissing
    · exact ⟨h, fun t ht => nomatch ht⟩
    · exact ⟨fun t ht => (nomatch ht), fun t ht => nomatch ht⟩
    · cases htable : s.store.getReferenceTable codecs with
      | none => exact ⟨fun t ht => (nomatch ht), fun t ht => nomatch ht⟩
      | some t =>
        -- it was just read
        obtain ⟨raw, -, htable⟩ := Option.bind_eq_some_iff.mp htable
        obtain ⟨container, -, htable⟩ := Option.bind_eq_some_iff.mp htable
        obtain ⟨⟨t', rest⟩, hdecode, ht'⟩ := Option.bind_eq_some_iff.mp htable
        cases ht'
        have hkept : Kept t := (returns_decode _ _ _ hdecode).kept
        exact ⟨fun t' ht' => by cases ht'; exact hkept, fun t' ht' => by cases ht'; exact hkept⟩

theorem kept_use {α : Type} {missing : Except ResourceError α}
    {f : (ℤ → Option (List Byte)) → ReferenceTable → ReferenceTable × Except ResourceError α}
    (hf : ∀ read, OnlyLoads codecs read (f read)) (h : s.Kept) :
    (s.use codecs missing f).1.Kept := by
  obtain ⟨hkept, htable⟩ := kept_getReferenceTable codecs h
  unfold IndexState.use
  dsimp only
  cases hfound : (s.getReferenceTable codecs).2 with
  | error e => exact hkept
  | ok table =>
    cases table with
    | none => exact hkept
    | some t =>
      intro t' ht'
      cases ht'
      exact (hf _ t).kept (htable t hfound)

theorem kept_update (h : s.Kept) (hupdate : s.update codecs = some s') : s'.Kept := by
  unfold IndexState.update at hupdate
  cases hcached : s.cached with
  | none =>
    rw [hcached] at hupdate
    cases hupdate
    exact h
  | some t =>
    rw [hcached] at hupdate
    obtain ⟨⟨t', store⟩, hwritten, hs'⟩ := Option.bind_eq_some_iff.mp hupdate
    cases hs'
    intro u hu
    cases hu
    exact (update_view (h t hcached) hwritten).2

end IndexState

section Frame
variable {codecs : Codecs} {fs fs' : Indices}

/-- Writing the tables back goes index by index. -/
theorem update_index (h : update codecs fs = some fs') (i : ℕ) :
    if i < 255 then (fs i).update codecs = some (fs' i) else fs' i = fs i := by
  have hfold (is : List ℕ) (hnodup : is.Nodup) (fs fs' : Indices)
      (h : is.foldlM (fun fs i => do
        let s ← (fs i).update codecs
        return Function.update fs i s) fs = some fs') :
      ∀ i, if i ∈ is then (fs i).update codecs = some (fs' i) else fs' i = fs i := by
    induction is generalizing fs with
    | nil =>
      cases h
      exact fun i => by simp
    | cons j is ih =>
      obtain ⟨hnotMem, hnodup⟩ := List.nodup_cons.mp hnodup
      rw [List.foldlM_cons] at h
      obtain ⟨fs₁, hfirst, h⟩ := Option.bind_eq_some_iff.mp h
      obtain ⟨s, hs, hfs₁⟩ := Option.bind_eq_some_iff.mp hfirst
      cases hfs₁
      intro i
      have hrest := ih hnodup _ h i
      by_cases hij : i = j
      · subst hij
        rw [if_neg hnotMem, Function.update_self] at hrest
        rw [if_pos List.mem_cons_self, hrest]
        exact hs
      · rw [Function.update_of_ne hij] at hrest
        simpa [hij] using hrest
  have hall := hfold _ List.nodup_range fs fs' h i
  rwa [if_congr List.mem_range rfl rfl] at hall

theorem index_lt (type : ResourceType) : (fsCodices type).index < 255 := by
  cases type <;> decide

theorem kept_updated {s : IndexState} (h : ∀ i, (fs i).Kept) (hs : s.Kept) (j : ℕ) :
    ∀ i, (Function.update fs j s i).Kept := by
  intro i
  by_cases hi : i = j
  · rw [hi, Function.update_self]
    exact hs
  · rw [Function.update_of_ne hi]
    exact h i

/-- A store leaves every index but its own. -/
theorem store_cases {type : ResourceType} {id : Word} {data : type.Definition}
    {order : List (ℤ × ScriptValue)} {rounds : ℕ} {result : Except ResourceError Unit}
    (hkept : (fs (fsCodices type).index).Kept)
    (h : store codecs type fs id data order rounds = some (fs', result)) :
    ∃ s : IndexState, s.Kept ∧ fs' = Function.update fs (fsCodices type).index s := by
  obtain ⟨hfound, htable⟩ := kept_getReferenceTable codecs hkept
  unfold store at h
  dsimp only at h
  cases hresult : ((fs (fsCodices type).index).getReferenceTable codecs).2 with
  | error e =>
    rw [hresult] at h
    cases h
    exact ⟨_, hfound, rfl⟩
  | ok table =>
    rw [hresult] at h
    cases table with
    | none =>
      cases h
      exact ⟨_, hfound, rfl⟩
    | some t =>
      obtain ⟨⟨t', stored⟩, hstored, hfs'⟩ := Option.map_eq_some_iff.mp h
      cases hfs'
      refine ⟨_, fun u hu => ?_, rfl⟩
      cases hu
      exact (lawful_fsCodices type).kept (htable t hresult) hstored

theorem Reachable.kept (h : Reachable codecs fs) : ∀ i, (fs i).Kept := by
  induction h with
  | opened stored => exact fun i t ht => nomatch ht
  | load h type id ih =>
    exact kept_updated ih (kept_use (fun _ => (lawful_fsCodices type).loads _ _ _) (ih _)) _
  | list h type ih =>
    exact kept_updated ih (kept_use (fun _ => (lawful_fsCodices type).lists _ _) (ih _)) _
  | store h hstore ih =>
    obtain ⟨s, hs, rfl⟩ := store_cases (ih _) hstore
    exact kept_updated ih hs _
  | update h hupdate ih =>
    intro i
    have hindex := update_index hupdate i
    split_ifs at hindex
    · exact kept_update (ih i) hindex
    · rw [hindex]
      exact ih i

end Frame

section Shared

end Shared

end OpenNXT.Resources
