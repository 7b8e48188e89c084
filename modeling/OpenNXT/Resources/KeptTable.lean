import Mathlib.Logic.Relation
import OpenNXT.Buffer.Returns
import OpenNXT.Resources.TableView

/-! Archives that are still to be written are loaded, so that writing them back loses nothing. -/
namespace OpenNXT.Resources
open Buffer Data Filesystem

def Kept (t : ReferenceTable) : Prop :=
  ∀ k a, t.archives.get? k = some a → a.requiresUpdate = true → a.loaded = true

section Decode

/-- Nothing is to be written of a table that was just read. -/
def Unchanged (archives : SortedMap ℤ Archive) : Prop :=
  ∀ k a, archives.get? k = some a → a.requiresUpdate = false

theorem Unchanged.modify {m : SortedMap ℤ Archive} (h : Unchanged m) {id : ℤ}
    {f : Archive → Archive} (hf : ∀ a, (f a).requiresUpdate = a.requiresUpdate) :
    Unchanged (m.modify id f) := by
  intro k a ha
  rw [SortedMap.get?_modify] at ha
  split_ifs at ha with hk
  · obtain ⟨b, hb, rfl⟩ := Option.map_eq_some_iff.mp ha
    rw [hf]
    exact h k b hb
  · exact h k a ha

theorem returns_setField {m : SortedMap ℤ Archive} (h : Unchanged m) (id : ℤ)
    {f : Archive → Archive} (hf : ∀ a, (f a).requiresUpdate = a.requiresUpdate) :
    Returns (ReferenceTable.setField m id f) Unchanged := by
  unfold ReferenceTable.setField
  cases m.get? id with
  | none => exact Returns.fail
  | some a => exact Returns.pure (h.modify hf)

theorem returns_readColumn {α : Type} (present : Bool) (r : Reader α)
    {set : Archive → α → Archive} (hset : ∀ a v, (set a v).requiresUpdate = a.requiresUpdate)
    (ids : List ℤ) {m : SortedMap ℤ Archive} (h : Unchanged m) :
    Returns (ReferenceTable.readColumn present r set ids m) Unchanged := by
  unfold ReferenceTable.readColumn
  refine Returns.ite ?_ (Returns.pure h)
  refine Returns.foldlM (fun m id hm => ?_) ids h
  exact (Returns.any r).bind fun v _ => returns_setField hm id fun a => hset a v

theorem returns_readFiles (format : Word) (ids : List ℤ) (counts : List Word)
    {m : SortedMap ℤ Archive} (h : Unchanged m) :
    Returns (ReferenceTable.readFiles format ids counts m) fun p => Unchanged p.1 := by
  induction ids generalizing counts m with
  | nil => exact Returns.pure h
  | cons id ids ih =>
    cases counts with
    | nil => exact Returns.fail
    | cons count counts =>
      refine (Returns.any _).bind fun fileIds _ => ?_
      refine (returns_setField h id fun a => by rfl).bind fun m hm => ?_
      exact (ih counts hm).bind fun p hp => Returns.pure hp

theorem returns_readAllFileNames (present : Bool) (fileIds : List (ℤ × List ℤ))
    {m : SortedMap ℤ Archive} (h : Unchanged m) :
    Returns (ReferenceTable.readAllFileNames present fileIds m) Unchanged := by
  unfold ReferenceTable.readAllFileNames
  refine Returns.ite ?_ (Returns.pure h)
  refine Returns.foldlM (fun m e hm => ?_) fileIds h
  refine Returns.foldlM (fun m f hm => ?_) e.2 hm
  exact (Returns.any _).bind fun name _ => returns_setField hm e.1 fun a => by rfl

theorem returns_decode : Returns (ReferenceTable.decode {}) fun t => Unchanged t.archives := by
  have hempty : ∀ (ids : List ℤ) (m : SortedMap ℤ Archive), Unchanged m →
      Unchanged (ids.foldl (fun m id => m.insert id {}) m) := by
    intro ids
    induction ids with
    | nil => exact fun m hm => hm
    | cons id ids ih =>
      refine fun m hm => ih _ fun k a ha => ?_
      rw [SortedMap.get?_insert] at ha
      split_ifs at ha
      · cases ha
        rfl
      · exact hm k a ha
  unfold ReferenceTable.decode
  refine (Returns.any _).bind fun format _ => Returns.ite Returns.fail ?_
  refine (Returns.any _).bind fun version _ => (Returns.any _).bind fun mask _ => ?_
  refine (Returns.any _).bind fun count _ => (Returns.any _).bind fun ids _ => ?_
  have hids := hempty ids .empty fun k a ha => nomatch ha
  dsimp only
  refine (returns_readColumn _ _ (fun _ _ => by rfl) ids hids).bind fun m hm => ?_
  refine (returns_readColumn _ _ (fun _ _ => by rfl) ids hm).bind fun m hm => ?_
  refine (returns_readColumn _ _ (fun _ _ => by rfl) ids hm).bind fun m hm => ?_
  refine (returns_readColumn _ _ (fun _ _ => by rfl) ids hm).bind fun m hm => ?_
  refine (returns_readColumn _ _ (fun _ _ => by rfl) ids hm).bind fun m hm => ?_
  refine (returns_readColumn _ _ (fun _ _ => by rfl) ids hm).bind fun m hm => ?_
  refine (Returns.any _).bind fun counts _ => ?_
  refine (returns_readFiles format ids counts hm).bind fun p hp => ?_
  exact (returns_readAllFileNames _ p.2 hp).bind fun m hm => Returns.pure hm

end Decode

section Loading
variable {codecs : Codecs} {read : ℤ → Option (List Byte)} {t t' : ReferenceTable}

theorem Unchanged.kept (h : Unchanged t.archives) : Kept t := by
  intro k a ha hchanged
  rw [h k a ha] at hchanged
  cases hchanged

theorem kept_loadArchive (h : Kept t) (k : ℤ) : Kept (t.loadArchive codecs read k).1 := by
  intro j b hb hchanged
  rw [get?_loadArchive] at hb
  split_ifs at hb with hj
  · obtain ⟨a, ha, rfl⟩ := Option.map_eq_some_iff.mp hb
    cases hloaded : a.loaded with
    | true => rw [loadEntry_loaded hloaded, hloaded]
    | false =>
      obtain ⟨outcome, hentry, -⟩ | ⟨c, hc, hentry | hentry⟩ :=
        @loadEntry_cases codecs (read k) a hloaded
      · rw [hentry] at hchanged ⊢
        exact h k a ha hchanged
      · rw [hentry, hc]
      · rw [hentry, hc]
  · exact h j b hb hchanged

/-- Tables that come of each other by loading archives. -/
def LoadsTo (codecs : Codecs) (read : ℤ → Option (List Byte)) :
    ReferenceTable → ReferenceTable → Prop :=
  Relation.ReflTransGen fun t t' => ∃ k, t' = (t.loadArchive codecs read k).1

theorem LoadsTo.kept (hload : LoadsTo codecs read t t') (h : Kept t) : Kept t' := by
  induction hload with
  | refl => exact h
  | tail _ hstep ih =>
    obtain ⟨k, rfl⟩ := hstep
    exact kept_loadArchive ih k

theorem loadsTo_loadArchive (k : ℤ) : LoadsTo codecs read t (t.loadArchive codecs read k).1 :=
  Relation.ReflTransGen.single ⟨k, rfl⟩

/-- A use of a table that only loads archives. -/
def OnlyLoads {α : Type} (codecs : Codecs) (read : ℤ → Option (List Byte))
    (f : ReferenceTable → ReferenceTable × Except ResourceError α) : Prop :=
  ∀ t, LoadsTo codecs read t (f t).1

theorem onlyLoads_loadDefinition {α : Type} (decode : List Byte → Option α) (k file : ℤ) :
    OnlyLoads codecs read fun t => loadDefinition codecs read decode t k file :=
  fun _ => loadsTo_loadArchive k

theorem onlyLoads_listFrom {α : Type}
    {load : ReferenceTable → Word → ReferenceTable × Except ResourceError (Option α)}
    (hload : ∀ id, OnlyLoads codecs read fun t => load t id) (ids : List Word)
    (result : SortedMap ℤ α) : OnlyLoads codecs read fun t => listFrom load ids t result := by
  induction ids generalizing result with
  | nil => exact fun t => Relation.ReflTransGen.refl
  | cons id ids ih =>
    intro t
    have hfirst := hload id t
    dsimp only at hfirst
    simp only [listFrom]
    cases (load t id).2 with
    | error e => exact hfirst
    | ok d =>
      cases d with
      | none => exact hfirst.trans (ih result _)
      | some d => exact hfirst.trans (ih _ _)

theorem onlyLoads_listBelow {α : Type}
    {load : ReferenceTable → Word → ReferenceTable × Except ResourceError (Option α)}
    (hload : ∀ id, OnlyLoads codecs read fun t => load t id)
    (count : ReferenceTable → Except ResourceError ℕ) :
    OnlyLoads codecs read fun t => listBelow load (count t) t := by
  intro t
  dsimp only
  cases count t with
  | error e => exact Relation.ReflTransGen.refl
  | ok n => exact onlyLoads_listFrom hload _ _ t

section Vars
open VarDefinitionFilesystemCodec

theorem onlyLoads_loadFrom (id : ℤ) (archives : List ℤ) :
    OnlyLoads codecs read (loadFrom codecs read id archives) := by
  induction archives with
  | nil => exact fun t => Relation.ReflTransGen.refl
  | cons archive archives ih =>
    intro t
    have hfirst : LoadsTo codecs read t (loadFile codecs read t archive id).1 :=
      loadsTo_loadArchive archive
    simp only [loadFrom]
    cases (loadFile codecs read t archive id).2 with
    | error e => exact hfirst
    | ok data =>
      cases data with
      | none => exact hfirst.trans (ih _)
      | some data => exact hfirst

theorem onlyLoads_listArchives (archives : List ℤ) (result : SortedMap ℤ VarDefinition) :
    OnlyLoads codecs read fun t => listArchives codecs read archives t result := by
  induction archives generalizing result with
  | nil => exact fun t => Relation.ReflTransGen.refl
  | cons archive archives ih =>
    intro t
    have hfirst : LoadsTo codecs read t (loadFiles codecs read t archive).1 :=
      loadsTo_loadArchive archive
    simp only [listArchives]
    cases (loadFiles codecs read t archive).2 with
    | error e => exact hfirst
    | ok files =>
      cases files with
      | none => exact hfirst.trans (ih result _)
      | some files =>
        dsimp only
        cases listFiles files result with
        | none => exact hfirst
        | some result => exact hfirst.trans (ih result _)

end Vars

end Loading

section Storing
variable {codecs : Codecs} {read : ℤ → Option (List Byte)} {t t' : ReferenceTable}

/-- The archive that a file is put into has been loaded. -/
theorem kept_storeDefinition {k f : ℤ} {encoded : Option (Except PutError (List Byte))}
    {result : Except ResourceError Unit} (h : Kept t)
    (hstore : storeDefinition codecs read t k f encoded = some (t', result)) : Kept t' := by
  by_cases hin : (t.archives.get? k).isSome
  · have hkept : Kept (t.loadArchive codecs read k).1 := kept_loadArchive h k
    unfold storeDefinition at hstore
    rw [loadOrCreateArchive_eq hin] at hstore
    dsimp only at hstore
    cases houtcome : (t.loadArchive codecs read k).2 with
    | returned archive =>
      rw [houtcome] at hstore
      cases archive with
      | none =>
        cases hstore
        exact hkept
      | some a =>
        obtain ⟨attempt, -, hresult⟩ := Option.map_eq_some_iff.mp hstore
        cases attempt with
        | error e =>
          cases hresult
          exact hkept
        | ok bytes =>
          cases hresult
          obtain ⟨hget, hloaded⟩ := get?_of_returned houtcome
          intro j b hb hchanged
          rw [ReferenceTable.putFile, SortedMap.get?_modify] at hb
          split_ifs at hb with hj
          · rw [hj, hget] at hb
            cases hb
            exact hloaded
          · exact hkept j b hb hchanged
    | containerThrown =>
      rw [houtcome] at hstore
      cases hstore
      exact hkept
    | payloadThrown =>
      rw [houtcome] at hstore
      cases hstore
      exact hkept
  · -- the archive that is created is in no table
    have hnone := Option.not_isSome_iff_eq_none.mp hin
    have hcreated : t.loadOrCreateArchive codecs read k =
        (t, .returned (some { requiresUpdate := true })) := by
      unfold ReferenceTable.loadOrCreateArchive
      rw [hnone]
    unfold storeDefinition at hstore
    rw [hcreated] at hstore
    obtain ⟨attempt, -, hresult⟩ := Option.map_eq_some_iff.mp hstore
    cases attempt with
    | error e =>
      cases hresult
      exact h
    | ok bytes =>
      cases hresult
      intro j b hb hchanged
      rw [ReferenceTable.putFile, SortedMap.get?_modify] at hb
      split_ifs at hb with hj
      · rw [hj, hnone] at hb
        cases hb
      · exact h j b hb hchanged

theorem updateArchive_state {mask : Word} {a a' : Archive} {compressed : List Byte}
    (h : ReferenceTable.updateArchive codecs mask a = some (a', compressed)) :
    a'.files = a.files ∧ a'.loaded = a.loaded ∧ a'.requiresUpdate = false := by
  obtain ⟨data, -, h⟩ := Option.bind_eq_some_iff.mp h
  obtain ⟨stored, -, h⟩ := Option.bind_eq_some_iff.mp h
  cases h
  exact ⟨rfl, rfl, rfl⟩

/-- An update writes the archives that changed, one after the other, and then the table. -/
theorem update_steps {store store' : Store} (h : t.update codecs store = some (t', store')) :
    ∃ p, (t.archives.entries.filter fun e => e.2.requiresUpdate).foldlM
        (ReferenceTable.updateEntry codecs t.mask) (t.archives, store) = some p ∧
      t'.archives = p.1 ∧ store'.read = p.2.read := by
  obtain ⟨p, hfold, h⟩ := Option.bind_eq_some_iff.mp h
  refine ⟨p, hfold, ?_⟩
  dsimp only at h
  split_ifs at h
  · cases h
    exact ⟨rfl, rfl⟩
  · obtain ⟨data, -, h⟩ := Option.bind_eq_some_iff.mp h
    obtain ⟨compressed, -, h⟩ := Option.bind_eq_some_iff.mp h
    cases h
    exact ⟨rfl, rfl⟩

/-- Writing a table back changes nothing of what definitions see of it. -/
theorem update_view {store store' : Store} (h : Kept t)
    (hupdate : t.update codecs store = some (t', store')) :
    SameView store.read store'.read t t' ∧ Kept t' := by
  let toUpdate := t.archives.entries.filter fun e => e.2.requiresUpdate
  obtain ⟨⟨m, store₁⟩, hfold, harchives, hread⟩ := update_steps hupdate
  have hnodup : (toUpdate.map Prod.fst).Nodup :=
    t.archives.nodup_keys.sublist (List.filter_sublist.map Prod.fst)
  have hmem : ∀ e ∈ toUpdate, e.1 ∈ t.archives.keys :=
    fun e he => List.mem_map_of_mem (List.mem_filter.mp he).1
  obtain ⟨hkeys, hothers, hall⟩ := ReferenceTable.foldlM_updateEntry hnodup hmem hfold
  dsimp only at harchives hread
  rw [← harchives] at hkeys hothers hall
  -- an entry is either written, and loaded already, or stays with what is stored of it
  have hentry : ∀ k a a', t.archives.get? k = some a → t'.archives.get? k = some a' →
      (a.loaded = true ∧ a'.loaded = true ∧ a'.files = a.files ∧ a'.requiresUpdate = false) ∨
        (a' = a ∧ store'.read k = store.read k) := by
    intro k a a' ha ha'
    by_cases hk : k ∈ toUpdate.map Prod.fst
    · obtain ⟨e, he, rfl⟩ := List.mem_map.mp hk
      obtain ⟨hin, hchanged⟩ := List.mem_filter.mp he
      obtain ⟨b, compressed, hwritten, hget, -⟩ := hall e he
      cases ha'.symm.trans hget
      cases ha.symm.trans (SortedMap.get?_eq_some.mpr hin)
      obtain ⟨hfiles, hloaded, hdone⟩ := updateArchive_state hwritten
      have hkept := h e.1 e.2 ha hchanged
      exact Or.inl ⟨hkept, hloaded.trans hkept, hfiles, hdone⟩
    · obtain ⟨hget, hstored⟩ := hothers k hk
      rw [ha, ha'] at hget
      cases hget
      exact Or.inr ⟨rfl, by rw [hread, hstored]⟩
  refine ⟨⟨hkeys, fun k a a' ha ha' => ?_⟩, fun k a' ha' hchanged => ?_⟩
  · rcases hentry k a a' ha ha' with ⟨hloaded, hloaded', hfiles, -⟩ | ⟨hsame, hstored⟩
    · exact .loaded hloaded hloaded' hfiles
    · exact .same hstored hsame
  · have hk : k ∈ t.archives.keys := hkeys ▸ SortedMap.mem_keys.mpr ⟨a', ha'⟩
    obtain ⟨a, ha⟩ := SortedMap.mem_keys.mp hk
    rcases hentry k a a' ha ha' with ⟨-, hloaded', -, -⟩ | ⟨hsame, -⟩
    · exact hloaded'
    · rw [hsame] at hchanged ⊢
      exact h k a ha hchanged

end Storing

end OpenNXT.Resources
