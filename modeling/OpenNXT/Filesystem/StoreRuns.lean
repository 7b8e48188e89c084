import OpenNXT.Filesystem.TableUpdate

/-! A table in memory over its store: what a fresh table reads after any run of loads, puts and
updates. -/
namespace OpenNXT.Filesystem
open Buffer Data Ext Util

namespace ReferenceTable

/-- What a table says about the files of an archive. -/
def tableFiles (mask : Word) (files : SortedMap ℤ ArchiveFile) : SortedMap ℤ ArchiveFile :=
  files.map fun _ f => { name := if hasNames mask then f.name else 0 }

theorem keys_tableFiles (mask : Word) (files : SortedMap ℤ ArchiveFile) :
    (tableFiles mask files).keys = files.keys := SortedMap.keys_map _ _

section Decoded
variable {mask : Word} {m m' : SortedMap ℤ Archive} {bs rest : List Byte}

/-- An archive as a table alone has it: its files have no data yet. -/
structure Unread (mask : Word) (a : Archive) : Prop where
  loaded : a.loaded = false
  requiresUpdate : a.requiresUpdate = false
  files : ∀ id file, a.files.get? id = some file →
    file.data = [] ∧ (hasNames mask = false → file.name = 0)

theorem Unread.tableFiles {a : Archive} (h : Unread mask a) : tableFiles mask a.files = a.files := by
  apply SortedMap.ext_get?
  intro id
  rw [ReferenceTable.tableFiles, SortedMap.get?_map]
  cases hget : a.files.get? id with
  | none => rfl
  | some file =>
    obtain ⟨hdata, hname⟩ := h.files id file hget
    obtain ⟨data, name⟩ := file
    cases hdata
    rw [Option.map_some]
    split_ifs with hnames
    · rfl
    · rw [← hname (Bool.eq_false_of_not_eq_true hnames)]

/-- A change that leaves the files alone. -/
theorem Unread.frame {a b : Archive} (h : Unread mask a) (hloaded : b.loaded = a.loaded)
    (hrequires : b.requiresUpdate = a.requiresUpdate) (hfiles : b.files = a.files) :
    Unread mask b where
  loaded := hloaded.trans h.loaded
  requiresUpdate := hrequires.trans h.requiresUpdate
  files := by rw [hfiles]; exact h.files

/-- All archives as a table has them. -/
def AllUnread (mask : Word) (m : SortedMap ℤ Archive) : Prop :=
  ∀ id a, m.get? id = some a → Unread mask a

theorem AllUnread.modify (h : AllUnread mask m) {id : ℤ} {f : Archive → Archive}
    (hf : ∀ a, Unread mask a → Unread mask (f a)) : AllUnread mask (m.modify id f) := by
  intro j a ha
  rw [SortedMap.get?_modify] at ha
  split_ifs at ha with hj
  · obtain ⟨b, hb, rfl⟩ := Option.map_eq_some_iff.mp ha
    exact hf b (h j b hb)
  · exact h j a ha

theorem AllUnread.setField (h : AllUnread mask m) {id : ℤ} {f : Archive → Archive}
    (hf : ∀ a, Unread mask a → Unread mask (f a)) (hset : setField m id f bs = some (m', rest)) :
    AllUnread mask m' := by
  unfold ReferenceTable.setField at hset
  cases hget : m.get? id with
  | none =>
    rw [hget] at hset
    cases hset
  | some a =>
    rw [hget] at hset
    cases hset
    exact h.modify hf

/-- A loop of a reader keeps what each of its turns keeps. -/
theorem foldlM_keeps {α σ : Type} {Q : σ → Prop} {step : σ → α → Reader σ}
    (hstep : ∀ s x bs s' rest, Q s → step s x bs = some (s', rest) → Q s') (xs : List α) {s s' : σ}
    {bs rest : List Byte} (hs : Q s) (h : xs.foldlM step s bs = some (s', rest)) : Q s' := by
  induction xs generalizing s bs with
  | nil =>
    cases h
    exact hs
  | cons x xs ih =>
    rw [List.foldlM_cons, Reader.bind_apply] at h
    obtain ⟨⟨s₁, rest₁⟩, hfirst, h⟩ := Option.bind_eq_some_iff.mp h
    exact ih (hstep s x bs s₁ rest₁ hs hfirst) h

theorem AllUnread.readColumn {α : Type} {present : Bool} {r : Reader α}
    {set : Archive → α → Archive} {ids : List ℤ} (h : AllUnread mask m)
    (hread : readColumn present r set ids m bs = some (m', rest))
    (hset : ∀ v a, Unread mask a → Unread mask (set a v)) : AllUnread mask m' := by
  unfold ReferenceTable.readColumn at hread
  split_ifs at hread
  · refine foldlM_keeps (Q := AllUnread mask) ?_ ids h hread
    intro n id cs n' rest' hn hturn
    rw [Reader.bind_apply] at hturn
    obtain ⟨⟨v, tail⟩, -, hturn⟩ := Option.bind_eq_some_iff.mp hturn
    exact hn.setField (hset v) hturn
  · cases hread
    exact h

theorem Unread.listFiles {a : Archive} (h : Unread mask a) (fileIds : List ℤ) :
    Unread mask { a with files := fileIds.foldl (fun m f => m.insert f {}) a.files } := by
  refine ⟨h.loaded, h.requiresUpdate, fun id file hget => ?_⟩
  change (fileIds.foldl (fun m f => m.insert f {}) a.files).get? id = some file at hget
  rw [SortedMap.get?_foldl_insert] at hget
  split_ifs at hget
  · cases hget
    exact ⟨rfl, fun _ => rfl⟩
  · exact h.files id file hget

theorem AllUnread.readFiles {format : Word} {ids : List ℤ} {counts : List Word}
    {fileIds : List (ℤ × List ℤ)} (h : AllUnread mask m)
    (hread : readFiles format ids counts m bs = some ((m', fileIds), rest)) : AllUnread mask m' := by
  induction ids generalizing counts m bs fileIds with
  | nil =>
    cases hread
    exact h
  | cons id ids ih =>
    cases counts with
    | nil => cases hread
    | cons count counts =>
      rw [ReferenceTable.readFiles, Reader.bind_apply] at hread
      obtain ⟨⟨files, tail⟩, -, hread⟩ := Option.bind_eq_some_iff.mp hread
      rw [Reader.bind_apply] at hread
      obtain ⟨⟨m₁, tail₁⟩, hset, hread⟩ := Option.bind_eq_some_iff.mp hread
      rw [Reader.bind_apply] at hread
      obtain ⟨⟨⟨m₂, others⟩, tail₂⟩, hothers, hread⟩ := Option.bind_eq_some_iff.mp hread
      cases hread
      exact ih (h.setField (fun a ha => ha.listFiles files) hset) hothers

theorem Unread.nameFile {a : Archive} (h : Unread mask a) (hnames : hasNames mask = true) (id : ℤ)
    (name : Word) :
    Unread mask { a with files := a.files.modify id fun x => { x with name := name } } := by
  refine ⟨h.loaded, h.requiresUpdate, fun j file hget => ?_⟩
  change (a.files.modify id fun x => { x with name := name }).get? j = some file at hget
  rw [SortedMap.get?_modify] at hget
  split_ifs at hget
  · obtain ⟨old, hold, rfl⟩ := Option.map_eq_some_iff.mp hget
    refine ⟨(h.files j old hold).1, fun hfalse => ?_⟩
    rw [hnames] at hfalse
    cases hfalse
  · exact h.files j file hget

theorem AllUnread.readAllFileNames {present : Bool} {fileIds : List (ℤ × List ℤ)}
    (h : AllUnread mask m) (hpresent : present = true → hasNames mask = true)
    (hread : readAllFileNames present fileIds m bs = some (m', rest)) : AllUnread mask m' := by
  unfold ReferenceTable.readAllFileNames at hread
  split_ifs at hread with hnames
  · refine foldlM_keeps (Q := AllUnread mask) ?_ fileIds h hread
    intro n e cs n' rest' hn hturn
    refine foldlM_keeps (Q := AllUnread mask) ?_ e.2 hn hturn
    intro k f ds k' rest'' hk hname
    rw [Reader.bind_apply] at hname
    obtain ⟨⟨name, tail⟩, -, hname⟩ := Option.bind_eq_some_iff.mp hname
    exact hk.setField (fun a ha => ha.nameFile (hpresent hnames) f name) hname
  · cases hread
    exact h

/-- A table that was just decoded has read none of its archives. -/
theorem allUnread_decode {t : ReferenceTable} (h : decode {} bs = some (t, rest)) :
    AllUnread t.mask t.archives := by
  unfold decode at h
  rw [Reader.bind_apply] at h
  obtain ⟨⟨format, bs₁⟩, -, h⟩ := Option.bind_eq_some_iff.mp h
  dsimp only at h
  by_cases hformat : ¬(5 ≤ format.toInt ∧ format.toInt ≤ 7)
  · rw [if_pos hformat] at h
    cases h
  rw [if_neg hformat, Reader.bind_apply] at h
  obtain ⟨⟨version, bs₂⟩, -, h⟩ := Option.bind_eq_some_iff.mp h
  rw [Reader.bind_apply] at h
  obtain ⟨⟨mask, bs₃⟩, -, h⟩ := Option.bind_eq_some_iff.mp h
  rw [Reader.bind_apply] at h
  obtain ⟨⟨count, bs₄⟩, -, h⟩ := Option.bind_eq_some_iff.mp h
  rw [Reader.bind_apply] at h
  obtain ⟨⟨ids, bs₅⟩, -, h⟩ := Option.bind_eq_some_iff.mp h
  have hstart : AllUnread mask (ids.foldl (fun m id => m.insert id {}) .empty) := by
    intro id a ha
    rw [SortedMap.get?_foldl_insert] at ha
    split_ifs at ha
    · cases ha
      exact ⟨rfl, rfl, fun _ _ hfile => nomatch hfile⟩
    · cases ha
  rw [Reader.bind_apply] at h
  obtain ⟨⟨m₁, bs₆⟩, hname, h⟩ := Option.bind_eq_some_iff.mp h
  have h₁ := hstart.readColumn hname fun _ _ ha => ha.frame rfl rfl rfl
  rw [Reader.bind_apply] at h
  obtain ⟨⟨m₂, bs₇⟩, hcrc, h⟩ := Option.bind_eq_some_iff.mp h
  have h₂ := h₁.readColumn hcrc fun _ _ ha => ha.frame rfl rfl rfl
  rw [Reader.bind_apply] at h
  obtain ⟨⟨m₃, bs₈⟩, hhash, h⟩ := Option.bind_eq_some_iff.mp h
  have h₃ := h₂.readColumn hhash fun _ _ ha => ha.frame rfl rfl rfl
  rw [Reader.bind_apply] at h
  obtain ⟨⟨m₄, bs₉⟩, hwhirlpool, h⟩ := Option.bind_eq_some_iff.mp h
  have h₄ := h₃.readColumn hwhirlpool fun _ _ ha => ha.frame rfl rfl rfl
  rw [Reader.bind_apply] at h
  obtain ⟨⟨m₅, bs₁₀⟩, hsizes, h⟩ := Option.bind_eq_some_iff.mp h
  have h₅ := h₄.readColumn hsizes fun _ _ ha => ha.frame rfl rfl rfl
  rw [Reader.bind_apply] at h
  obtain ⟨⟨m₆, bs₁₁⟩, hversion, h⟩ := Option.bind_eq_some_iff.mp h
  have h₆ := h₅.readColumn hversion fun _ _ ha => ha.frame rfl rfl rfl
  rw [Reader.bind_apply] at h
  obtain ⟨⟨counts, bs₁₂⟩, -, h⟩ := Option.bind_eq_some_iff.mp h
  rw [Reader.bind_apply] at h
  obtain ⟨⟨⟨m₇, fileIds⟩, bs₁₃⟩, hfiles, h⟩ := Option.bind_eq_some_iff.mp h
  have h₇ := h₆.readFiles hfiles
  rw [Reader.bind_apply] at h
  obtain ⟨⟨m₈, bs₁₄⟩, hnames, h⟩ := Option.bind_eq_some_iff.mp h
  cases h
  exact h₇.readAllFileNames id hnames

end Decoded

section Loading
variable {codecs : Codecs} {mask : Word} {a b : Archive}

/-- The data of files is nothing to a table. -/
theorem tableFiles_setData (files : SortedMap ℤ ArchiveFile) (data : List (List Byte)) :
    tableFiles mask (Archive.setData files data) = tableFiles mask files := by
  have hmodify : ∀ (m : SortedMap ℤ ArchiveFile) (e : ℤ × List Byte),
      tableFiles mask (m.modify e.1 fun file => { file with data := e.2 }) = tableFiles mask m := by
    intro m e
    apply SortedMap.ext_get?
    intro id
    rw [tableFiles, tableFiles, SortedMap.get?_map, SortedMap.get?_map, SortedMap.get?_modify]
    by_cases hid : id = e.1
    · rw [if_pos hid, Option.map_map]
      rfl
    · rw [if_neg hid]
  rw [Archive.setData]
  generalize files.keys.zip data = es
  induction es generalizing files with
  | nil => rfl
  | cons e es ih => rw [List.foldl_cons, ih, hmodify]

/-- Filling an archive looks at its files alone, and changes nothing else. -/
theorem decodeInPlace_eq (a : Archive) (buffer : List Byte) :
    a.decodeInPlace buffer =
      ⟨{ a with
          loaded := true
          files := (Archive.decodeInPlace { files := a.files } buffer).state.files },
        (Archive.decodeInPlace { files := a.files } buffer).thrown⟩ := by
  unfold Archive.decodeInPlace
  dsimp only
  split_ifs
  · rfl
  · split
    · rfl
    · split_ifs <;> rfl

theorem tableFiles_decodeInPlace (a : Archive) (buffer : List Byte) :
    tableFiles mask (a.decodeInPlace buffer).state.files = tableFiles mask a.files := by
  unfold Archive.decodeInPlace
  dsimp only
  split_ifs
  · exact tableFiles_setData _ _
  · split
    · rfl
    · split_ifs <;> exact tableFiles_setData _ _

/-- The files of the archive that was returned. -/
def outcomeFiles : LoadOutcome → Option (SortedMap ℤ ArchiveFile)
  | .returned (some a) => some a.files
  | _ => none

/-- The files that a stored archive has for a table that lists `files`. -/
def loadedFiles (codecs : Codecs) (raw : Option (List Byte)) (files : SortedMap ℤ ArchiveFile) :
    Option (SortedMap ℤ ArchiveFile) :=
  outcomeFiles (loadEntry codecs raw { files := files }).2

theorem outcomeFiles_loadEntry (raw : Option (List Byte)) (h : a.loaded = false) :
    outcomeFiles (loadEntry codecs raw a).2 = loadedFiles codecs raw a.files := by
  cases raw with
  | none =>
    rw [loadedFiles, loadEntry, loadEntry, if_neg (Bool.eq_false_iff.mp h)]
    rfl
  | some stored =>
    cases hcontainer : Container.decode codecs stored with
    | none =>
      rw [loadedFiles, loadEntry, loadEntry, if_neg (Bool.eq_false_iff.mp h)]
      simp only [hcontainer]
      rfl
    | some container =>
      by_cases hlimit : container.data.length < maxArray
      · have hentry := @loadEntry_of_payload codecs { files := a.files } stored container rfl
          hcontainer hlimit
        rw [loadedFiles, hentry, loadEntry_of_payload h hcontainer hlimit, decodeInPlace_eq a]
        dsimp only
        split_ifs <;> rfl
      · rw [loadedFiles, loadEntry, loadEntry, if_neg (Bool.eq_false_iff.mp h)]
        simp only [hcontainer, if_pos (not_lt.mp hlimit)]
        rfl

/-- What a load leaves of an entry that it returns. -/
theorem loadEntry_returned {raw : Option (List Byte)} (h : a.loaded = false)
    (hload : (loadEntry codecs raw a).2 = .returned (some b)) :
    (loadEntry codecs raw a).1 = b ∧ b = { a with loaded := true, files := b.files } ∧
      tableFiles mask b.files = tableFiles mask a.files ∧
      loadedFiles codecs raw a.files = some b.files := by
  have hfiles := @outcomeFiles_loadEntry codecs a raw h
  rw [hload] at hfiles
  cases raw with
  | none =>
    rw [loadEntry, if_neg (Bool.eq_false_iff.mp h)] at hload
    cases hload
  | some stored =>
    cases hcontainer : Container.decode codecs stored with
    | none =>
      rw [loadEntry, if_neg (Bool.eq_false_iff.mp h)] at hload
      simp only [hcontainer] at hload
      cases hload
    | some container =>
      by_cases hlimit : container.data.length < maxArray
      · rw [loadEntry_of_payload h hcontainer hlimit] at hload ⊢
        dsimp only at hload
        split_ifs at hload
        cases hload
        refine ⟨rfl, ?_, tableFiles_decodeInPlace a container.data, hfiles.symm⟩
        rw [decodeInPlace_eq a]
      · rw [loadEntry, if_neg (Bool.eq_false_iff.mp h)] at hload
        simp only [hcontainer, if_pos (not_lt.mp hlimit)] at hload
        cases hload

end Loading

section Written
variable {codecs : Codecs} {t t' : ReferenceTable} {store store' : Store}

/-- No archive waits for an update. -/
def AllClean (t : ReferenceTable) : Prop :=
  ∀ id a, t.archives.get? id = some a → a.requiresUpdate = false

theorem isEmpty_toUpdate_iff :
    (t.archives.entries.filter fun e => e.2.requiresUpdate).isEmpty = true ↔ t.AllClean := by
  rw [List.isEmpty_iff, List.filter_eq_nil_iff]
  constructor
  · intro h id a ha
    exact Bool.eq_false_of_not_eq_true (h (id, a) (SortedMap.get?_eq_some.mp ha))
  · intro h e he hchanged
    rw [h e.1 e.2 (SortedMap.get?_eq_some.mpr he)] at hchanged
    cases hchanged

/-- A table without changes writes nothing. -/
theorem update_of_allClean (h : t.AllClean) : t.update codecs store = some (t, store) := by
  rw [update, List.isEmpty_iff.mp (isEmpty_toUpdate_iff.mpr h)]
  rfl

/-- What an update does to every archive and to the store. -/
structure UpdatesTo (codecs : Codecs) (t : ReferenceTable) (store : Store) (t' : ReferenceTable)
    (store' : Store) : Prop where
  format : t'.format = t.format
  mask : t'.mask = t.mask
  keys : t'.archives.keys = t.archives.keys
  clean : ∀ id a, t.archives.get? id = some a → a.requiresUpdate = false →
    t'.archives.get? id = some a ∧ store'.read id = store.read id
  changed : ∀ id a, t.archives.get? id = some a → a.requiresUpdate = true →
    ∃ a' compressed, updateArchive codecs t.mask a = some (a', compressed) ∧
      t'.archives.get? id = some a' ∧ store'.read id = some compressed
  table : ¬t.AllClean → ∃ data compressed, t'.encode = some data ∧
    Container.compress codecs { data := data, compression := .gzip } = some compressed ∧
    store'.referenceTable = some compressed

theorem updatesTo_of_update (h : t.update codecs store = some (t', store')) :
    UpdatesTo codecs t store t' store' := by
  by_cases hclean : t.AllClean
  · rw [update_of_allClean hclean] at h
    cases h
    refine ⟨rfl, rfl, rfl, fun _ _ ha _ => ⟨ha, rfl⟩, fun id a ha hchanged => ?_, ?_⟩
    · rw [hclean id a ha] at hchanged
      cases hchanged
    · exact fun hchanged => absurd hclean hchanged
  · let toUpdate := t.archives.entries.filter fun e => e.2.requiresUpdate
    obtain ⟨⟨m', store₁⟩, hfold, h⟩ := Option.bind_eq_some_iff.mp h
    dsimp only at h
    rw [if_neg (isEmpty_toUpdate_iff.not.mpr hclean)] at h
    obtain ⟨data, hencode, h⟩ := Option.bind_eq_some_iff.mp h
    obtain ⟨compressed, hcompress, h⟩ := Option.bind_eq_some_iff.mp h
    cases h
    have hnodup : (toUpdate.map Prod.fst).Nodup :=
      t.archives.nodup_keys.sublist (List.filter_sublist.map Prod.fst)
    have hmem : ∀ e ∈ toUpdate, e.1 ∈ t.archives.keys :=
      fun e he => List.mem_map_of_mem (List.mem_filter.mp he).1
    obtain ⟨hkeys, hothers, hall⟩ := foldlM_updateEntry hnodup hmem hfold
    refine ⟨rfl, rfl, hkeys, fun id a ha hunchanged => ?_, fun id a ha hchanged => ?_,
      fun _ => ⟨data, compressed, hencode, hcompress, rfl⟩⟩
    · have hnot : id ∉ toUpdate.map Prod.fst := by
        intro hid
        obtain ⟨e, he, rfl⟩ := List.mem_map.mp hid
        obtain ⟨hentry, hchanged⟩ := List.mem_filter.mp he
        rw [SortedMap.get?_eq_some.mpr hentry] at ha
        cases ha
        rw [hunchanged] at hchanged
        cases hchanged
      obtain ⟨hget, hread⟩ := hothers id hnot
      exact ⟨hget.trans ha, hread⟩
    · exact hall (id, a) (List.mem_filter.mpr ⟨SortedMap.get?_eq_some.mp ha, hchanged⟩) |>.imp
        fun a' h => h

theorem UpdatesTo.entry (h : UpdatesTo codecs t store t' store') {id : ℤ} {a' : Archive}
    (ha' : t'.archives.get? id = some a') :
    ∃ a, t.archives.get? id = some a ∧ Updated t.mask a a' ∧ a'.requiresUpdate = false ∧
      a'.loaded = a.loaded := by
  have hmem : id ∈ t.archives.keys := h.keys ▸ SortedMap.mem_keys.mpr ⟨a', ha'⟩
  obtain ⟨a, ha⟩ := SortedMap.mem_keys.mp hmem
  refine ⟨a, ha, ?_⟩
  cases hchanged : a.requiresUpdate with
  | false =>
    have hsame : a' = a := Option.some.inj (ha'.symm.trans (h.clean id a ha hchanged).1)
    rw [hsame]
    exact ⟨⟨rfl, fun w hw => Or.inr hw⟩, hchanged, rfl⟩
  | true =>
    obtain ⟨b, compressed, hupdate, hget, -⟩ := h.changed id a ha hchanged
    have hsame : a' = b := Option.some.inj (ha'.symm.trans hget)
    rw [hsame]
    refine ⟨(updateArchive_eq_some hupdate).1, ?_⟩
    obtain ⟨data, -, hupdate⟩ := Option.bind_eq_some_iff.mp hupdate
    obtain ⟨stored, -, hupdate⟩ := Option.bind_eq_some_iff.mp hupdate
    cases hupdate
    exact ⟨rfl, rfl⟩

theorem UpdatesTo.wellFormed (h : UpdatesTo codecs t store t' store') (ht : t.WellFormed) :
    t'.WellFormed := by
  constructor
  · rw [h.format]
    exact ht.format
  · rw [h.mask]
    exact ht.mask
  · rw [h.format, h.keys]
    exact ht.archiveIds
  · intro a' ha'
    obtain ⟨id, ha'⟩ := SortedMap.mem_values.mp ha'
    obtain ⟨a, ha, hupdated, -, -⟩ := h.entry ha'
    rw [h.format, hupdated.files]
    exact ht.fileIds a (SortedMap.mem_values.mpr ⟨id, ha⟩)
  · intro hw a' ha' w hwhirlpool
    obtain ⟨id, ha'⟩ := SortedMap.mem_values.mp ha'
    obtain ⟨a, ha, hupdated, -, -⟩ := h.entry ha'
    rw [h.mask] at hw
    rcases hupdated.whirlpool w hwhirlpool with hlength | hold
    · exact hlength
    · exact ht.whirlpools hw a (SortedMap.mem_values.mpr ⟨id, ha⟩) w hold

end Written

end ReferenceTable

open ReferenceTable

/-- The data of every file of every archive. -/
abbrev Contents := ℤ → ℤ → Option (List Byte)

/-- A file that is put into an archive. -/
structure FilePut where
  archive : ℤ
  file : ℤ
  data : List Byte

namespace Contents

def put (c : Contents) (p : FilePut) : Contents := fun id f =>
  if id = p.archive ∧ f = p.file then some p.data else c id f

end Contents

/-- The data of a file. -/
def dataOf (files : SortedMap ℤ ArchiveFile) (f : ℤ) : Option (List Byte) :=
  (files.get? f).map (·.data)

/-- What a table that is read again has for every file. -/
def Store.contents (codecs : Codecs) (store : Store) : Contents := fun id f =>
  (store.reloadFiles codecs id).bind fun files => dataOf files f

/-- A table is opened over a store and used. `flushed` is what was put in front of the last update,
`pending` what was put since then. The program may end between any two steps: the table is then
opened again. -/
inductive Session (codecs : Codecs) (store₀ : Store) :
    ReferenceTable → Store → List FilePut → List FilePut → Prop
  | opened {t : ReferenceTable} (hopen : store₀.getReferenceTable codecs = some t) :
      Session codecs store₀ t store₀ [] []
  | load {t t' : ReferenceTable} {store : Store} {flushed pending : List FilePut}
      (h : Session codecs store₀ t store flushed pending) (id : ℤ) {archive : Option Archive}
      (hload : t.loadArchive codecs store.read id = (t', .returned archive)) :
      Session codecs store₀ t' store flushed pending
  | putFile {t : ReferenceTable} {store : Store} {flushed pending : List FilePut}
      (h : Session codecs store₀ t store flushed pending) (p : FilePut) {a : Archive}
      (ha : t.archives.get? p.archive = some a) (hloaded : a.loaded = true)
      (hfit : IdsFit t.format (a.putFile p.file p.data).files.keys) :
      Session codecs store₀ (t.putFile p.archive p.file p.data) store flushed (pending ++ [p])
  | update {t t' : ReferenceTable} {store store' : Store} {flushed pending : List FilePut}
      (h : Session codecs store₀ t store flushed pending)
      (hupdate : t.update codecs store = some (t', store')) :
      Session codecs store₀ t' store' (flushed ++ pending) []
  | reopen {t fresh : ReferenceTable} {store : Store} {flushed pending : List FilePut}
      (h : Session codecs store₀ t store flushed pending)
      (hopen : store.getReferenceTable codecs = some fresh) :
      Session codecs store₀ fresh store flushed []

section Session
variable {codecs : Codecs} {t t' : ReferenceTable} {store store' : Store} {c : Contents}

theorem allUnread_of_open (h : store.getReferenceTable codecs = some t) :
    AllUnread t.mask t.archives := by
  obtain ⟨raw, -, h⟩ := Option.bind_eq_some_iff.mp h
  obtain ⟨container, -, h⟩ := Option.bind_eq_some_iff.mp h
  obtain ⟨⟨u, rest⟩, hdecode, h⟩ := Option.bind_eq_some_iff.mp h
  cases h
  exact allUnread_decode hdecode

theorem reloadFiles_of_open (h : store.getReferenceTable codecs = some t) (id : ℤ) :
    store.reloadFiles codecs id =
      (t.archives.get? id).bind fun a => loadedFiles codecs (store.read id) a.files := by
  have houtcome : store.reloadFiles codecs id =
      outcomeFiles (t.loadArchive codecs store.read id).2 := by
    rw [Store.reloadFiles, h, Option.bind_eq_bind, Option.bind_some]
    cases (t.loadArchive codecs store.read id).2 with
    | returned archive => cases archive <;> rfl
    | containerThrown => rfl
    | payloadThrown => rfl
  rw [houtcome, loadArchive]
  cases hget : t.archives.get? id with
  | none => rfl
  | some a => exact outcomeFiles_loadEntry _ (allUnread_of_open h id a hget).loaded

/-- The table in memory has the contents `c`, of which the store has what no archive waits to
write. -/
structure Mirrors (codecs : Codecs) (t : ReferenceTable) (store : Store) (c : Contents) : Prop where
  wellFormed : t.WellFormed
  absent : ∀ id, t.archives.get? id = none → ∀ f, c id f = none
  clean : ∀ id a, t.archives.get? id = some a → a.requiresUpdate = false → ∀ f,
    c id f = (loadedFiles codecs (store.read id) (tableFiles t.mask a.files)).bind (dataOf · f)
  loaded : ∀ id a, t.archives.get? id = some a → a.loaded = true → ∀ f, c id f = dataOf a.files f
  unloaded : ∀ id a, t.archives.get? id = some a → a.loaded = false → Unread t.mask a

theorem mirrors_of_open (h : store.getReferenceTable codecs = some t) (ht : t.WellFormed) :
    Mirrors codecs t store (store.contents codecs) where
  wellFormed := ht
  absent id hid f := by
    rw [Store.contents, reloadFiles_of_open h, hid]
    rfl
  clean id a ha _ f := by
    rw [Store.contents, reloadFiles_of_open h, ha, (allUnread_of_open h id a ha).tableFiles]
    rfl
  loaded id a ha hloaded := by
    rw [(allUnread_of_open h id a ha).loaded] at hloaded
    cases hloaded
  unloaded id a ha _ := allUnread_of_open h id a ha

theorem ReferenceTable.WellFormed.insert {id : ℤ} {a b : Archive} (ht : t.WellFormed)
    (ha : t.archives.get? id = some a) (hfit : IdsFit t.format b.files.keys)
    (hwhirlpool : b.whirlpool = a.whirlpool) :
    ReferenceTable.WellFormed { t with archives := t.archives.insert id b } := by
  have hvalues : ∀ b' ∈ (t.archives.insert id b).values,
      b' = b ∨ b' ∈ t.archives.values := by
    intro b' hb'
    obtain ⟨j, hj⟩ := SortedMap.mem_values.mp hb'
    rw [SortedMap.get?_insert] at hj
    split_ifs at hj
    · exact Or.inl (Option.some.inj hj).symm
    · exact Or.inr (SortedMap.mem_values.mpr ⟨j, hj⟩)
  refine ⟨ht.format, ht.mask, ?_, fun b' hb' => ?_, fun hw b' hb' => ?_⟩
  · change IdsFit t.format (t.archives.insert id b).keys
    rw [SortedMap.keys_insert_of_mem (SortedMap.mem_keys.mpr ⟨a, ha⟩)]
    exact ht.archiveIds
  · rcases hvalues b' hb' with rfl | hb'
    · exact hfit
    · exact ht.fileIds b' hb'
  · rcases hvalues b' hb' with rfl | hb'
    · rw [hwhirlpool]
      exact ht.whirlpools hw a (SortedMap.mem_values.mpr ⟨id, ha⟩)
    · exact ht.whirlpools hw b' hb'

/-- An archive that is loaded takes the place of another. -/
theorem Mirrors.insert {c' : Contents} (h : Mirrors codecs t store c) {id : ℤ} {a b : Archive}
    (ha : t.archives.get? id = some a) (hfit : IdsFit t.format b.files.keys)
    (hwhirlpool : b.whirlpool = a.whirlpool) (hloaded : b.loaded = true)
    (hdata : ∀ f, c' id f = dataOf b.files f)
    (hclean : b.requiresUpdate = false → ∀ f, c' id f =
      (loadedFiles codecs (store.read id) (tableFiles t.mask b.files)).bind (dataOf · f))
    (hother : ∀ j, j ≠ id → c' j = c j) :
    Mirrors codecs { t with archives := t.archives.insert id b } store c' := by
  have hget : ∀ j, (t.archives.insert id b).get? j = if j = id then some b else t.archives.get? j :=
    fun j => SortedMap.get?_insert _ _ _ _
  refine ⟨h.wellFormed.insert ha hfit hwhirlpool, fun j hj f => ?_, fun j d hd hunchanged f => ?_,
    fun j d hd hd' f => ?_, fun j d hd hd' => ?_⟩
  · rw [hget] at hj
    split_ifs at hj with hid
    rw [hother j hid]
    exact h.absent j hj f
  · rw [hget] at hd
    split_ifs at hd with hid
    · cases hd
      rw [hid]
      exact hclean hunchanged f
    · rw [hother j hid]
      exact h.clean j d hd hunchanged f
  · rw [hget] at hd
    split_ifs at hd with hid
    · cases hd
      rw [hid]
      exact hdata f
    · rw [hother j hid]
      exact h.loaded j d hd hd' f
  · rw [hget] at hd
    split_ifs at hd with hid
    · cases hd
      rw [hloaded] at hd'
      cases hd'
    · exact h.unloaded j d hd hd'

theorem loadEntry_returned_none {raw : Option (List Byte)} {a : Archive}
    (h : (loadEntry codecs raw a).2 = .returned none) : (loadEntry codecs raw a).1 = a := by
  unfold loadEntry at h ⊢
  split_ifs at h ⊢
  · rfl
  · cases raw with
    | none => rfl
    | some stored =>
      dsimp only at h ⊢
      cases hcontainer : Container.decode codecs stored with
      | none => rfl
      | some container =>
        rw [hcontainer] at h
        dsimp only at h ⊢
        split_ifs at h ⊢
        cases h

/-- A load changes neither what the table mirrors nor what waits for an update. -/
theorem Mirrors.load (h : Mirrors codecs t store c) {id : ℤ} {archive : Option Archive}
    (hload : t.loadArchive codecs store.read id = (t', .returned archive)) :
    Mirrors codecs t' store c ∧ (t'.AllClean → t.AllClean) := by
  rw [loadArchive] at hload
  cases hget : t.archives.get? id with
  | none =>
    rw [hget] at hload
    cases hload
    exact ⟨h, fun hclean => hclean⟩
  | some a =>
    rw [hget] at hload
    obtain ⟨ht', houtcome⟩ := Prod.mk.inj hload
    by_cases hsame : (loadEntry codecs (store.read id) a).1 = a
    · rw [hsame, (insert_archive_eq_iff hget).mpr rfl] at ht'
      rw [← ht']
      exact ⟨h, fun hclean => hclean⟩
    · cases archive with
      | none => exact absurd (loadEntry_returned_none houtcome) hsame
      | some b =>
        have hunloaded : a.loaded = false := by
          by_contra hloaded
          apply hsame
          unfold loadEntry
          rw [if_pos (Bool.eq_true_of_not_eq_false hloaded)]
        obtain ⟨hstate, hb, htable, hfiles⟩ := loadEntry_returned hunloaded houtcome
        have hunread := h.unloaded id a hget hunloaded
        have hkeys : b.files.keys = a.files.keys := by
          rw [← keys_tableFiles t.mask b.files, htable, keys_tableFiles]
        have hrequires : b.requiresUpdate = false := by
          rw [hb]
          exact hunread.requiresUpdate
        have hc := h.clean id a hget hunread.requiresUpdate
        rw [← ht', hstate]
        refine ⟨h.insert hget ?_ ?_ ?_ (fun f => ?_) (fun _ f => ?_) fun _ _ => rfl,
          fun hclean j d hd => ?_⟩
        · rw [hkeys]
          exact h.wellFormed.fileIds a (SortedMap.mem_values.mpr ⟨id, hget⟩)
        · rw [hb]
        · rw [hb]
        · rw [hc f, hunread.tableFiles, hfiles]
          rfl
        · rw [htable]
          exact hc f
        · by_cases hid : j = id
          · rw [hid, hget] at hd
            cases hd
            exact hunread.requiresUpdate
          · refine hclean j d ?_
            change (t.archives.insert id b).get? j = some d
            rw [SortedMap.get?_insert, if_neg hid]
            exact hd

theorem Mirrors.putFile (h : Mirrors codecs t store c) (p : FilePut) {a : Archive}
    (ha : t.archives.get? p.archive = some a) (hloaded : a.loaded = true)
    (hfit : IdsFit t.format (a.putFile p.file p.data).files.keys) :
    Mirrors codecs (t.putFile p.archive p.file p.data) store (c.put p) ∧
      ¬(t.putFile p.archive p.file p.data).AllClean := by
  have hinsert : t.putFile p.archive p.file p.data =
      { t with archives := t.archives.insert p.archive (a.putFile p.file p.data) } := by
    have hsame : (t.archives.modify p.archive fun a => a.putFile p.file p.data) =
        t.archives.insert p.archive (a.putFile p.file p.data) := by
      apply SortedMap.ext_get?
      intro j
      rw [SortedMap.get?_modify, SortedMap.get?_insert]
      split_ifs with hj
      · rw [hj, ha, Option.map_some]
      · rfl
    rw [ReferenceTable.putFile, hsame]
  rw [hinsert]
  refine ⟨h.insert ha hfit rfl hloaded (fun f => ?_) (fun hfalse => Bool.noConfusion hfalse)
    fun j hj => ?_, fun hclean => ?_⟩
  · change (if p.archive = p.archive ∧ f = p.file then some p.data else c p.archive f) =
      ((a.files.insert p.file { data := p.data }).get? f).map (·.data)
    rw [SortedMap.get?_insert, h.loaded _ a ha hloaded f, dataOf]
    by_cases hf : f = p.file
    · rw [if_pos ⟨rfl, hf⟩, if_pos hf]
      rfl
    · rw [if_neg fun hand => hf hand.2, if_neg hf]
  · funext f
    exact if_neg fun hand => hj hand.1
  · have hchanged := hclean p.archive (a.putFile p.file p.data)
      ((SortedMap.get?_insert _ _ _ _).trans (if_pos rfl))
    cases hchanged

theorem unread_carriedArchive (mask : Word) (a : Archive) : Unread mask (carriedArchive mask a) := by
  refine ⟨rfl, rfl, fun id file hfile => ?_⟩
  rw [carriedArchive, SortedMap.get?_map] at hfile
  obtain ⟨old, -, rfl⟩ := Option.map_eq_some_iff.mp hfile
  exact ⟨rfl, fun hnames => if_neg (by rw [hnames]; exact Bool.false_ne_true)⟩

theorem wellFormed_carried (ht : t.WellFormed) : t.carried.WellFormed := by
  have hvalues : ∀ b ∈ t.carried.archives.values, ∃ a ∈ t.archives.values,
      b = carriedArchive t.mask a := by
    intro b hb
    obtain ⟨id, hid⟩ := SortedMap.mem_values.mp hb
    rw [carried, SortedMap.get?_map] at hid
    obtain ⟨a, ha, rfl⟩ := Option.map_eq_some_iff.mp hid
    exact ⟨a, SortedMap.mem_values.mpr ⟨id, ha⟩, rfl⟩
  refine ⟨ht.format, ht.mask, ?_, fun b hb => ?_, fun hw b hb w hwhirlpool => ?_⟩
  · change IdsFit t.format (t.archives.map fun _ a => carriedArchive t.mask a).keys
    rw [SortedMap.keys_map]
    exact ht.archiveIds
  · obtain ⟨a, ha, rfl⟩ := hvalues b hb
    have hkeys : (carriedArchive t.mask a).files.keys = a.files.keys := SortedMap.keys_map _ _
    change IdsFit t.format (carriedArchive t.mask a).files.keys
    rw [hkeys]
    exact ht.fileIds a ha
  · obtain ⟨a, ha, rfl⟩ := hvalues b hb
    have hsame : (carriedArchive t.mask a).whirlpool = a.whirlpool := if_pos hw
    rw [hsame] at hwhirlpool
    exact ht.whirlpools hw a ha w hwhirlpool

/-- What is read again of an archive that was just written. -/
theorem loadedFiles_updated {mask : Word} {a a' : Archive} {compressed : List Byte} {id : ℤ}
    {read : ℤ → Option (List Byte)} (hlzma : codecs.Restores .lzma)
    (hupdate : updateArchive codecs mask a = some (a', compressed))
    (hread : read id = some compressed) (f : ℤ) :
    (loadedFiles codecs (read id) (tableFiles mask a.files)).bind (dataOf · f) = dataOf a.files f := by
  obtain ⟨hupdated, data, hencode, hcompress⟩ := updateArchive_eq_some hupdate
  let u : ReferenceTable := { mask := mask, archives := SortedMap.empty.insert id a' }
  have hget : u.archives.get? id = some a' := (SortedMap.get?_insert _ _ _ _).trans (if_pos rfl)
  obtain ⟨b, hload, -, hfiles⟩ := loadArchive_carried (t := u) hlzma hget hread
    ((Archive.encode_congr hupdated.files).trans hencode) hcompress
  have hcarried : u.carried.archives.get? id = some (carriedArchive mask a') := by
    rw [carried, SortedMap.get?_map, hget]
    rfl
  rw [loadArchive, hcarried] at hload
  have hreloaded := @outcomeFiles_loadEntry codecs _ (read id) (unread_carriedArchive mask a').loaded
  dsimp only at hload
  rw [hload] at hreloaded
  change some b.files = loadedFiles codecs (read id) (tableFiles mask a'.files) at hreloaded
  rw [hupdated.files] at hreloaded
  rw [← hreloaded, Option.bind_some, dataOf, hfiles, hupdated.files, Option.map_map]
  rfl

/-- After an update the store has what the table has. -/
theorem Mirrors.update (hlzma : codecs.Restores .lzma) (h : Mirrors codecs t store c)
    (hupdate : t.update codecs store = some (t', store')) :
    Mirrors codecs t' store' c ∧ t'.AllClean := by
  have hto := updatesTo_of_update hupdate
  have hclean : t'.AllClean := fun id a' ha' => by
    obtain ⟨-, -, -, hrequires, -⟩ := hto.entry ha'
    exact hrequires
  refine ⟨⟨hto.wellFormed h.wellFormed, fun id hid f => ?_, fun id a' ha' _ f => ?_,
    fun id a' ha' hloaded f => ?_, fun id a' ha' hunloaded => ?_⟩, hclean⟩
  · have hnot : id ∉ t.archives.keys := hto.keys ▸ SortedMap.get?_eq_none.mp hid
    exact h.absent id (SortedMap.get?_eq_none.mpr hnot) f
  · obtain ⟨a, ha, hupdated, -, -⟩ := hto.entry ha'
    rw [hto.mask, hupdated.files]
    cases hchanged : a.requiresUpdate with
    | false =>
      rw [(hto.clean id a ha hchanged).2]
      exact h.clean id a ha hchanged f
    | true =>
      obtain ⟨b, compressed, hwritten, -, hread⟩ := hto.changed id a ha hchanged
      rw [loadedFiles_updated hlzma hwritten hread]
      have hloaded : a.loaded = true := by
        by_contra hunloaded
        have hunread := h.unloaded id a ha (Bool.eq_false_of_not_eq_true hunloaded)
        rw [hunread.requiresUpdate] at hchanged
        cases hchanged
      exact h.loaded id a ha hloaded f
  · obtain ⟨a, ha, hupdated, -, hsame⟩ := hto.entry ha'
    rw [hupdated.files]
    exact h.loaded id a ha (hsame ▸ hloaded) f
  · obtain ⟨a, ha, -, -, hsame⟩ := hto.entry ha'
    have hunread := h.unloaded id a ha (hsame ▸ hunloaded)
    have hget := (hto.clean id a ha hunread.requiresUpdate).1
    have heq : a' = a := Option.some.inj (ha'.symm.trans hget)
    rw [heq, hto.mask]
    exact hunread

/-- The table that an update writes is read again as it is, and well formed. -/
theorem open_of_update (hgzip : codecs.Restores .gzip) (ht : t.WellFormed) (hchanged : ¬t.AllClean)
    (hupdate : t.update codecs store = some (t', store')) :
    store'.getReferenceTable codecs = some t'.carried ∧ t'.carried.WellFormed := by
  have hto := updatesTo_of_update hupdate
  have ht' := hto.wellFormed ht
  obtain ⟨data, compressed, hencode, hcompress, hstored⟩ := hto.table hchanged
  exact ⟨getReferenceTable_eq hgzip ht' hencode hcompress hstored, wellFormed_carried ht'⟩

theorem contents_update (hlzma : codecs.Restores .lzma) (hgzip : codecs.Restores .gzip)
    (h : Mirrors codecs t store c) (hchanged : ¬t.AllClean)
    (hupdate : t.update codecs store = some (t', store')) : store'.contents codecs = c := by
  obtain ⟨h', hclean⟩ := h.update hlzma hupdate
  obtain ⟨hopen, -⟩ := open_of_update hgzip h.wellFormed hchanged hupdate
  funext id f
  rw [Store.contents, reloadFiles_of_open hopen, carried, SortedMap.get?_map]
  cases hget : t'.archives.get? id with
  | none => exact (h'.absent id hget f).symm
  | some a' => exact (h'.clean id a' hget (hclean id a' hget) f).symm

/-- The contents after some puts. -/
def Contents.putAll (c : Contents) (puts : List FilePut) : Contents := puts.foldl Contents.put c

theorem Contents.putAll_append (c : Contents) (puts more : List FilePut) :
    c.putAll (puts ++ more) = (c.putAll puts).putAll more := List.foldl_append

/-- How the table, the store and the contents stand between two steps. -/
structure Holds (codecs : Codecs) (store₀ : Store) (t : ReferenceTable) (store : Store)
    (flushed pending : List FilePut) : Prop where
  mirrors : Mirrors codecs t store ((store₀.contents codecs).putAll (flushed ++ pending))
  stored : store.contents codecs = (store₀.contents codecs).putAll flushed
  changed : pending ≠ [] → ¬t.AllClean
  reopens : ∀ fresh, store.getReferenceTable codecs = some fresh → fresh.WellFormed

theorem holds_of_session {store₀ : Store} {flushed pending : List FilePut}
    (hlzma : codecs.Restores .lzma) (hgzip : codecs.Restores .gzip)
    (hfirst : ∀ t₀, store₀.getReferenceTable codecs = some t₀ → t₀.WellFormed)
    (h : Session codecs store₀ t store flushed pending) :
    Holds codecs store₀ t store flushed pending := by
  induction h with
  | opened hopen =>
    exact ⟨mirrors_of_open hopen (hfirst _ hopen), rfl, fun hne => absurd rfl hne, hfirst⟩
  | load _ id hload ih =>
    obtain ⟨hmirrors, hclean⟩ := ih.mirrors.load hload
    exact ⟨hmirrors, ih.stored, fun hne hall => ih.changed hne (hclean hall), ih.reopens⟩
  | putFile _ p ha hloaded hfit ih =>
    obtain ⟨hmirrors, hchanged⟩ := ih.mirrors.putFile p ha hloaded hfit
    refine ⟨?_, ih.stored, fun _ => hchanged, ih.reopens⟩
    rw [← List.append_assoc, Contents.putAll_append]
    exact hmirrors
  | @update t t' store store' flushed pending _ hupdate ih =>
    obtain ⟨hmirrors, hclean⟩ := ih.mirrors.update hlzma hupdate
    by_cases hall : t.AllClean
    · have hnone : pending = [] := by
        by_contra hne
        exact ih.changed hne hall
      rw [update_of_allClean hall] at hupdate
      cases hupdate
      subst hnone
      have hmirrors' := ih.mirrors
      rw [← List.append_nil (flushed ++ [])] at hmirrors'
      refine ⟨hmirrors', ?_, fun hne => absurd rfl hne, ih.reopens⟩
      rw [List.append_nil]
      exact ih.stored
    · obtain ⟨hopen, hfresh⟩ := open_of_update hgzip ih.mirrors.wellFormed hall hupdate
      rw [← List.append_nil (flushed ++ pending)] at hmirrors
      refine ⟨hmirrors, contents_update hlzma hgzip ih.mirrors hall hupdate,
        fun hne => absurd rfl hne, fun fresh hfresh' => ?_⟩
      rw [hopen] at hfresh'
      cases hfresh'
      exact hfresh
  | reopen _ hopen ih =>
    have hmirrors := mirrors_of_open hopen (ih.reopens _ hopen)
    rw [ih.stored] at hmirrors
    refine ⟨?_, ih.stored, fun hne => absurd rfl hne, ih.reopens⟩
    rw [List.append_nil]
    exact hmirrors

/-- After any run of loads, puts, updates and restarts, a table that is read again has what the
store had first and what was put in front of the last update; the archives in memory have also what
was put since then; and a second update changes nothing. -/
theorem contents_session {store₀ : Store} {flushed pending : List FilePut}
    (hlzma : codecs.Restores .lzma) (hgzip : codecs.Restores .gzip)
    (hfirst : ∀ t₀, store₀.getReferenceTable codecs = some t₀ → t₀.WellFormed)
    (h : Session codecs store₀ t store flushed pending) :
    store.contents codecs = (store₀.contents codecs).putAll flushed ∧
      (∀ id a, t.archives.get? id = some a → a.loaded = true → ∀ f,
        dataOf a.files f = (store₀.contents codecs).putAll (flushed ++ pending) id f) ∧
      ∀ t' store', t.update codecs store = some (t', store') →
        store'.contents codecs = (store₀.contents codecs).putAll (flushed ++ pending) ∧
          t'.update codecs store' = some (t', store') := by
  have hholds := holds_of_session hlzma hgzip hfirst h
  refine ⟨hholds.stored, fun id a ha hloaded f => (hholds.mirrors.loaded id a ha hloaded f).symm,
    fun t' store' hupdate => ⟨?_, ?_⟩⟩
  · exact (holds_of_session hlzma hgzip hfirst (h.update hupdate)).stored
  · exact update_of_allClean (hholds.mirrors.update hlzma hupdate).2

theorem wellFormed_namedTable : namedTable.WellFormed := by
  have hkeys : namedTable.archives.keys = [4] := by decide
  have hfiles : ∀ a ∈ namedTable.archives.values, a.files.keys = [0, 1] := by decide
  refine ⟨Or.inr (Or.inr rfl), by decide, ?_, fun a ha => ?_, fun hmask => absurd hmask (by decide)⟩
  · rw [hkeys]
    exact ⟨by simp [IsId], by simp [namedTable]⟩
  · rw [hfiles a ha]
    exact ⟨by simp [IsId], by simp [namedTable]⟩

theorem returned_of_outcomeFiles {outcome : LoadOutcome} (h : (outcomeFiles outcome).isSome) :
    ∃ archive, outcome = .returned archive := by
  cases outcome with
  | returned archive => exact ⟨archive, rfl⟩
  | containerThrown => cases h
  | payloadThrown => cases h

/-- A store that holds `namedTable`, and what becomes of it where its archive is loaded, changed and
written; the last is what the table that is then read says of the archive. -/
def rewritten (p : FilePut) : Option (Store × ReferenceTable × Store × ReferenceTable × Archive) := do
  let first ← (namedTable.putFile 4 1 [3]).update storedOnly emptyStore
  let t ← first.2.getReferenceTable storedOnly
  let loaded := t.loadArchive storedOnly first.2.read 4
  let a ← loaded.1.archives.get? p.archive
  if (outcomeFiles loaded.2).isSome ∧ a.loaded ∧ (a.putFile p.file p.data).files.keys = [0, 1] ∧
      loaded.1.format = 7 then do
    let last ← (loaded.1.putFile p.archive p.file p.data).update storedOnly first.2
    let fresh ← last.2.getReferenceTable storedOnly
    let entry ← fresh.archives.get? p.archive
    if entry.version = -1 then none else return (first.2, last.1, last.2, fresh, entry)
  else none

theorem session_rewritten : ∃ store₀ t store fresh entry,
    Session storedOnly store₀ t store [⟨4, 0, [7]⟩] [] ∧
      (∀ t₀, store₀.getReferenceTable storedOnly = some t₀ → t₀.WellFormed) ∧
      store.getReferenceTable storedOnly = some fresh ∧ fresh.archives.get? 4 = some entry ∧
      entry.version ≠ -1 := by
  have hsome : (rewritten ⟨4, 0, [7]⟩).isSome := by decide +kernel
  obtain ⟨⟨store₀, t, store, fresh, entry⟩, h⟩ := Option.isSome_iff_exists.mp hsome
  clear hsome
  unfold rewritten at h
  simp only [Option.bind_eq_bind] at h
  obtain ⟨⟨t₁, store₁⟩, hfirst, h⟩ := Option.bind_eq_some_iff.mp h
  obtain ⟨t₂, hopen, h⟩ := Option.bind_eq_some_iff.mp h
  obtain ⟨a, ha, h⟩ := Option.bind_eq_some_iff.mp h
  dsimp only at h
  split_ifs at h with hguard
  obtain ⟨houtcome, hloaded, hkeys, hformat⟩ := hguard
  obtain ⟨⟨t₃, store₃⟩, hlast, h⟩ := Option.bind_eq_some_iff.mp h
  obtain ⟨t₄, hagain, h⟩ := Option.bind_eq_some_iff.mp h
  obtain ⟨b, hb, h⟩ := Option.bind_eq_some_iff.mp h
  split_ifs at h with hversion
  cases h
  obtain ⟨archive, hreturned⟩ := returned_of_outcomeFiles houtcome
  have hchanged : ¬(namedTable.putFile 4 1 [3]).AllClean := by
    intro hclean
    have hfalse := hclean 4 _ rfl
    revert hfalse
    decide
  have hwell : (namedTable.putFile 4 1 [3]).WellFormed :=
    wellFormed_namedTable.putFile (a := namedArchive) rfl (by decide)
  obtain ⟨hread, hfresh⟩ := open_of_update (fun _ _ => rfl) hwell hchanged hfirst
  have hfit : IdsFit (t₂.loadArchive storedOnly store₀.read 4).1.format
      (a.putFile 0 [7]).files.keys := by
    rw [hkeys, hformat]
    exact ⟨by simp [IsId], by simp⟩
  have hsession := ((Session.opened hopen).load 4 (Prod.ext rfl hreturned)).putFile ⟨4, 0, [7]⟩ ha
    hloaded hfit |>.update hlast
  refine ⟨_, _, _, _, _, hsession, fun t₀ ht₀ => ?_, hagain, hb, hversion⟩
  rw [hread] at ht₀
  cases ht₀
  exact hfresh

theorem contents_session_rewritten : ∃ store₀ t store,
    Session storedOnly store₀ t store [⟨4, 0, [7]⟩] [] ∧
      store.contents storedOnly = (store₀.contents storedOnly).put ⟨4, 0, [7]⟩ := by
  obtain ⟨store₀, t, store, -, -, hsession, hfirst, -⟩ := session_rewritten
  exact ⟨store₀, t, store, hsession,
    (contents_session (fun _ _ => rfl) (fun _ _ => rfl) hfirst hsession).1⟩

end Session

end OpenNXT.Filesystem
