import OpenNXT.Ext.ByteBuffer
import OpenNXT.Filesystem.ArchiveLoading
import OpenNXT.Filesystem.ContainerCodec
import OpenNXT.Filesystem.RoundTrip
import OpenNXT.Util.Whirlpool
import Mathlib.Logic.Function.Basic

/-! Writing changed archives and their table back, and what a fresh table says afterwards. -/
namespace OpenNXT.Filesystem
open Buffer Data Ext Util

/-- What is stored of one index. -/
structure Store where
  read : ℤ → Option (List Byte)
  referenceTable : Option (List Byte)

namespace Store

def write (store : Store) (archive : ℤ) (compressed : List Byte) : Store :=
  { store with read := Function.update store.read archive (some compressed) }

def writeReferenceTable (store : Store) (compressed : List Byte) : Store :=
  { store with referenceTable := some compressed }

/-- The table as it is read for the first time; `none` if it is not there, or is an exception. -/
def getReferenceTable (codecs : Codecs) (store : Store) : Option ReferenceTable := do
  let raw ← store.referenceTable
  let container ← Container.decode codecs raw
  let (t, _) ← ReferenceTable.decode {} container.data
  return t

/-- The files of an archive, loaded through a table that was just read. -/
def reloadFiles (codecs : Codecs) (store : Store) (id : ℤ) : Option (SortedMap ℤ ArchiveFile) := do
  let t ← store.getReferenceTable codecs
  match (t.loadArchive codecs store.read id).2 with
  | .returned (some archive) => return archive.files
  | _ => none

end Store

theorem ArchiveFile.option_ext {o o' : Option ArchiveFile} (hdata : o.map (·.data) = o'.map (·.data))
    (hname : o.map (·.name) = o'.map (·.name)) : o = o' := by
  obtain _ | ⟨data, name⟩ := o
  · exact (Option.map_eq_none_iff.mp hdata.symm).symm
  obtain _ | ⟨data', name'⟩ := o'
  · cases hdata
  cases hdata
  cases hname
  rfl

namespace ReferenceTable

/-- `archive.putFile` on an archive of the table. -/
def putFile (t : ReferenceTable) (id file : ℤ) (data : List Byte) : ReferenceTable :=
  { t with archives := t.archives.modify id fun a => a.putFile file data }

/-- The archive with its new version and checksums, and what is written of it. -/
def updateArchive (codecs : Codecs) (mask : Word) (archive : Archive) :
    Option (Archive × List Byte) := do
  let archive := { archive with version := archive.version + 1, requiresUpdate := false }
  let data ← archive.encode
  let compressed ← Container.compress codecs
    { data := data, compression := .lzma, version := archive.version }
  let checked := compressed.take (compressed.length - 2)
  return ({ archive with
      crc := getCrc32 checked
      whirlpool := if hasWhirlpools mask then some (Whirlpool.getHash checked)
        else archive.whirlpool }, compressed)

def updateEntry (codecs : Codecs) (mask : Word) (p : SortedMap ℤ Archive × Store)
    (e : ℤ × Archive) : Option (SortedMap ℤ Archive × Store) := do
  let (archive, compressed) ← updateArchive codecs mask e.2
  return (p.1.insert e.1 archive, p.2.write e.1 compressed)

def bumpVersion (codecs : Codecs) (t : ReferenceTable) (store : Store) :
    Option (ReferenceTable × Store) := do
  let t := { t with version := t.version + 1 }
  let data ← t.encode
  let compressed ← Container.compress codecs { data := data, compression := .gzip }
  return (t, store.writeReferenceTable compressed)

/-- `none` is an exception. -/
def update (codecs : Codecs) (t : ReferenceTable) (store : Store) :
    Option (ReferenceTable × Store) := do
  let toUpdate := t.archives.entries.filter fun e => e.2.requiresUpdate
  let (archives, store) ← toUpdate.foldlM (updateEntry codecs t.mask) (t.archives, store)
  let t := { t with archives := archives }
  if toUpdate.isEmpty then return (t, store) else bumpVersion codecs t store

section Entries
variable {codecs : Codecs} {mask : Word}

/-- What an update leaves of an archive: its files, and a whirlpool of the right size. -/
structure Updated (mask : Word) (a a' : Archive) : Prop where
  files : a'.files = a.files
  whirlpool : ∀ w ∈ a'.whirlpool, w.length = 64 ∨ a.whirlpool = some w

theorem updateArchive_eq_some {a a' : Archive} {compressed : List Byte}
    (h : updateArchive codecs mask a = some (a', compressed)) :
    Updated mask a a' ∧ ∃ data, a.encode = some data ∧
      Container.compress codecs { data := data, compression := .lzma, version := a'.version } =
        some compressed := by
  obtain ⟨data, hencode, h⟩ := Option.bind_eq_some_iff.mp h
  obtain ⟨stored, hcompress, h⟩ := Option.bind_eq_some_iff.mp h
  cases h
  refine ⟨⟨rfl, ?_⟩, data, hencode, hcompress⟩
  dsimp only
  split_ifs with hmask
  · intro w hw
    cases hw
    exact Or.inl (Whirlpool.length_getHash _)
  · intro w hw
    exact Or.inr hw

theorem foldlM_updateEntry {es : List (ℤ × Archive)} {m m' : SortedMap ℤ Archive}
    {store store' : Store} (hnodup : (es.map Prod.fst).Nodup) (hkeys : ∀ e ∈ es, e.1 ∈ m.keys)
    (h : es.foldlM (updateEntry codecs mask) (m, store) = some (m', store')) :
    m'.keys = m.keys ∧
      (∀ j, j ∉ es.map Prod.fst → m'.get? j = m.get? j ∧ store'.read j = store.read j) ∧
      ∀ e ∈ es, ∃ a compressed, updateArchive codecs mask e.2 = some (a, compressed) ∧
        m'.get? e.1 = some a ∧ store'.read e.1 = some compressed := by
  induction es generalizing m store with
  | nil =>
    cases h
    exact ⟨rfl, fun _ _ => ⟨rfl, rfl⟩, fun _ he => absurd he List.not_mem_nil⟩
  | cons e es ih =>
    rw [List.foldlM_cons] at h
    obtain ⟨⟨m₁, store₁⟩, hfirst, h⟩ := Option.bind_eq_some_iff.mp h
    obtain ⟨⟨a, compressed⟩, hupdate, hfirst⟩ := Option.bind_eq_some_iff.mp hfirst
    cases hfirst
    obtain ⟨hnotMem, hnodup⟩ := List.nodup_cons.mp hnodup
    have hsame := SortedMap.keys_insert_of_mem (hkeys e List.mem_cons_self) a
    have hrest : ∀ d ∈ es, d.1 ∈ (m.insert e.1 a).keys := fun d hd => by
      rw [hsame]
      exact hkeys d (List.mem_cons_of_mem _ hd)
    obtain ⟨hkeys', hothers, hall⟩ := ih hnodup hrest h
    refine ⟨hkeys'.trans hsame, ?_, ?_⟩
    · intro j hj
      obtain ⟨hne, hj⟩ := not_or.mp (mt List.mem_cons.mpr hj)
      obtain ⟨hget, hread⟩ := hothers j hj
      rw [hget, hread, SortedMap.get?_insert, if_neg hne, Store.write]
      exact ⟨rfl, Function.update_of_ne hne _ _⟩
    · intro d hd
      obtain rfl | hd := List.mem_cons.mp hd
      · obtain ⟨hget, hread⟩ := hothers d.1 hnotMem
        refine ⟨a, compressed, hupdate, ?_, ?_⟩
        · rw [hget, SortedMap.get?_insert, if_pos rfl]
        · rw [hread, Store.write]
          exact Function.update_self _ _ _
      · exact hall d hd

end Entries

section Update
variable {codecs : Codecs} {t t' : ReferenceTable} {store store' : Store}

/-- A changed archive is written, its entry points to what was written, and the others stay. -/
theorem update_eq_some {id : ℤ} {a : Archive} (ha : t.archives.get? id = some a)
    (hchanged : a.requiresUpdate = true) (h : t.update codecs store = some (t', store')) :
    t'.format = t.format ∧ t'.mask = t.mask ∧ t'.archives.keys = t.archives.keys ∧
      (∀ j b', t'.archives.get? j = some b' →
        ∃ b, t.archives.get? j = some b ∧ Updated t.mask b b') ∧
      (∃ a' compressed data, t'.archives.get? id = some a' ∧ store'.read id = some compressed ∧
        a'.files = a.files ∧ a.encode = some data ∧
        Container.compress codecs { data := data, compression := .lzma, version := a'.version } =
          some compressed) ∧
      ∃ data compressed, t'.encode = some data ∧
        Container.compress codecs { data := data, compression := .gzip } = some compressed ∧
        store'.referenceTable = some compressed := by
  let toUpdate := t.archives.entries.filter fun e => e.2.requiresUpdate
  have hentry : (id, a) ∈ toUpdate :=
    List.mem_filter.mpr ⟨SortedMap.get?_eq_some.mp ha, hchanged⟩
  obtain ⟨⟨m', store₁⟩, hfold, h⟩ := Option.bind_eq_some_iff.mp h
  dsimp only at h
  rw [if_neg (by
    rw [List.isEmpty_iff]
    exact List.ne_nil_of_mem hentry)] at h
  obtain ⟨data, hencode, h⟩ := Option.bind_eq_some_iff.mp h
  obtain ⟨compressed, hcompress, h⟩ := Option.bind_eq_some_iff.mp h
  cases h
  have hnodup : (toUpdate.map Prod.fst).Nodup :=
    t.archives.nodup_keys.sublist (List.filter_sublist.map Prod.fst)
  have hmem : ∀ e ∈ toUpdate, e.1 ∈ t.archives.keys :=
    fun e he => List.mem_map_of_mem (List.mem_filter.mp he).1
  obtain ⟨hkeys, hothers, hall⟩ := foldlM_updateEntry hnodup hmem hfold
  refine ⟨rfl, rfl, hkeys, ?_, ?_, data, compressed, hencode, hcompress, rfl⟩
  · intro j b' hb'
    by_cases hj : j ∈ toUpdate.map Prod.fst
    · obtain ⟨e, he, rfl⟩ := List.mem_map.mp hj
      obtain ⟨a', _, hupdate, hget, -⟩ := hall e he
      have hsame : b' = a' := Option.some.inj (hb'.symm.trans hget)
      refine ⟨e.2, SortedMap.get?_eq_some.mpr (List.mem_filter.mp he).1, ?_⟩
      rw [hsame]
      exact (updateArchive_eq_some hupdate).1
    · have hget : t.archives.get? j = some b' := (hothers j hj).1.symm.trans hb'
      exact ⟨b', hget, rfl, fun w hw => Or.inr hw⟩
  · obtain ⟨a', stored, hupdate, hget, hread⟩ := hall (id, a) hentry
    obtain ⟨hupdated, payload, hpayload, hstored⟩ := updateArchive_eq_some hupdate
    exact ⟨a', stored, payload, hget, hread, hupdated.files, hpayload, hstored⟩

/-- An update keeps a table well formed. -/
theorem WellFormed.update {id : ℤ} {a : Archive} (ht : t.WellFormed)
    (ha : t.archives.get? id = some a) (hchanged : a.requiresUpdate = true)
    (h : t.update codecs store = some (t', store')) : t'.WellFormed := by
  obtain ⟨hformat, hmask, hkeys, hall, -, -⟩ := update_eq_some ha hchanged h
  constructor
  · rw [hformat]
    exact ht.format
  · rw [hmask]
    exact ht.mask
  · rw [hformat, hkeys]
    exact ht.archiveIds
  · intro b' hb'
    obtain ⟨j, hj⟩ := SortedMap.mem_values.mp hb'
    obtain ⟨b, hb, hupdated⟩ := hall j b' hj
    rw [hformat, hupdated.files]
    exact ht.fileIds b (SortedMap.mem_values.mpr ⟨j, hb⟩)
  · intro hw b' hb' w hwhirlpool
    obtain ⟨j, hj⟩ := SortedMap.mem_values.mp hb'
    obtain ⟨b, hb, hupdated⟩ := hall j b' hj
    rw [hmask] at hw
    obtain hlen | hold := hupdated.whirlpool w hwhirlpool
    · exact hlen
    · exact ht.whirlpools hw b (SortedMap.mem_values.mpr ⟨j, hb⟩) w hold

theorem WellFormed.putFile {id file : ℤ} {a : Archive} {data : List Byte} (ht : t.WellFormed)
    (ha : t.archives.get? id = some a) (hfile : file ∈ a.files.keys) :
    (t.putFile id file data).WellFormed := by
  have hvalues : ∀ b' ∈ (t.putFile id file data).archives.values, ∃ b ∈ t.archives.values,
      b'.files.keys = b.files.keys ∧ b'.whirlpool = b.whirlpool := by
    intro b' hb'
    obtain ⟨j, hj⟩ := SortedMap.mem_values.mp hb'
    rw [ReferenceTable.putFile, SortedMap.get?_modify] at hj
    split_ifs at hj with hid
    · rw [hid, ha] at hj
      cases hj
      exact ⟨a, SortedMap.mem_values.mpr ⟨id, ha⟩, SortedMap.keys_insert_of_mem hfile _, rfl⟩
    · exact ⟨b', SortedMap.mem_values.mpr ⟨j, hj⟩, rfl, rfl⟩
  constructor
  · exact ht.format
  · exact ht.mask
  · have hkeys : (t.putFile id file data).archives.keys = t.archives.keys :=
      SortedMap.keys_modify _ _ _
    rw [hkeys]
    exact ht.archiveIds
  · intro b' hb'
    obtain ⟨b, hb, hkeys, -⟩ := hvalues b' hb'
    rw [hkeys]
    exact ht.fileIds b hb
  · intro hw b' hb'
    obtain ⟨b, hb, -, hwhirlpool⟩ := hvalues b' hb'
    rw [hwhirlpool]
    exact ht.whirlpools hw b hb

end Update

section Reload
variable {codecs : Codecs}

theorem getReferenceTable_eq {t : ReferenceTable} {store : Store} {data compressed : List Byte}
    (hgzip : codecs.Restores .gzip) (ht : t.WellFormed) (hencode : t.encode = some data)
    (hcompress : Container.compress codecs { data := data, compression := .gzip } = some compressed)
    (hstored : store.referenceTable = some compressed) :
    store.getReferenceTable codecs = some t.carried := by
  obtain ⟨rfl, hlength, hwhirlpools⟩ := encode_eq_some hencode
  have hlimit : t.layout.length < maxArray := by
    unfold bufferSize at hlength
    unfold maxArray
    omega
  obtain ⟨version, hdecode⟩ := Container.decode_compress (fun _ => hgzip) hlimit hcompress
  have hread := (t.reads_layout ht hlength hwhirlpools).run
  rw [Store.getReferenceTable, hstored, Option.bind_eq_bind, Option.bind_some, hdecode,
    Option.bind_eq_bind, Option.bind_some]
  dsimp only
  rw [hread]
  rfl

/-- What is kept of a file: its data, and its name where the table has names. -/
def carriedFile (mask : Word) (file : ArchiveFile) : ArchiveFile where
  data := file.data
  name := if hasNames mask then file.name else 0

/-- An encoded archive is loaded through a table that carries its files. -/
theorem loadArchive_carried {t : ReferenceTable} {read : ℤ → Option (List Byte)} {id : ℤ}
    {a : Archive} {data compressed : List Byte} (hlzma : codecs.Restores .lzma)
    (ha : t.archives.get? id = some a) (hread : read id = some compressed)
    (hencode : a.encode = some data)
    (hcompress : Container.compress codecs
      { data := data, compression := .lzma, version := a.version } = some compressed) :
    ∃ b, (t.carried.loadArchive codecs read id).2 = .returned (some b) ∧
      b.files.keys = a.files.keys ∧
        ∀ file, b.files.get? file = (a.files.get? file).map (carriedFile t.mask) := by
  have hlimit := Archive.length_encode hencode
  obtain ⟨version, hcontainer⟩ := Container.decode_compress (fun _ => hlzma) hlimit hcompress
  have hget : t.carried.archives.get? id = some (carriedArchive t.mask a) := by
    rw [carried, SortedMap.get?_map, ha, Option.map_some]
  have hkeys : (carriedArchive t.mask a).files.keys = a.files.keys := SortedMap.keys_map _ _
  obtain ⟨files, hlen, hdata, hdecode⟩ := Archive.decode_packed hencode hkeys
  have hload := Archive.decodeInPlace_of_decode hlimit hdecode
  have hset := Archive.keys_setData hlen
  have hentry := loadEntry_of_payload (a := carriedArchive t.mask a) rfl hcontainer hlimit
  dsimp only at hentry
  rw [hload] at hentry
  let b : Archive := { carriedArchive t.mask a with
    loaded := true
    files := Archive.setData (carriedArchive t.mask a).files files }
  refine ⟨b, ?_, hset.trans hkeys, ?_⟩
  · rw [loadArchive, hget, hread]
    dsimp only
    rw [hentry]
    rfl
  · intro file
    have hnames := Archive.get?_map_eq _ hset (Archive.names_setData hlen) file
    have hcontents := Archive.get?_map_eq (·.data) (hset.trans hkeys)
      ((Archive.data_setData hlen).trans hdata) file
    rw [carriedArchive, SortedMap.get?_map] at hnames
    apply ArchiveFile.option_ext
    · rw [Option.map_map]
      exact hcontents
    · rw [Option.map_map]
      rw [Option.map_map] at hnames
      exact hnames

/-- The same ids and names, other data in one file, and the same data in the others. -/
structure Overwritten (file : ℤ) (data : List Byte) (before after : SortedMap ℤ ArchiveFile) :
    Prop where
  ids : after.keys = before.keys
  names : ∀ f, (after.get? f).map (·.name) = (before.get? f).map (·.name)
  data : ∀ f, (after.get? f).map (·.data) = if f = file then some data
    else (before.get? f).map (·.data)

theorem overwritten_iff {mask : Word} {a : Archive} {files : SortedMap ℤ ArchiveFile} {file : ℤ}
    {data : List Byte} (hfile : file ∈ a.files.keys) (hkeys : files.keys = a.files.keys)
    (hget : ∀ f, files.get? f = ((a.putFile file data).files.get? f).map (carriedFile mask)) :
    Overwritten file data a.files files ↔
      ∀ f old, a.files.get? f = some old → f = file ∨ hasNames mask = false → old.name = 0 := by
  have hput : ∀ f, (a.putFile file data).files.get? f =
      if f = file then some { data := data } else a.files.get? f :=
    fun f => SortedMap.get?_insert _ _ _ _
  have hzero : (carriedFile mask { data := data }).name = 0 := by
    unfold carriedFile
    split_ifs <;> rfl
  constructor
  · intro h f old hold hf
    have hname := h.names f
    rw [hget, hput, hold] at hname
    by_cases hsame : f = file
    · rw [if_pos hsame] at hname
      exact (Option.some.inj hname).symm.trans hzero
    · have hnames := hf.resolve_left hsame
      rw [if_neg hsame, Option.map_some, carriedFile, hnames] at hname
      exact (Option.some.inj hname).symm
  · intro h
    refine ⟨hkeys, ?_, ?_⟩
    · intro f
      rw [hget, hput]
      split_ifs with hsame
      · obtain ⟨old, hold⟩ := SortedMap.mem_keys.mp hfile
        have hname := h file old hold (Or.inl rfl)
        rw [hsame, hold, Option.map_some, Option.map_some, Option.map_some, hzero, hname]
      · cases hold : a.files.get? f with
        | none => rfl
        | some old =>
          rw [Option.map_some, Option.map_some, Option.map_some, carriedFile]
          cases hnames : hasNames mask with
          | true => rfl
          | false =>
            rw [h f old hold (Or.inr hnames)]
            rfl
    · intro f
      rw [hget, hput]
      split_ifs with hsame
      · rfl
      · rw [Option.map_map]
        rfl

/-- After a file is overwritten and the table updated, a fresh table differs in the data of that
file alone exactly where the file had no name: `putFile` makes a file without one. -/
theorem update_putFile_iff {codecs : Codecs} {t t' : ReferenceTable} {store store' : Store}
    {id file : ℤ} {a : Archive} {data : List Byte} (hlzma : codecs.Restores .lzma)
    (hgzip : codecs.Restores .gzip) (ht : t.WellFormed) (ha : t.archives.get? id = some a)
    (hfile : file ∈ a.files.keys)
    (h : (t.putFile id file data).update codecs store = some (t', store')) :
    (∃ files, store'.reloadFiles codecs id = some files ∧ Overwritten file data a.files files) ↔
    ∀ f old, a.files.get? f = some old → f = file ∨ hasNames t.mask = false → old.name = 0 := by
  have hput : (t.putFile id file data).archives.get? id = some (a.putFile file data) := by
    rw [putFile, SortedMap.get?_modify, if_pos rfl, ha, Option.map_some]
  have hkeys : (a.putFile file data).files.keys = a.files.keys :=
    SortedMap.keys_insert_of_mem hfile _
  have ht' := (ht.putFile ha hfile).update hput rfl h
  obtain ⟨-, hmask, -, -, ⟨a', compressed, payload, hget, hread, hfiles, hencode, hcompress⟩,
    table, stored, htable, hstore, hstored⟩ := update_eq_some hput rfl h
  have hfresh := getReferenceTable_eq hgzip ht' htable hstore hstored
  have hencode' : a'.encode = some payload := by
    rw [Archive.encode_congr hfiles]
    exact hencode
  obtain ⟨b, hload, hids, hfile'⟩ := loadArchive_carried hlzma hget hread hencode' hcompress
  rw [hfiles] at hids
  have hcarried : ∀ f, b.files.get? f =
      ((a.putFile file data).files.get? f).map (carriedFile t.mask) := by
    intro f
    rw [hfile', hfiles, hmask]
    rfl
  have hreload : store'.reloadFiles codecs id = some b.files := by
    rw [Store.reloadFiles, hfresh, Option.bind_eq_bind, Option.bind_some, hload]
    rfl
  rw [← overwritten_iff hfile (hids.trans hkeys) hcarried, hreload]
  constructor
  · rintro ⟨files, hsame, hover⟩
    rw [Option.some.inj hsame]
    exact hover
  · exact fun hover => ⟨b.files, rfl, hover⟩

/-- Two files, of which the first has a name. -/
def namedArchive : Archive where
  loaded := true
  files := (SortedMap.empty.insert 0 { data := [1], name := 9 }).insert 1 { data := [2] }

def namedTable : ReferenceTable where
  mask := 1
  archives := SortedMap.empty.insert 4 namedArchive

def emptyStore : Store := ⟨fun _ => none, none⟩

/-- The file without a name is overwritten. -/
theorem update_putFile_unnamed : ∃ t' store' files,
    (namedTable.putFile 4 1 [3]).update storedOnly emptyStore = some (t', store') ∧
      store'.reloadFiles storedOnly 4 = some files ∧
      Overwritten 1 [3] namedArchive.files files := by
  have hrestores : ∀ compression, storedOnly.Restores compression := fun _ _ _ => rfl
  have hkeys : namedTable.archives.keys = [4] := by decide
  have hfiles : ∀ a ∈ namedTable.archives.values, a.files.keys = [0, 1] := by decide
  have ht : namedTable.WellFormed := by
    constructor
    · exact Or.inr (Or.inr rfl)
    · decide
    · rw [hkeys]
      exact ⟨by simp [IsId], by simp [namedTable]⟩
    · intro a ha
      rw [hfiles a ha]
      exact ⟨by simp [IsId], by simp [namedTable]⟩
    · intro hmask
      exact absurd hmask (by decide)
  have hupdate : ((namedTable.putFile 4 1 [3]).update storedOnly emptyStore).isSome := by
    decide +kernel
  obtain ⟨⟨t', store'⟩, h⟩ := Option.isSome_iff_exists.mp hupdate
  have hunnamed : ∀ f old, namedArchive.files.get? f = some old →
      f = 1 ∨ hasNames namedTable.mask = false → old.name = 0 := by
    intro f old hold hf
    obtain rfl : f = 1 := hf.resolve_right (by decide)
    cases hold
    rfl
  obtain ⟨files, hreload, hover⟩ := (update_putFile_iff (hrestores .lzma) (hrestores .gzip) ht rfl
    (by decide) h).mpr hunnamed
  exact ⟨t', store', files, h, hreload, hover⟩

/-- The name of the other is lost. -/
theorem update_putFile_named : ∃ t' store' files,
    (namedTable.putFile 4 0 [3]).update storedOnly emptyStore = some (t', store') ∧
      store'.reloadFiles storedOnly 4 = some files ∧
      files.entries = [(0, { data := [3], name := 0 }), (1, { data := [2] })] ∧
      ¬Overwritten 0 [3] namedArchive.files files := by
  have hreload : (((namedTable.putFile 4 0 [3]).update storedOnly emptyStore).bind fun p =>
      p.2.reloadFiles storedOnly 4).map (·.entries) =
        some [(0, { data := [3], name := 0 }), (1, { data := [2] })] := by
    decide +kernel
  obtain ⟨files, hfiles, hentries⟩ := Option.map_eq_some_iff.mp hreload
  obtain ⟨⟨t', store'⟩, hupdate, hfiles⟩ := Option.bind_eq_some_iff.mp hfiles
  refine ⟨t', store', files, hupdate, hfiles, hentries, ?_⟩
  intro h
  have hname := h.names 0
  have hget : files.get? 0 = some { data := [3], name := 0 } := by
    rw [SortedMap.get?_eq_some, hentries]
    exact List.mem_cons_self
  rw [hget] at hname
  revert hname
  decide

end Reload

end ReferenceTable

end OpenNXT.Filesystem
