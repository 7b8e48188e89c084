import OpenNXT.CacheDownloader.CompletedRequest
import OpenNXT.Filesystem.StoreRuns

/-! What a table in memory has written is served, and stored again by who downloads it. -/
namespace OpenNXT.CacheDownloader
open Buffer Data Ext Filesystem Net Util

/-- What is stored of an archive is what its entry describes, where its version has a trailer. -/
def Kept (codecs : Codecs) (store : Store) (id : ℤ) (entry : Archive) : Prop :=
  ∃ stored, store.read id = some stored ∧ (entry.version ≠ -1 →
    ∃ body, stored = storedBytes entry body ∧ Describes codecs entry body)

section Entries
variable {codecs : Codecs} {mask : Word} {store store' : Store} {id : ℤ} {a b : Archive}

/-- Only the version and the checksums of an entry are asked for. -/
theorem Kept.congr (h : Kept codecs store id a) (hread : store'.read id = store.read id)
    (hversion : b.version = a.version) (hcrc : b.crc = a.crc)
    (hwhirlpool : ∀ w ∈ b.whirlpool, w ∈ a.whirlpool) : Kept codecs store' id b := by
  obtain ⟨stored, hstored, hkept⟩ := h
  refine ⟨stored, hread.trans hstored, fun hne => ?_⟩
  rw [hversion] at hne
  obtain ⟨body, hbody, hdescribes⟩ := hkept hne
  refine ⟨body, ?_, hdescribes.container, hcrc.trans hdescribes.crc,
    fun w hw => hdescribes.whirlpool w (hwhirlpool w hw), hdescribes.fits⟩
  rw [hbody, storedBytes, storedBytes, hversion]

theorem Kept.carried (h : Kept codecs store id a) :
    Kept codecs store id (ReferenceTable.carriedArchive mask a) := by
  refine h.congr rfl rfl rfl fun w hw => ?_
  unfold ReferenceTable.carriedArchive at hw
  dsimp only at hw
  split_ifs at hw
  · exact hw
  · cases hw

/-- The version, the checksum and the digest of an archive are those of what is written of it. -/
theorem kept_of_updateArchive {compressed : List Byte} (hlzma : codecs.Restores .lzma)
    (h : ReferenceTable.updateArchive codecs mask a = some (b, compressed))
    (hread : store.read id = some compressed) :
    Kept codecs store id (ReferenceTable.carriedArchive mask b) := by
  obtain ⟨data, hencode, h⟩ := Option.bind_eq_some_iff.mp h
  obtain ⟨bytes, hcompress, h⟩ := Option.bind_eq_some_iff.mp h
  cases h
  refine ⟨compressed, hread, fun hversion => ?_⟩
  have htrailer : Container.trailer (a.version + 1) = putShort ((a.version + 1).setWidth 16) :=
    if_neg hversion
  unfold Container.compress at hcompress
  dsimp only at hcompress
  rw [htrailer] at hcompress
  split_ifs at hcompress with hlarge
  let c : Container := { data := data, compression := .lzma, version := a.version + 1 }
  have hbytes : c.body codecs ++ putShort ((a.version + 1).setWidth 16) = compressed :=
    Option.some.inj hcompress
  have hlength : compressed.length = (c.body codecs).length + 2 := by
    rw [← hbytes, List.length_append, length_putWord]
  have hchecked : compressed.take (compressed.length - 2) = c.body codecs := by
    rw [hlength, Nat.add_sub_cancel, ← hbytes, List.take_left]
  have hunpacked : Container.unpacked codecs .lzma (BitVec.ofNat 32 data.length)
      (c.compressedData codecs) = some data :=
    hlzma data (Archive.length_encode hencode)
  refine ⟨c.body codecs, hbytes.symm, ⟨.lzma, BitVec.ofNat 32 data.length, c.compressedData codecs,
    data, Container.body_eq codecs c, hunpacked⟩, congrArg getCrc32 hchecked, fun w hw => ?_, ?_⟩
  · unfold ReferenceTable.carriedArchive at hw
    dsimp only at hw
    split_ifs at hw
    · cases hw
      rw [hchecked]
    · cases hw
  · rw [← hlength, ← hbytes]
    exact not_le.mp hlarge

end Entries

/-- The archives that were put into and written are kept as their entries say, in memory and in the
table that is stored; the others that were put into wait for an update. -/
structure KeepsPuts (codecs : Codecs) (t : ReferenceTable) (store : Store)
    (flushed pending : List FilePut) : Prop where
  memory : ∀ p ∈ flushed, ∃ a, t.archives.get? p.archive = some a ∧
    (a.requiresUpdate = false →
      Kept codecs store p.archive (ReferenceTable.carriedArchive t.mask a))
  waiting : ∀ p ∈ pending, ∃ a, t.archives.get? p.archive = some a ∧ a.requiresUpdate = true
  table : ∀ p ∈ flushed, ∃ fresh entry, store.getReferenceTable codecs = some fresh ∧
    fresh.archives.get? p.archive = some entry ∧ Kept codecs store p.archive entry

section Steps
variable {codecs : Codecs} {t t' : ReferenceTable} {store store' : Store}
  {flushed pending : List FilePut}

/-- A load leaves the checksums of an entry alone, and whether it waits. -/
theorem loadEntry_entry {raw : Option (List Byte)} {a : Archive} {archive : Option Archive}
    (h : (ReferenceTable.loadEntry codecs raw a).2 = .returned archive) (mask : Word) :
    ∃ files loaded, (ReferenceTable.loadEntry codecs raw a).1 =
      { a with loaded := loaded, files := files } := by
  cases hloaded : a.loaded with
  | true =>
    refine ⟨a.files, true, ?_⟩
    unfold ReferenceTable.loadEntry
    rw [if_pos hloaded, ← hloaded]
  | false =>
    cases archive with
    | none =>
      refine ⟨a.files, false, ?_⟩
      rw [loadEntry_returned_none h, ← hloaded]
    | some b =>
      obtain ⟨hstate, hb, -⟩ := @ReferenceTable.loadEntry_returned codecs mask a b raw hloaded h
      exact ⟨b.files, true, hstate.trans hb⟩

theorem KeepsPuts.load (h : KeepsPuts codecs t store flushed pending) {id : ℤ}
    {archive : Option Archive}
    (hload : t.loadArchive codecs store.read id = (t', .returned archive)) :
    KeepsPuts codecs t' store flushed pending := by
  rw [ReferenceTable.loadArchive] at hload
  cases hget : t.archives.get? id with
  | none =>
    rw [hget] at hload
    cases hload
    exact h
  | some a =>
    rw [hget] at hload
    obtain ⟨rfl, houtcome⟩ := Prod.mk.inj hload
    obtain ⟨files, loaded, hentry⟩ := loadEntry_entry houtcome t.mask
    rw [hentry]
    have hkeeps : ∀ j b, t.archives.get? j = some b →
        ∃ b', (t.archives.insert id { a with loaded := loaded, files := files }).get? j = some b' ∧
          b'.requiresUpdate = b.requiresUpdate ∧
          (Kept codecs store j (ReferenceTable.carriedArchive t.mask b) →
            Kept codecs store j (ReferenceTable.carriedArchive t.mask b')) := by
      intro j b hb
      rw [SortedMap.get?_insert]
      by_cases hj : j = id
      · rw [hj, hget] at hb
        cases hb
        rw [if_pos hj]
        exact ⟨_, rfl, rfl, fun hkept => hkept.congr rfl rfl rfl fun w hw => hw⟩
      · rw [if_neg hj]
        exact ⟨b, hb, rfl, fun hkept => hkept⟩
    refine ⟨fun p hp => ?_, fun p hp => ?_, h.table⟩
    · obtain ⟨b, hb, hkept⟩ := h.memory p hp
      obtain ⟨b', hb', hrequires, hcongr⟩ := hkeeps p.archive b hb
      exact ⟨b', hb', fun hclean => hcongr (hkept (hrequires ▸ hclean))⟩
    · obtain ⟨b, hb, hwaits⟩ := h.waiting p hp
      obtain ⟨b', hb', hrequires, -⟩ := hkeeps p.archive b hb
      exact ⟨b', hb', hrequires.trans hwaits⟩

theorem KeepsPuts.putFile (h : KeepsPuts codecs t store flushed pending) (p : FilePut) {a : Archive}
    (ha : t.archives.get? p.archive = some a) :
    KeepsPuts codecs (t.putFile p.archive p.file p.data) store flushed (pending ++ [p]) := by
  have hget : ∀ j, (t.putFile p.archive p.file p.data).archives.get? j =
      if j = p.archive then some (a.putFile p.file p.data) else t.archives.get? j := by
    intro j
    rw [ReferenceTable.putFile, SortedMap.get?_modify]
    split_ifs with hj
    · rw [hj, ha, Option.map_some]
    · rfl
  refine ⟨fun q hq => ?_, fun q hq => ?_, h.table⟩
  · rw [hget]
    by_cases hq' : q.archive = p.archive
    · rw [if_pos hq']
      exact ⟨_, rfl, fun hfalse => Bool.noConfusion hfalse⟩
    · rw [if_neg hq']
      exact h.memory q hq
  · rw [hget]
    by_cases hq' : q.archive = p.archive
    · rw [if_pos hq']
      exact ⟨_, rfl, rfl⟩
    · rw [if_neg hq']
      obtain hold | hnew := List.mem_append.mp hq
      · exact h.waiting q hold
      · rw [List.mem_singleton] at hnew
        exact absurd (congrArg FilePut.archive hnew) hq'

theorem KeepsPuts.update (hlzma : codecs.Restores .lzma) (hgzip : codecs.Restores .gzip)
    (hwell : t.WellFormed) (h : KeepsPuts codecs t store flushed pending)
    (hupdate : t.update codecs store = some (t', store')) :
    KeepsPuts codecs t' store' (flushed ++ pending) [] := by
  by_cases hall : t.AllClean
  · rw [ReferenceTable.update_of_allClean hall] at hupdate
    cases hupdate
    have hnone : ∀ p, p ∉ pending := by
      intro p hp
      obtain ⟨a, ha, hwaits⟩ := h.waiting p hp
      rw [hall p.archive a ha] at hwaits
      cases hwaits
    rw [List.eq_nil_iff_forall_not_mem.mpr hnone, List.append_nil]
    exact ⟨h.memory, fun p hp => absurd hp List.not_mem_nil, h.table⟩
  · obtain ⟨hopen, -⟩ := open_of_update hgzip hwell hall hupdate
    have hto := ReferenceTable.updatesTo_of_update hupdate
    have hwritten : ∀ p ∈ flushed ++ pending, ∃ a, t'.archives.get? p.archive = some a ∧
        Kept codecs store' p.archive (ReferenceTable.carriedArchive t.mask a) := by
      intro p hp
      obtain ⟨a, ha, hkept⟩ : ∃ a, t.archives.get? p.archive = some a ∧
          (a.requiresUpdate = false →
            Kept codecs store p.archive (ReferenceTable.carriedArchive t.mask a)) := by
        obtain hflushed | hpending := List.mem_append.mp hp
        · exact h.memory p hflushed
        · obtain ⟨a, ha, hwaits⟩ := h.waiting p hpending
          refine ⟨a, ha, fun hclean => ?_⟩
          rw [hwaits] at hclean
          cases hclean
      cases hwaits : a.requiresUpdate with
      | false =>
        obtain ⟨hsame, hread⟩ := hto.clean p.archive a ha hwaits
        exact ⟨a, hsame, (hkept hwaits).congr hread rfl rfl fun w hw => hw⟩
      | true =>
        obtain ⟨b, compressed, hb, hget, hread⟩ := hto.changed p.archive a ha hwaits
        exact ⟨b, hget, kept_of_updateArchive hlzma hb hread⟩
    refine ⟨fun p hp => ?_, fun p hp => absurd hp List.not_mem_nil, fun p hp => ?_⟩
    · obtain ⟨a, ha, hkept⟩ := hwritten p hp
      rw [hto.mask]
      exact ⟨a, ha, fun _ => hkept⟩
    · obtain ⟨a, ha, hkept⟩ := hwritten p hp
      refine ⟨t'.carried, ReferenceTable.carriedArchive t'.mask a, hopen, ?_, ?_⟩
      · rw [ReferenceTable.carried, SortedMap.get?_map, ha]
        rfl
      · rw [hto.mask]
        exact hkept

theorem keepsPuts_of_session {store₀ : Store} (hlzma : codecs.Restores .lzma)
    (hgzip : codecs.Restores .gzip)
    (hfirst : ∀ t₀, store₀.getReferenceTable codecs = some t₀ → t₀.WellFormed)
    (h : Session codecs store₀ t store flushed pending) :
    KeepsPuts codecs t store flushed pending := by
  induction h with
  | opened hopen =>
    constructor <;> exact fun p hp => absurd hp List.not_mem_nil
  | load _ id hload ih => exact ih.load hload
  | putFile _ p ha hloaded hfit ih => exact ih.putFile p ha
  | update h hupdate ih =>
    exact ih.update hlzma hgzip (holds_of_session hlzma hgzip hfirst h).mirrors.wellFormed hupdate
  | reopen _ hopen ih =>
    refine ⟨fun p hp => ?_, fun p hp => absurd hp List.not_mem_nil, ih.table⟩
    obtain ⟨fresh, entry, hfresh, hentry, hkept⟩ := ih.table p hp
    rw [hopen] at hfresh
    cases hfresh
    exact ⟨entry, hentry, fun _ => hkept.carried⟩

end Steps

section Download
variable {codecs : Codecs}

/-- The archives of an index in a cache, under a table. -/
def Cache.store (cache : Cache) (index : Byte) (referenceTable : Option (List Byte)) : Store where
  read := cache.read index
  referenceTable := referenceTable

/-- What is read again of an archive is decided by the table and by what is stored of it. -/
theorem contents_congr {store store' : Store} {id : ℤ}
    (htable : store'.referenceTable = store.referenceTable) (hread : store'.read id = store.read id) :
    store'.contents codecs id = store.contents codecs id := by
  have hopens : store'.getReferenceTable codecs = store.getReferenceTable codecs := by
    rw [Store.getReferenceTable, Store.getReferenceTable, htable]
  funext f
  cases hopen : store.getReferenceTable codecs with
  | none =>
    rw [Store.contents, Store.contents, Store.reloadFiles, Store.reloadFiles, hopens, hopen]
    rfl
  | some t =>
    rw [Store.contents, Store.contents, reloadFiles_of_open hopen,
      reloadFiles_of_open (hopens.trans hopen), hread]

/-- After any run of a table over its store, an archive that was put into and written is not asked
for by who has it, and it is served as its entry describes it; who downloads it under the same table
stores the same bytes, and reads every file as it was put. -/
theorem session_downloaded {t : ReferenceTable} {store₀ store : Store} {flushed pending : List FilePut}
    (hlzma : codecs.Restores .lzma) (hgzip : codecs.Restores .gzip)
    (hfirst : ∀ t₀, store₀.getReferenceTable codecs = some t₀ → t₀.WellFormed)
    (h : Session codecs store₀ t store flushed pending) {p : FilePut} (hp : p ∈ flushed)
    {index : Byte} (hindex : index ≠ 255) :
    ∃ fresh entry stored, store.getReferenceTable codecs = some fresh ∧
      fresh.archives.get? p.archive = some entry ∧ store.read p.archive = some stored ∧
      (entry.version ≠ -1 →
        IndexCompletionChecker.isRequested entry (some stored) = some false ∧
        ∃ served, Js5Session.formatArchivePayload codecs index stored = some served ∧
          Served served ∧
          ∀ (cache : Cache) (request : ArchiveRequest),
            cache.referenceTable index = some fresh → request.index = index →
            request.archive.toInt = p.archive → request.completed = true →
            Holds served served.length request →
            ∃ cache', writeCompletedRequest cache request = some cache' ∧
              cache'.read index p.archive = some stored ∧
              (cache'.store index store.referenceTable).contents codecs p.archive =
                ((store₀.contents codecs).putAll flushed) p.archive) := by
  obtain ⟨fresh, entry, hopen, hentry, stored, hstored, hkept⟩ :=
    (keepsPuts_of_session hlzma hgzip hfirst h).table p hp
  have hcontents := (holds_of_session hlzma hgzip hfirst h).stored
  refine ⟨fresh, entry, stored, hopen, hentry, hstored, fun hversion => ?_⟩
  obtain ⟨body, rfl, hdescribes⟩ := hkept hversion
  refine ⟨isRequested_storedBytes hdescribes, body,
    formatArchivePayload_storedBytes hdescribes hindex, hdescribes.served, ?_⟩
  rintro cache request htable rfl hid hcompleted hholds
  rw [← hid] at hentry hstored ⊢
  have hwrite := writeCompletedRequest_eq hdescribes hindex htable hentry hcompleted hholds
  have hread : (cache.write request.index request.archive.toInt (storedBytes entry body)).read
      request.index request.archive.toInt = some (storedBytes entry body) := if_pos ⟨rfl, rfl⟩
  refine ⟨_, hwrite, hread, ?_⟩
  rw [← hcontents]
  exact contents_congr rfl (hread.trans hstored.symm)

/-- The file that was put is read where the archive was downloaded into an empty cache. -/
theorem session_downloaded_rewritten : ∃ (store₀ : Store) (cache : Cache) (request : ArchiveRequest)
    (cache' : Cache) (table : Option (List Byte)),
    writeCompletedRequest cache request = some cache' ∧
      (cache'.store 2 table).contents ReferenceTable.storedOnly 4 =
        ((store₀.contents ReferenceTable.storedOnly).put ⟨4, 0, [7]⟩) 4 := by
  obtain ⟨store₀, t, store, fresh, entry, hsession, hfirst, hopen, hentry, hversion⟩ :=
    session_rewritten
  obtain ⟨fresh', entry', stored, hopen', hentry', -, hdownload⟩ := session_downloaded
    (fun _ _ => rfl) (fun _ _ => rfl) hfirst hsession List.mem_cons_self (by decide : (2 : Byte) ≠ 255)
  rw [hopen] at hopen'
  cases hopen'
  rw [hentry] at hentry'
  cases hentry'
  obtain ⟨-, served, -, hserved, hdownload⟩ := hdownload hversion
  obtain ⟨cache', hwrite, -, hcontents⟩ := hdownload ⟨fun _ => some fresh, fun _ _ => none⟩
    { index := 2, archive := 4, completed := true
      buffer := some ⟨served.length + 2, served, Nat.le_add_right _ _⟩ }
    rfl rfl rfl rfl (Or.inr ⟨_, rfl, hserved.five_le, List.take_length.symm, rfl⟩)
  exact ⟨store₀, _, _, cache', _, hwrite, hcontents⟩

end Download

end OpenNXT.CacheDownloader
