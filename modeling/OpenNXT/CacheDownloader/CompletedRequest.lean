import OpenNXT.CacheDownloader.Js5Agreement
import OpenNXT.Ext.ByteBuffer
import OpenNXT.Filesystem.ArchiveLoading
import OpenNXT.Filesystem.ContainerCodec
import OpenNXT.Filesystem.RoundTrip
import OpenNXT.Util.Whirlpool

/-! A completed request is stored, and the completion checker looks at what was stored. -/
namespace OpenNXT.CacheDownloader
open Buffer Data Ext Filesystem Net Util

/-- The reference tables a filesystem has read, and the archives it stores. -/
structure Cache where
  referenceTable : Byte → Option ReferenceTable
  read : Byte → ℤ → Option (List Byte)

def Cache.write (cache : Cache) (index : Byte) (archive : ℤ) (data : List Byte) : Cache :=
  { cache with read := fun i j => if i = index ∧ j = archive then some data else cache.read i j }

/-- All of a buffer's array; what was not written is zero. -/
def ByteBuffer.array (b : ByteBuffer) : List Byte :=
  b.written ++ List.replicate (b.capacity - b.written.length) 0

/-- The trailer goes behind the limit of the flipped buffer. `none` is an exception. -/
def writeCompletedRequest (cache : Cache) (request : ArchiveRequest) : Option Cache :=
  if request.completed = false then none
  else do
    let table ← cache.referenceTable request.index
    let entry ← table.archives.get? request.archive.toInt
    let buffer ← request.buffer
    if getCrc32 buffer.written ≠ entry.crc then none
    else if entry.whirlpool.any fun w => Whirlpool.getHash buffer.written ≠ w then none
    else do
      let buffer ← buffer.put
        [(entry.version.sshiftRight 8).setWidth 8, entry.version.setWidth 8]
      return cache.write request.index request.archive.toInt buffer.array

namespace IndexCompletionChecker

/-- Whether an archive is requested. `none` is an exception: fewer than two bytes are stored. -/
def isRequested (archive : Archive) (existing : Option (List Byte)) : Option Bool :=
  match existing with
  | none => some (archive.compressedSize ≠ 0)
  | some existing =>
    if getCrc32 (existing.take (existing.length - 2)) ≠ archive.crc then some true
    else if existing.length < 2 then none
    else do
      let (version, _) ← Reader.short (existing.drop (existing.length - 2))
      return version.setWidth 32 ≠ archive.version &&& 0xffff

def archiveRequest (index : Byte) (id : ℤ) (archive : Archive) : ArchiveRequest where
  index := index
  archive := BitVec.ofInt 32 id
  size := archive.compressedSize
  crc := archive.crc
  version := archive.version

/-- The batches handed over so far, and the requests of the next one. -/
structure Progress where
  batches : List (List ArchiveRequest) := []
  requests : List ArchiveRequest := []

/-- More than 500 requests are handed over at once. -/
def Progress.flush (p : Progress) : Progress :=
  if 500 < p.requests.length then { batches := p.batches ++ [p.requests] } else p

def checkAll (cache : Cache) (index : Byte) : List (ℤ × Archive) → Progress → Attempt Progress
  | [], p => ⟨p, false⟩
  | e :: es, p =>
    let p := p.flush
    match isRequested e.2 (cache.read index e.1) with
    | none => ⟨p, true⟩
    | some false => checkAll cache index es p
    | some true => checkAll cache index es
        { p with requests := p.requests ++ [archiveRequest index e.1 e.2] }

/-- What is requested, batch after batch. -/
def run (cache : Cache) (index : Byte) : Attempt (List (List ArchiveRequest)) :=
  match cache.referenceTable index with
  | none => ⟨[], true⟩
  | some table =>
    let checked := checkAll cache index table.archives.entries {}
    if checked.thrown ∨ checked.state.requests = [] then ⟨checked.state.batches, checked.thrown⟩
    else ⟨checked.state.batches ++ [checked.state.requests], false⟩

section Run
variable {cache : Cache} {index : Byte}

/-- What is requested was asked for of its entry. -/
def Asked (cache : Cache) (index : Byte) (es : List (ℤ × Archive)) (q : ArchiveRequest) : Prop :=
  ∃ e ∈ es, q = archiveRequest index e.1 e.2 ∧
    isRequested e.2 (cache.read index e.1) = some true

def Progress.all (p : Progress) : List ArchiveRequest := p.batches.flatten ++ p.requests

@[simp] theorem Progress.all_flush (p : Progress) : p.flush.all = p.all := by
  unfold flush all
  split_ifs <;> simp

theorem asked_of_checkAll {es : List (ℤ × Archive)} {p : Progress} {q : ArchiveRequest}
    (h : q ∈ (checkAll cache index es p).state.all) : q ∈ p.all ∨ Asked cache index es q := by
  induction es generalizing p with
  | nil => exact Or.inl h
  | cons e es ih =>
    have hlater : Asked cache index es q → Asked cache index (e :: es) q := by
      rintro ⟨d, hd, hq⟩
      exact ⟨d, List.mem_cons_of_mem _ hd, hq⟩
    unfold checkAll at h
    dsimp only at h
    cases hcheck : isRequested e.2 (cache.read index e.1) with
    | none =>
      rw [hcheck, Progress.all_flush] at h
      exact Or.inl h
    | some asked =>
      rw [hcheck] at h
      cases asked with
      | false =>
        obtain hfirst | hrest := ih h
        · rw [Progress.all_flush] at hfirst
          exact Or.inl hfirst
        · exact Or.inr (hlater hrest)
      | true =>
        obtain hfirst | hrest := ih h
        · have hall : ({ p.flush with
              requests := p.flush.requests ++ [archiveRequest index e.1 e.2] } : Progress).all =
                p.all ++ [archiveRequest index e.1 e.2] := by
            rw [Progress.all, ← List.append_assoc, ← Progress.all_flush p]
            rfl
          rw [hall, List.mem_append, List.mem_singleton] at hfirst
          obtain hfirst | hself := hfirst
          · exact Or.inl hfirst
          · exact Or.inr ⟨e, List.mem_cons_self, hself, hcheck⟩
        · exact Or.inr (hlater hrest)

theorem asked_of_run {table : ReferenceTable} (htable : cache.referenceTable index = some table)
    {q : ArchiveRequest} (h : q ∈ (run cache index).state.flatten) :
    Asked cache index table.archives.entries q := by
  have hall : q ∈ (checkAll cache index table.archives.entries {}).state.all := by
    unfold run at h
    rw [htable] at h
    dsimp only at h
    split_ifs at h
    · exact List.mem_append_left _ h
    · rw [List.flatten_append, List.flatten_singleton] at h
      exact h
  obtain hnone | hasked := asked_of_checkAll hall
  · cases hnone
  · exact hasked

end Run

end IndexCompletionChecker

section Trailer

/-- The two bytes that are put behind a buffer are the version as it is read. -/
theorem putShort_version (version : Word) :
    putShort (version.setWidth 16) = [(version.sshiftRight 8).setWidth 8, version.setWidth 8] := by
  have hshift : (version.sshiftRight 8).setWidth 8 = (version >>> 8).setWidth 8 := by
    apply BitVec.eq_of_getLsbD_eq
    intro i hi
    have hlt : 8 + i < 32 := by omega
    simp only [BitVec.getLsbD_setWidth, BitVec.getLsbD_sshiftRight, BitVec.getLsbD_ushiftRight,
      hlt, if_true, show ¬ 32 ≤ i by omega, decide_false,
      Bool.not_false, Bool.true_and]
  have hhigh : BitVec.ofNat 8 ((version.setWidth 16).toNat / 256 ^ 1) =
      (version >>> 8).setWidth 8 := by
    apply BitVec.eq_of_toNat_eq
    simp only [BitVec.toNat_ofNat, BitVec.toNat_setWidth, BitVec.toNat_ushiftRight,
      Nat.shiftRight_eq_div_pow]
    omega
  have hlow : BitVec.ofNat 8 ((version.setWidth 16).toNat / 256 ^ 0) = version.setWidth 8 := by
    apply BitVec.eq_of_toNat_eq
    simp only [BitVec.toNat_ofNat, BitVec.toNat_setWidth]
    omega
  rw [hshift, ← hhigh, ← hlow]
  rfl

theorem setWidth_version (version : Word) :
    (version.setWidth 16).setWidth 32 = version &&& 0xffff := by
  have hmod := Nat.and_two_pow_sub_one_eq_mod version.toNat 16
  have hmask : (0xffff : Word).toNat = 2 ^ 16 - 1 := rfl
  apply BitVec.eq_of_toNat_eq
  rw [BitVec.toNat_and, hmask, hmod]
  simp only [BitVec.toNat_setWidth]
  omega

end Trailer

section Store
variable {codecs : Codecs} {entry : Archive} {body : List Byte}

/-- A container that its entry describes, as it is stored in front of two bytes of the version. -/
structure Describes (codecs : Codecs) (entry : Archive) (body : List Byte) : Prop where
  container : ∃ compression decompressedSize compressed data,
    body = Container.packed compression decompressedSize compressed ∧
      Container.unpacked codecs compression decompressedSize compressed = some data
  crc : entry.crc = getCrc32 body
  whirlpool : ∀ w ∈ entry.whirlpool, w = Whirlpool.getHash body
  fits : body.length + 2 < maxArray

/-- What is stored of an archive. -/
def storedBytes (entry : Archive) (body : List Byte) : List Byte :=
  body ++ putShort (entry.version.setWidth 16)

theorem length_storedBytes : (storedBytes entry body).length = body.length + 2 := by
  rw [storedBytes, List.length_append, length_putWord]

theorem length_lt_of_packed {compression : ContainerCompression} {decompressedSize : Word}
    {compressed : List Byte}
    (h : (Container.packed compression decompressedSize compressed).length + 2 < maxArray) :
    compressed.length + 11 < 2 ^ 31 + if compression = .none then 4 else 0 := by
  rw [Container.length_packed] at h
  unfold maxArray at h
  split_ifs at h ⊢ <;> omega

/-- The trailer is stripped. -/
theorem formatArchivePayload_storedBytes (h : Describes codecs entry body) {index : Byte}
    (hindex : index ≠ 255) :
    Js5Session.formatArchivePayload codecs index (storedBytes entry body) = some body := by
  obtain ⟨compression, decompressedSize, compressed, data, rfl, hdata⟩ := h.container
  have hfits := length_lt_of_packed h.fits
  have hcompressed : compressed.length < 2 ^ 31 := by
    split_ifs at hfits <;> omega
  have hdecode := @Container.decode_packed_trailer codecs compression decompressedSize compressed
    hcompressed (entry.version.setWidth 16)
  rw [hdata, Option.map_some] at hdecode
  have hversion : (entry.version.setWidth 16).setWidth 32 ≠ -1 := by
    intro hminus
    have hnat := congrArg BitVec.toNat hminus
    have hlt := (entry.version.setWidth 16).isLt
    have hone : (-1 : Word).toNat = 2 ^ 32 - 1 := by decide
    rw [BitVec.toNat_setWidth, Nat.mod_eq_of_lt (by omega)] at hnat
    omega
  have hlen := @length_storedBytes entry
    (Container.packed compression decompressedSize compressed)
  rw [Js5Session.formatArchivePayload, if_neg hindex, Js5Session.stripVersionTrailer, hlen,
    storedBytes, hdecode, Option.bind_eq_bind, Option.bind_some, if_neg (by
      rw [not_or]
      exact ⟨hversion, by omega⟩), Nat.add_sub_cancel, List.take_left]
  rfl

/-- What is served announces its length. -/
theorem Describes.served (h : Describes codecs entry body) : Served body := by
  obtain ⟨compression, decompressedSize, compressed, data, rfl, -⟩ := h.container
  have hfits := length_lt_of_packed h.fits
  have hcompressed : compressed.length < 2 ^ 31 := by
    split_ifs at hfits <;> omega
  have hsize : (BitVec.ofNat 32 compressed.length).toNat = compressed.length := by
    rw [BitVec.toNat_ofNat]
    exact Nat.mod_eq_of_lt (by omega)
  have hid : compression.id = 0 ↔ compression = .none := by
    cases compression <;> decide
  have hheader := Container.length_packed compression decompressedSize compressed
  obtain ⟨b₁, b₂, b₃, b₄, hput⟩ : ∃ b₁ b₂ b₃ b₄,
      putInt (BitVec.ofNat 32 compressed.length) = [b₁, b₂, b₃, b₄] := ⟨_, _, _, _, rfl⟩
  have hbytes : ofBytes (putInt (BitVec.ofNat 32 compressed.length)) = compressed.length :=
    (ofBytes_putWord 4 _).trans hsize
  rw [hput] at hbytes
  refine ⟨BitVec.ofNat 32 (ofBytes [b₁, b₂, b₃, b₄]) + 5 +
    if compression.id = 0 then 0 else 4, ?_, ?_, h.fits⟩
  · rw [Container.packed, hput]
    rfl
  · have hlength : (BitVec.ofNat 32 compressed.length + 5 +
        if compression.id = 0 then (0 : Word) else 4).toNat =
          (if compression = .none then 5 else 9) + compressed.length := by
      by_cases hnone : compression = .none
      · rw [if_pos (hid.mpr hnone), if_pos hnone]
        rw [if_pos hnone] at hfits
        bv_omega
      · rw [if_neg (mt hid.mp hnone), if_neg hnone]
        rw [if_neg hnone] at hfits
        bv_omega
    rw [hbytes, toInt_eq_of_lt, hlength, hheader]
    rw [hlength]
    split_ifs at hfits ⊢ <;> omega

/-- What was reassembled is stored with the trailer it had. -/
theorem writeCompletedRequest_eq (h : Describes codecs entry body) {cache : Cache}
    {table : ReferenceTable} {request : ArchiveRequest} (hindex : request.index ≠ 255)
    (htable : cache.referenceTable request.index = some table)
    (hentry : table.archives.get? request.archive.toInt = some entry)
    (hcompleted : request.completed = true) (hholds : Holds body body.length request) :
    writeCompletedRequest cache request =
      some (cache.write request.index request.archive.toInt (storedBytes entry body)) := by
  obtain ⟨hzero, -⟩ | ⟨buffer, hbuffer, -, hwritten, hcapacity⟩ := hholds
  · have hfive := h.served.five_le
    omega
  rw [List.take_length] at hwritten
  rw [ArchiveRequest.trailer, if_neg hindex] at hcapacity
  have hwhirlpool : ¬ entry.whirlpool.any (fun w => Whirlpool.getHash body ≠ w) := by
    rw [Option.any_eq_true]
    rintro ⟨w, hw, hne⟩
    rw [h.whirlpool w hw] at hne
    simp at hne
  have hroom : buffer.position +
      [(entry.version.sshiftRight 8).setWidth 8, entry.version.setWidth 8].length ≤
        buffer.capacity := by
    rw [ByteBuffer.position, hwritten, hcapacity]
    exact le_refl _
  obtain ⟨full, hput⟩ : ∃ full, buffer.put
      [(entry.version.sshiftRight 8).setWidth 8, entry.version.setWidth 8] = some full :=
    ⟨_, ByteBuffer.put_eq hroom⟩
  obtain ⟨hsame, hfull⟩ := ByteBuffer.put_some hput
  have harray : full.array = storedBytes entry body := by
    rw [ByteBuffer.array, hsame, hfull, hwritten, hcapacity, ← putShort_version]
    simp [storedBytes]
  unfold writeCompletedRequest
  rw [if_neg (by rw [hcompleted]; decide), htable, Option.bind_eq_bind, Option.bind_some, hentry,
    Option.bind_eq_bind, Option.bind_some, hbuffer, Option.bind_eq_bind, Option.bind_some, hwritten,
    if_neg (not_not_intro h.crc.symm), if_neg hwhirlpool, hput, Option.bind_some, harray]
  rfl

/-- Neither checksum nor version ask for an archive that is stored so. -/
theorem isRequested_storedBytes (h : Describes codecs entry body) :
    IndexCompletionChecker.isRequested entry (some (storedBytes entry body)) = some false := by
  have hlen := @length_storedBytes entry body
  have hread : Reader.short (putShort (entry.version.setWidth 16)) =
      some (entry.version.setWidth 16, []) := (Reads.word 2 _).run
  unfold IndexCompletionChecker.isRequested
  dsimp only
  rw [hlen, Nat.add_sub_cancel, storedBytes, List.take_left, List.drop_left,
    if_neg (not_not_intro h.crc.symm), if_neg (by omega), hread]
  simp [setWidth_version]

/-- Once it is stored, the checker does not ask for it. -/
theorem not_requested_of_stored (h : Describes codecs entry body) {cache : Cache} {index : Byte}
    {archive : Word} {table : ReferenceTable} (htable : cache.referenceTable index = some table)
    (hids : ∀ id ∈ table.archives.keys, wrapInt id = id)
    (hentry : table.archives.get? archive.toInt = some entry)
    (hread : cache.read index archive.toInt = some (storedBytes entry body)) :
    ∀ q ∈ (IndexCompletionChecker.run cache index).state.flatten, q.archive ≠ archive := by
  intro q hq hsame
  obtain ⟨e, he, rfl, hasked⟩ := IndexCompletionChecker.asked_of_run htable hq
  have hid : e.1 = archive.toInt := by
    rw [← hids e.1 (List.mem_map_of_mem he), wrapInt, ← hsame]
    rfl
  have hget := SortedMap.get?_eq_some.mpr he
  rw [hid, hentry] at hget
  rw [hid, hread, ← Option.some.inj hget, isRequested_storedBytes h] at hasked
  cases hasked

/-- A stored archive that its entry describes is served without its trailer under the length its
header announces, and once its bytes are in the buffer of a request the same array is stored, and
not asked for again. -/
theorem served_archive_restored (h : Describes codecs entry body) {cache : Cache} {index : Byte}
    {archive : Word} {table : ReferenceTable} (hindex : index ≠ 255)
    (htable : cache.referenceTable index = some table)
    (hids : ∀ id ∈ table.archives.keys, wrapInt id = id)
    (hentry : table.archives.get? archive.toInt = some entry) :
    ∃ served length, Js5Session.formatArchivePayload codecs index (storedBytes entry body) =
        some served ∧
      js5ResponseLength served = some length ∧ length.toInt = served.length ∧
      ∀ request : ArchiveRequest, request.index = index → request.archive = archive →
        request.completed = true → Holds served served.length request →
        ∃ cache', writeCompletedRequest cache request = some cache' ∧
          cache'.read index archive.toInt = some (storedBytes entry body) ∧
          ∀ q ∈ (IndexCompletionChecker.run cache' index).state.flatten, q.archive ≠ archive := by
  obtain ⟨length, hlength, hint, -⟩ := h.served
  refine ⟨body, length, formatArchivePayload_storedBytes h hindex, hlength, hint, ?_⟩
  rintro request rfl rfl hcompleted hholds
  have hwrite := writeCompletedRequest_eq h hindex htable hentry hcompleted hholds
  have hread : (cache.write request.index request.archive.toInt (storedBytes entry body)).read
      request.index request.archive.toInt = some (storedBytes entry body) := if_pos ⟨rfl, rfl⟩
  exact ⟨_, hwrite, hread, not_requested_of_stored h htable hids hentry hread⟩

/-- One byte, uncompressed. -/
def smallBody : List Byte := [0, 0, 0, 0, 1, 7]

/-- A version above sixteen bits. -/
def smallEntry : Archive where
  crc := getCrc32 smallBody
  version := 0x10203
  whirlpool := some (Whirlpool.getHash smallBody)
  compressedSize := 6

def smallCache : Cache where
  referenceTable _ := some { archives := SortedMap.empty.insert 4 smallEntry }
  read _ _ := none

def smallRequest : ArchiveRequest where
  index := 2
  archive := 4
  completed := true
  buffer := some ⟨8, smallBody, by decide⟩

/-- It is stored as it was. -/
theorem served_archive_restored_small :
    ∃ cache', writeCompletedRequest smallCache smallRequest = some cache' ∧
      cache'.read 2 4 = some [0, 0, 0, 0, 1, 7, 2, 3] := by
  have hdescribes : Describes ReferenceTable.storedOnly smallEntry smallBody := by
    constructor
    · exact ⟨.none, 0, [7], [7], by decide, by decide⟩
    · rfl
    · intro w hw
      exact (Option.some.inj hw).symm
    · decide
  have hids : ∀ id ∈ (SortedMap.empty.insert 4 smallEntry : SortedMap ℤ Archive).keys,
      wrapInt id = id := by
    intro id hid
    obtain rfl : id = 4 := List.mem_singleton.mp hid
    decide
  obtain ⟨served, length, hserved, -, -, hstore⟩ := @served_archive_restored
    ReferenceTable.storedOnly smallEntry smallBody hdescribes smallCache 2 4 _ (by decide) rfl hids rfl
  obtain rfl : smallBody = served :=
    Option.some.inj ((formatArchivePayload_storedBytes hdescribes (by decide)).symm.trans hserved)
  obtain ⟨cache', hwrite, hread, -⟩ := hstore smallRequest rfl rfl rfl
    (Or.inr ⟨_, rfl, by decide, rfl, rfl⟩)
  exact ⟨cache', hwrite, hread⟩

end Store

end OpenNXT.CacheDownloader
