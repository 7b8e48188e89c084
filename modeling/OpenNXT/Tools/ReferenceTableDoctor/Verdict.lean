import Mathlib.Data.Prod.Lex
import OpenNXT.Data.Traversal
import OpenNXT.Ext.ByteBuffer
import OpenNXT.Filesystem.ChecksumTable
import OpenNXT.Tools.ReferenceTableDoctor.Replay

/-! What the reference table doctor says of two servers that it has asked for the same files. -/
namespace OpenNXT.Tools.ReferenceTableDoctor
open Buffer Data Ext Filesystem Net

section Container

/-- The libraries that decompress; `none` is an exception. -/
structure Decompressors where
  bz2 : List Byte → Option (List Byte)
  gzip : List Byte → Option (List Byte)
  lzma (dictSize lc lp pb : ℕ) : List Byte → Option (List Byte)

structure ContainerInfo where
  compression : ℕ
  compressedSize : ℕ
  decompressedSize : ℕ
  version : Option ℕ
  payloadBytes : List Byte
  compressedPayloadBytes : List Byte

/-- The header of the stream is put in front, `BZh1`. -/
def decompressRsBzip2 (library : Decompressors) (compressedPayload : List Byte) :
    Option (List Byte) :=
  library.bz2 ([0x42, 0x5A, 0x68, 0x31] ++ compressedPayload)

/-- Five bytes of properties, and the stream. -/
def decompressRsLzma (library : Decompressors) (compressedPayload : List Byte) :
    Option (List Byte) :=
  if compressedPayload.length < 5 then none
  else
    let propertyByte := ofBytes (compressedPayload.take 1)
    let remainder := propertyByte % (9 * 5)
    library.lzma (ofBytes ((compressedPayload.drop 1).take 4).reverse) (remainder % 9)
      (remainder / 9) (propertyByte / (9 * 5)) (compressedPayload.drop 5)

def decompress (library : Decompressors) (compression : ℕ) (compressedPayload : List Byte) :
    Option (List Byte) :=
  if compression = 0 then some compressedPayload
  else if compression = 1 then decompressRsBzip2 library compressedPayload
  else if compression = 2 then library.gzip compressedPayload
  else if compression = 3 then decompressRsLzma library compressedPayload
  else none

/-- `none` is an exception. -/
def decodeContainer (library : Decompressors) (data : List Byte) : Option ContainerInfo :=
  if data.length < 5 then none
  else
    let compression := ofBytes (data.take 1)
    let compressedSize := ofBytes ((data.drop 1).take 4)
    if compression ≠ 0 ∧ data.length < 9 then none
    else
      let decompressedSize := if compression ≠ 0 then ofBytes ((data.drop 5).take 4) else 0
      let offset := if compression ≠ 0 then 9 else 5
      if data.length < offset + compressedSize then none
      else do
        let compressedPayload := (data.drop offset).take compressedSize
        let trailer := data.drop (offset + compressedSize)
        let payload ← decompress library compression compressedPayload
        return {
          compression := compression
          compressedSize := compressedSize
          decompressedSize := decompressedSize
          version := if 2 ≤ trailer.length then some (ofBytes (trailer.take 2)) else none
          payloadBytes := payload
          compressedPayloadBytes := compressedPayload }

end Container

section Master

structure ChecksumTableEntry where
  index : ℕ
  crc : ℕ
  version : ℕ
  files : ℕ
  size : ℕ
  whirlpool : List Byte
  deriving DecidableEq

/-- The entries under their indices, `entries[index].index = index`. -/
structure ChecksumTableDump where
  entryCount : ℕ
  entries : List ChecksumTableEntry
  signature : List Byte

def decodeEntries : ℕ → ℕ → List Byte → List ChecksumTableEntry
  | 0, _, _ => []
  | count + 1, index, payload =>
    { index := index
      crc := ofBytes (payload.take 4)
      version := ofBytes ((payload.drop 4).take 4)
      files := ofBytes ((payload.drop 8).take 4)
      size := ofBytes ((payload.drop 12).take 4)
      whirlpool := (payload.drop 16).take 64 } :: decodeEntries count (index + 1) (payload.drop 80)

/-- `none` is an exception: the payload is empty, or has less than its entries. -/
def decodeChecksumTablePayload (payload : List Byte) : Option ChecksumTableDump :=
  if payload = [] then none
  else
    let entryCount := ofBytes (payload.take 1)
    let entriesSize := 1 + entryCount * (4 + 4 + 4 + 4 + 64)
    if payload.length < entriesSize then none
    else some {
      entryCount := entryCount
      entries := decodeEntries entryCount 0 (payload.drop 1)
      signature := payload.drop entriesSize }

end Master

section Comparison

inductive DiffState
  | matched
  | localPrefixOfLive
  | livePrefixOfLocal
  | mismatch
  deriving DecidableEq

structure DiffSummary where
  state : DiffState
  commonPrefixBytes : ℕ
  firstDiffOffset : Option ℕ
  localRemainingBytes : ℕ
  liveRemainingBytes : ℕ
  deriving DecidableEq

def commonPrefix : List Byte → List Byte → ℕ
  | a :: localBytes, b :: liveBytes => if a = b then commonPrefix localBytes liveBytes + 1 else 0
  | _, _ => 0

def compareBytes (localBytes liveBytes : List Byte) : DiffSummary :=
  let common := commonPrefix localBytes liveBytes
  let state :=
    if localBytes.length = liveBytes.length ∧ common = localBytes.length then DiffState.matched
    else if common = localBytes.length ∧ localBytes.length < liveBytes.length then
      .localPrefixOfLive
    else if common = liveBytes.length ∧ liveBytes.length < localBytes.length then
      .livePrefixOfLocal
    else .mismatch
  { state := state
    commonPrefixBytes := common
    firstDiffOffset := if state = .matched then none else some common
    localRemainingBytes := localBytes.length - common
    liveRemainingBytes := liveBytes.length - common }

/-- What is checked of a table that is stored locally. -/
structure LocalReferenceTableInfo where
  rawCrc32 : ℕ
  rawVersion : Option ℕ

/-- No stored table is no exception, one that cannot be decoded is. -/
def loadLocalReferenceTableInfo (library : Decompressors) (stored : Option (List Byte)) :
    Option (Option LocalReferenceTableInfo) :=
  match stored with
  | none => some none
  | some raw => do
    let container ← decodeContainer library raw
    return some { rawCrc32 := (getCrc32 raw).toNat, rawVersion := container.version }

inductive MismatchFlag
  | handshakeResponseMismatch
  | responseHeaderMismatch
  | unexpectedTrailingBytes
  | rawMasterTableBodyDisagreesWithRetail
  | localReferenceTableBodyDisagreesWithRetail
  | localMasterEntryMissing
  | retailMasterEntryMissing
  | masterEntryDisagreesWithRetail
  | localMasterEntryDisagreesWithLocalTable
  deriving DecidableEq

/-- The two master entries of an archive say the same, but for the whirlpool. -/
def ChecksumTableEntry.Agrees (local' live : ChecksumTableEntry) : Prop :=
  local'.crc = live.crc ∧ local'.version = live.version ∧ local'.files = live.files ∧
    local'.size = live.size

instance (local' live : ChecksumTableEntry) : Decidable (local'.Agrees live) :=
  inferInstanceAs (Decidable (_ ∧ _))

/-- A master entry is that of the stored table; a table without a trailer has any version. -/
def ChecksumTableEntry.Describes (entry : ChecksumTableEntry) (info : LocalReferenceTableInfo) :
    Prop :=
  entry.crc = info.rawCrc32 ∧ ∀ version ∈ info.rawVersion, entry.version = version

instance (entry : ChecksumTableEntry) (info : LocalReferenceTableInfo) :
    Decidable (entry.Describes info) :=
  inferInstanceAs (Decidable (_ ∧ _))

def classifyMasterEntries (localMasterEntry liveMasterEntry : Option ChecksumTableEntry)
    (localReferenceTable : Option LocalReferenceTableInfo) : List MismatchFlag :=
  (if localMasterEntry.isNone then [.localMasterEntryMissing] else []) ++
    (if liveMasterEntry.isNone then [.retailMasterEntryMissing] else []) ++
    (if ∀ entry ∈ localMasterEntry, ∀ live ∈ liveMasterEntry, entry.Agrees live then []
      else [.masterEntryDisagreesWithRetail]) ++
    if ∀ entry ∈ localMasterEntry, ∀ info ∈ localReferenceTable, entry.Describes info then []
    else [.localMasterEntryDisagreesWithLocalTable]

def classifyArchive (archive : ℕ) (payloadDiff : DiffSummary)
    (localMasterEntry liveMasterEntry : Option ChecksumTableEntry)
    (localReferenceTable : Option LocalReferenceTableInfo) (localReply liveReply : ParsedJs5Reply) :
    List MismatchFlag :=
  (if localReply.handshakeResponse ≠ liveReply.handshakeResponse then [.handshakeResponseMismatch]
    else []) ++
    (if localReply.header ≠ liveReply.header then [.responseHeaderMismatch] else []) ++
    (if localReply.trailingBytes ≠ [] ∨ liveReply.trailingBytes ≠ [] then [.unexpectedTrailingBytes]
      else []) ++
    if archive = 255 then
      if payloadDiff.state ≠ .matched then [.rawMasterTableBodyDisagreesWithRetail] else []
    else
      (if payloadDiff.state ≠ .matched then [.localReferenceTableBodyDisagreesWithRetail] else []) ++
        classifyMasterEntries localMasterEntry liveMasterEntry localReferenceTable

end Comparison

section Main

/-- The master table comes last. -/
def archiveSortKey (archive : ℕ) : ℕ ×ₗ ℕ :=
  if archive = 255 then toLex (1, archive) else toLex (0, archive)

/-- Every archive once, and the master table among them unless it is left out. -/
def selectArchives (archives : List ℕ) (includeMaster : Bool) : List ℕ :=
  let archives := if includeMaster ∧ 255 ∉ archives then archives ++ [255] else archives
  archives.eraseDups.mergeSort fun a b => archiveSortKey a ≤ archiveSortKey b

structure ArchiveResult where
  archive : ℕ
  frameDiff : DiffSummary
  payloadDiff : DiffSummary
  mismatchFlags : List MismatchFlag

def ArchiveResult.mismatched (result : ArchiveResult) : Bool :=
  result.frameDiff.state ≠ .matched ∨ result.payloadDiff.state ≠ .matched ∨
    result.mismatchFlags ≠ []

/-- The entries of a master table. -/
def masterEntries (library : Decompressors) (reply : ParsedJs5Reply) :
    Option (List ChecksumTableEntry) := do
  let container ← decodeContainer library reply.payloadBytes
  let table ← decodeChecksumTablePayload container.payloadBytes
  return table.entries

def archiveResult (library : Decompressors) (stored : ℕ → Option (List Byte))
    (localMaster liveMaster : List ChecksumTableEntry)
    (replay : ℕ × ParsedJs5Reply × ParsedJs5Reply) : Option ArchiveResult := do
  let (archive, localReply, liveReply) := replay
  let frameDiff := compareBytes localReply.frameBytes liveReply.frameBytes
  let payloadDiff := compareBytes localReply.payloadBytes liveReply.payloadBytes
  let localEntry := if archive = 255 then none else localMaster[archive]?
  let liveEntry := if archive = 255 then none else liveMaster[archive]?
  let info ← if archive = 255 then some none else loadLocalReferenceTableInfo library (stored archive)
  return {
    archive := archive
    frameDiff := frameDiff
    payloadDiff := payloadDiff
    mismatchFlags :=
      classifyArchive archive payloadDiff localEntry liveEntry info localReply liveReply }

/-- The entries of both master tables; none where the master table was not asked for. -/
def masters (library : Decompressors) (replies : List (ℕ × ParsedJs5Reply × ParsedJs5Reply)) :
    Option (List ChecksumTableEntry × List ChecksumTableEntry) :=
  match replies.find? fun r => r.1 = 255 with
  | none => some ([], [])
  | some (_, localReply, liveReply) => do
    let localMaster ← masterEntries library localReply
    let liveMaster ← masterEntries library liveReply
    return (localMaster, liveMaster)

def parseReplies (replay : ℕ → List Byte × List Byte) (archive : ℕ) :
    Option (ℕ × ParsedJs5Reply × ParsedJs5Reply) := do
  let localReply ← parseJs5Reply (replay archive).1
  let liveReply ← parseJs5Reply (replay archive).2
  return (archive, localReply, liveReply)

/-- The results for all archives. `replay` has what was received of either server, and `stored` the
tables that are stored locally. -/
def results (library : Decompressors) (stored : ℕ → Option (List Byte))
    (replay : ℕ → List Byte × List Byte) (archives : List ℕ) : Option (List ArchiveResult) := do
  let replies ← archives.mapM (parseReplies replay)
  let (localMaster, liveMaster) ← masters library replies
  replies.mapM (archiveResult library stored localMaster liveMaster)

def firstMismatch (results : List ArchiveResult) : Option ArchiveResult :=
  results.find? ArchiveResult.mismatched

end Main

section Comparing

theorem commonPrefix_eq_length {localBytes liveBytes : List Byte}
    (hlength : localBytes.length = liveBytes.length) :
    commonPrefix localBytes liveBytes = localBytes.length ↔ localBytes = liveBytes := by
  induction localBytes generalizing liveBytes with
  | nil => exact iff_of_true rfl (List.length_eq_zero_iff.mp hlength.symm).symm
  | cons a localBytes ih =>
    cases liveBytes with
    | nil => cases hlength
    | cons b liveBytes =>
      rw [commonPrefix]
      split_ifs with hab
      · subst hab
        rw [List.length_cons, Nat.add_right_cancel_iff, ih (Nat.succ_inj.mp hlength),
          List.cons_inj_right]
      · simp [hab]

theorem state_compareBytes (localBytes liveBytes : List Byte) :
    (compareBytes localBytes liveBytes).state = .matched ↔ localBytes = liveBytes := by
  unfold compareBytes
  dsimp only
  by_cases hequal : localBytes = liveBytes
  · rw [if_pos ⟨congrArg List.length hequal,
      (commonPrefix_eq_length (congrArg List.length hequal)).mpr hequal⟩]
    exact iff_of_true rfl hequal
  · rw [if_neg fun h => hequal ((commonPrefix_eq_length h.1).mp h.2)]
    refine iff_of_false ?_ hequal
    split_ifs <;> simp

end Comparing

section Decoding
variable {library : Decompressors}

/-- A container that was only wrapped. -/
theorem decodeContainer_wrapped {payload : List Byte} (hfits : payload.length < 2 ^ 32) :
    decodeContainer library (Container.packed .none 0 payload) = some {
      compression := 0
      compressedSize := payload.length
      decompressedSize := 0
      version := none
      payloadBytes := payload
      compressedPayloadBytes := payload } := by
  have hsize : (BitVec.ofNat 32 payload.length).toNat = payload.length := by
    rw [BitVec.toNat_ofNat]
    exact Nat.mod_eq_of_lt hfits
  obtain ⟨b₁, b₂, b₃, b₄, hput⟩ : ∃ b₁ b₂ b₃ b₄,
      putInt (BitVec.ofNat 32 payload.length) = [b₁, b₂, b₃, b₄] := ⟨_, _, _, _, rfl⟩
  have hbytes : ofBytes [b₁, b₂, b₃, b₄] = payload.length := hput ▸ (ofBytes_putWord 4 _).trans hsize
  have hpacked : Container.packed .none 0 payload = 0 :: b₁ :: b₂ :: b₃ :: b₄ :: payload := by
    rw [Container.packed, hput]
    rfl
  have hzero : ofBytes [0#8] = 0 := by simp [ofBytes]
  rw [hpacked]
  simp [decodeContainer, decompress, hbytes, hzero]
  omega

/-- What the doctor has of an entry. -/
def dumped (entry : TableEntry) (index : ℕ) : ChecksumTableEntry where
  index := index
  crc := entry.crc.toNat
  version := entry.version.toNat
  files := entry.files.toNat
  size := entry.size.toNat
  whirlpool := entry.whirlpool

theorem decodeEntries_encode {entries : List TableEntry}
    (h : ∀ entry ∈ entries, entry.whirlpool.length = 64) (index : ℕ) (rest : List Byte) :
    decodeEntries entries.length index (entries.flatMap TableEntry.encode ++ rest) =
      (entries.zipIdx index).map fun e => dumped e.1 e.2 := by
  induction entries generalizing index with
  | nil => rfl
  | cons entry entries ih =>
    have hwhirlpool := h entry List.mem_cons_self
    have hmore := ih (fun e he => h e (List.mem_cons_of_mem _ he)) (index + 1)
    rw [List.flatMap_cons, List.append_assoc, List.length_cons, decodeEntries, List.zipIdx_cons,
      List.map_cons, ← hmore]
    generalize entries.flatMap TableEntry.encode ++ rest = more
    have hfields : entry.encode ++ more = putInt entry.crc ++ (putInt entry.version ++
        (putInt entry.files ++ (putInt entry.size ++ (entry.whirlpool ++ more)))) := by
      simp only [TableEntry.encode, List.append_assoc]
    have hskip : ∀ (w : Word) (bytes : List Byte) (n : ℕ),
        (putInt w ++ bytes).drop (4 + n) = bytes.drop n := by
      intro w bytes n
      have hdrop := @List.drop_length_add_append _ (putInt w) bytes n
      rwa [length_putWord] at hdrop
    have hread : ∀ (w : Word) (bytes : List Byte), ofBytes ((putInt w ++ bytes).take 4) = w.toNat := by
      intro w bytes
      rw [List.take_left' (length_putWord 4 w)]
      exact ofBytes_putWord 4 w
    have hbehind : (entry.whirlpool ++ more).drop 64 = more := List.drop_left' hwhirlpool
    rw [hfields, hskip _ _ 0, hskip _ _ 4, hskip _ _ 0, hskip _ _ 8, hskip _ _ 4, hskip _ _ 0,
      hskip _ _ 12, hskip _ _ 8, hskip _ _ 4, hskip _ _ 0, hskip _ _ 76, hskip _ _ 72, hskip _ _ 68,
      hskip _ _ 64, hbehind]
    simp only [List.drop_zero, hread]
    rw [List.take_left' hwhirlpool]
    rfl

theorem decodeChecksumTablePayload_body {table : ChecksumTable}
    (hcount : table.entries.length ≤ 255)
    (h : ∀ entry ∈ table.entries, entry.whirlpool.length = 64) (signature : List Byte) :
    ∃ dump, decodeChecksumTablePayload (table.body ++ signature) = some dump ∧
      dump.entries = table.entries.zipIdx.map fun e => dumped e.1 e.2 := by
  have hbyte : ofBytes [BitVec.ofNat 8 table.entries.length] = table.entries.length := by
    have hnat : (BitVec.ofNat 8 table.entries.length).toNat = table.entries.length := by
      rw [BitVec.toNat_ofNat]
      exact Nat.mod_eq_of_lt (by omega)
    simp [ofBytes, hnat]
  have hlength := length_encode h
  have hfirst : (table.body ++ signature).take 1 = [BitVec.ofNat 8 table.entries.length] := rfl
  have hrest : (table.body ++ signature).drop 1 =
      table.entries.flatMap TableEntry.encode ++ signature := rfl
  have hne : table.body ++ signature ≠ [] := List.cons_ne_nil _ _
  unfold decodeChecksumTablePayload
  rw [if_neg hne]
  dsimp only
  rw [hfirst, hbyte, if_neg (by
    rw [List.length_append, ChecksumTable.body, List.length_cons, hlength]
    omega), hrest]
  exact ⟨_, rfl, decodeEntries_encode h 0 signature⟩

end Decoding

section Verdict
variable {library : Decompressors} {stored : ℕ → Option (List Byte)}

/-- The file of an archive under index 255. -/
def tableTarget (archive : ℕ) : Target := ⟨true, 255, BitVec.ofNat 32 archive⟩

/-- A server answers for every archive with a container, and for the master table with the entries of
a table. -/
structure Answers (asked : List ℕ) (reply : ℕ → List Byte) (code : ℕ → Byte)
    (file : ℕ → List Byte) (table : ChecksumTable) : Prop where
  reply : ∀ a ∈ asked, reply a = code a :: Js5Encoder.response (tableTarget a) (file a)
  container : ∀ a ∈ asked, ∃ compression decompressedSize compressed,
    file a = Container.packed compression decompressedSize compressed ∧ compressed.length < 2 ^ 32
  archive : ∀ a ∈ asked, a < 2 ^ 31
  master : ∃ signature, file 255 = Container.packed .none 0 (table.body ++ signature) ∧
    (table.body ++ signature).length < 2 ^ 32
  count : table.entries.length ≤ 255
  whirlpool : ∀ entry ∈ table.entries, entry.whirlpool.length = 64

/-- A container as the doctor has it after a reply. -/
def parsed (code : Byte) (archive : ℕ) (data : List Byte) : ParsedJs5Reply where
  handshakeResponse := code
  header := {
    index := 255
    archive := archive
    priority := true
    compression := ofBytes (data.take 1)
    fileSize := ofBytes ((data.drop 1).take 4) }
  frameBytes := Js5Encoder.response (tableTarget archive) data
  payloadBytes := data
  trailingBytes := []

@[simp] theorem frameBytes_parsed (code : Byte) (archive : ℕ) (data : List Byte) :
    (parsed code archive data).frameBytes = Js5Encoder.response (tableTarget archive) data := rfl

@[simp] theorem payloadBytes_parsed (code : Byte) (archive : ℕ) (data : List Byte) :
    (parsed code archive data).payloadBytes = data := rfl

variable {asked : List ℕ} {reply : ℕ → List Byte} {code : ℕ → Byte} {file : ℕ → List Byte}
  {table : ChecksumTable}

theorem Answers.parse (h : Answers asked reply code file table) {a : ℕ} (ha : a ∈ asked) :
    parseJs5Reply (reply a) = some (parsed (code a) a (file a)) := by
  obtain ⟨compression, decompressedSize, compressed, hfile, hfits⟩ := h.container a ha
  have hlt := h.archive a ha
  have hnat : (BitVec.ofNat 32 a).toNat = a := by
    rw [BitVec.toNat_ofNat]
    omega
  have hmsb : (tableTarget a).archive.msb = false := by
    rw [BitVec.msb_eq_false_iff_two_mul_lt]
    change 2 * (BitVec.ofNat 32 a).toNat < 2 ^ 32
    omega
  have hsize : (BitVec.ofNat 32 compressed.length).toNat = compressed.length := by
    rw [BitVec.toNat_ofNat]
    exact Nat.mod_eq_of_lt hfits
  have hparse := @parseJs5Reply_response compression decompressedSize compressed (tableTarget a) hmsb
    hfits (code a) []
  have hfirst : ofBytes ((file a).take 1) = compression.id.toNat := by
    rw [hfile]
    change ofBytes [compression.id] = _
    simp [ofBytes]
  have hcount : ofBytes (((file a).drop 1).take 4) = compressed.length := by
    rw [hfile]
    change ofBytes ((putInt (BitVec.ofNat 32 compressed.length) ++ _ ++ _).take 4) = _
    rw [List.append_assoc, List.take_left' (length_putWord 4 _)]
    exact (ofBytes_putWord 4 _).trans hsize
  rw [List.append_nil, ← hfile] at hparse
  rw [h.reply a ha, hparse, parsed, hfirst, hcount, containerHeader]
  change some _ = some _
  congr 2
  exact congrArg (ResponseHeader.mk _ · _ _ _) hnat

theorem Answers.masterEntries (h : Answers asked reply code file table) :
    masterEntries library (parsed (code 255) 255 (file 255)) =
      some (table.entries.zipIdx.map fun e => dumped e.1 e.2) := by
  obtain ⟨signature, hfile, hfits⟩ := h.master
  obtain ⟨dump, hdump, hentries⟩ := decodeChecksumTablePayload_body h.count h.whirlpool signature
  unfold ReferenceTableDoctor.masterEntries
  rw [payloadBytes_parsed, hfile, decodeContainer_wrapped hfits, Option.bind_eq_bind, Option.bind_some]
  dsimp only
  rw [hdump, Option.bind_eq_bind, Option.bind_some, hentries]
  rfl

/-- Both servers answer with the same code and the same file, and the master entries agree with each
other and with the table that is stored. -/
def Agrees (library : Decompressors) (stored : ℕ → Option (List Byte)) (code code' : ℕ → Byte)
    (file file' : ℕ → List Byte) (table table' : ChecksumTable) (a : ℕ) : Prop :=
  code a = code' a ∧ file a = file' a ∧ (a ≠ 255 → ∃ entry live,
    table.entries[a]? = some entry ∧ table'.entries[a]? = some live ∧
      (dumped entry a).Agrees (dumped live a) ∧
      ∀ info, loadLocalReferenceTableInfo library (stored a) = some (some info) →
        (dumped entry a).Describes info)

theorem classifyMasterEntries_eq_nil {entry live : Option ChecksumTableEntry}
    {info : Option LocalReferenceTableInfo} :
    classifyMasterEntries entry live info = [] ↔ ∃ e l, entry = some e ∧ live = some l ∧
      e.Agrees l ∧ ∀ i, info = some i → e.Describes i := by
  cases entry with
  | none => simp [classifyMasterEntries]
  | some e =>
    cases live with
    | none => simp [classifyMasterEntries]
    | some l => cases info <;> simp [classifyMasterEntries]

theorem getElem?_dumped (entries : List TableEntry) (a : ℕ) :
    (entries.zipIdx.map fun e => dumped e.1 e.2)[a]? = entries[a]?.map fun e => dumped e a := by
  rw [List.getElem?_map, List.getElem?_zipIdx, Option.map_map, Nat.zero_add]
  rfl

theorem classifyArchive_parsed {c c' : Byte} {a : ℕ} {data data' : List Byte}
    {entry live : Option ChecksumTableEntry} {info : Option LocalReferenceTableInfo} :
    classifyArchive a (compareBytes data data') entry live info (parsed c a data)
        (parsed c' a data') = [] ↔
      c = c' ∧ data = data' ∧ (a ≠ 255 → classifyMasterEntries entry live info = []) := by
  have hpayload := state_compareBytes data data'
  unfold classifyArchive
  by_cases hdata : data = data'
  · subst hdata
    have hmatched := hpayload.mpr rfl
    by_cases hmaster : a = 255 <;> simp [hmatched, hmaster, parsed]
  · have hdiffers : (compareBytes data data').state ≠ .matched := fun h => hdata (hpayload.mp h)
    by_cases hmaster : a = 255 <;> simp [hdiffers, hdata, hmaster]

theorem mismatched_eq_false {result : ArchiveResult} : result.mismatched = false ↔
    result.frameDiff.state = .matched ∧ result.payloadDiff.state = .matched ∧
      result.mismatchFlags = [] := by
  unfold ArchiveResult.mismatched
  rw [decide_eq_false_iff_not, not_or, not_or, not_not, not_not, not_not]

variable {reply' : ℕ → List Byte} {code' : ℕ → Byte} {file' : ℕ → List Byte} {table' : ChecksumTable}

/-- The result of one archive is a mismatch unless the servers agree on it. -/
theorem archiveResult_parsed {a : ℕ}
    (hstored : ∀ raw, stored a = some raw → (decodeContainer library raw).isSome) :
    ∃ result, archiveResult library stored (table.entries.zipIdx.map fun e => dumped e.1 e.2)
        (table'.entries.zipIdx.map fun e => dumped e.1 e.2)
        (a, parsed (code a) a (file a), parsed (code' a) a (file' a)) = some result ∧
      result.archive = a ∧
      (result.mismatched = false ↔ Agrees library stored code code' file file' table table' a) := by
  obtain ⟨info, hinfo⟩ : ∃ info, loadLocalReferenceTableInfo library (stored a) = some info := by
    cases hraw : stored a with
    | none => exact ⟨none, rfl⟩
    | some raw =>
      obtain ⟨container, hcontainer⟩ := Option.isSome_iff_exists.mp (hstored raw hraw)
      rw [loadLocalReferenceTableInfo, hcontainer]
      exact ⟨_, rfl⟩
  have hframe : ∀ {data data' : List Byte}, data = data' →
      (compareBytes (Js5Encoder.response (tableTarget a) data)
        (Js5Encoder.response (tableTarget a) data')).state = .matched :=
    fun h => (state_compareBytes _ _).mpr (congrArg _ h)
  unfold archiveResult
  dsimp only
  by_cases hmaster : a = 255
  · rw [if_pos hmaster, Option.bind_eq_bind, Option.bind_some]
    refine ⟨_, rfl, rfl, ?_⟩
    rw [mismatched_eq_false]
    simp only [frameBytes_parsed, payloadBytes_parsed]
    rw [classifyArchive_parsed]
    constructor
    · rintro ⟨-, -, hcode, hfile, -⟩
      exact ⟨hcode, hfile, fun h => absurd hmaster h⟩
    · rintro ⟨hcode, hfile, -⟩
      exact ⟨hframe hfile, (state_compareBytes _ _).mpr hfile, hcode, hfile,
        fun h => absurd hmaster h⟩
  · rw [if_neg hmaster, if_neg hmaster, if_neg hmaster, hinfo, Option.bind_eq_bind, Option.bind_some]
    refine ⟨_, rfl, rfl, ?_⟩
    have hentries : classifyMasterEntries (table.entries.zipIdx.map fun e => dumped e.1 e.2)[a]?
        (table'.entries.zipIdx.map fun e => dumped e.1 e.2)[a]? info = [] ↔ ∃ entry live,
          table.entries[a]? = some entry ∧ table'.entries[a]? = some live ∧
          (dumped entry a).Agrees (dumped live a) ∧ ∀ i, info = some i →
            (dumped entry a).Describes i := by
      rw [classifyMasterEntries_eq_nil, getElem?_dumped, getElem?_dumped]
      simp only [Option.map_eq_some_iff]
      constructor
      · rintro ⟨-, -, ⟨entry, hentry, rfl⟩, ⟨live, hlive, rfl⟩, h⟩
        exact ⟨entry, live, hentry, hlive, h⟩
      · rintro ⟨entry, live, hentry, hlive, h⟩
        exact ⟨_, _, ⟨entry, hentry, rfl⟩, ⟨live, hlive, rfl⟩, h⟩
    rw [mismatched_eq_false]
    simp only [frameBytes_parsed, payloadBytes_parsed]
    rw [classifyArchive_parsed, hentries]
    unfold Agrees
    simp only [hinfo, Option.some.injEq]
    constructor
    · rintro ⟨-, -, hcode, hfile, h⟩
      exact ⟨hcode, hfile, h⟩
    · rintro ⟨hcode, hfile, h⟩
      exact ⟨hframe hfile, (state_compareBytes _ _).mpr hfile, hcode, hfile, h⟩

theorem mem_selectArchives {archives : List ℕ} {a : ℕ} :
    a ∈ selectArchives archives true ↔ a ∈ archives ∨ a = 255 := by
  unfold selectArchives
  rw [List.mem_mergeSort, List.mem_eraseDups]
  by_cases h : 255 ∈ archives
  · simp only [h, not_true, and_false, if_false]
    exact (or_iff_left_of_imp fun ha => ha ▸ h).symm
  · simp [h]

theorem pairwise_selectArchives (archives : List ℕ) (includeMaster : Bool) :
    (selectArchives archives includeMaster).Pairwise fun a b =>
      archiveSortKey a ≤ archiveSortKey b := by
  have hsorted := @List.pairwise_mergeSort _ (fun a b => decide (archiveSortKey a ≤ archiveSortKey b))
    (fun a b c hab hbc => decide_eq_true
      ((of_decide_eq_true hab).trans (of_decide_eq_true hbc)))
    (fun a b => by
      rw [Bool.or_eq_true, decide_eq_true_iff, decide_eq_true_iff]
      exact le_total _ _)
  exact (hsorted _).imp of_decide_eq_true

/-- A mismatch is found where there is one, and it is the first one. -/
theorem firstMismatch_spec {rs : List ArchiveResult}
    (hsorted : (rs.map (·.archive)).Pairwise fun a b => archiveSortKey a ≤ archiveSortKey b) :
    (firstMismatch rs = none ↔ ∀ r ∈ rs, r.mismatched = false) ∧
      ∀ r, firstMismatch rs = some r → r.mismatched = true ∧
        ∀ r' ∈ rs, archiveSortKey r'.archive < archiveSortKey r.archive → r'.mismatched = false := by
  constructor
  · unfold firstMismatch
    rw [List.find?_eq_none]
    simp
  · intro r hr
    obtain ⟨hmismatched, before, after, rfl, hbefore⟩ := List.find?_eq_some_iff_append.mp hr
    refine ⟨hmismatched, fun r' hr' hlt => ?_⟩
    rw [List.map_append, List.map_cons, List.pairwise_append, List.pairwise_cons] at hsorted
    obtain ⟨-, ⟨hafter, -⟩, -⟩ := hsorted
    obtain hfirst | hrest := List.mem_append.mp hr'
    · simpa using hbefore r' hfirst
    · obtain rfl | hlater := List.mem_cons.mp hrest
      · exact absurd hlt (lt_irrefl _)
      · exact absurd hlt (not_lt_of_ge (hafter _ (List.mem_map_of_mem hlater)))

/-- The doctor of two servers reports no mismatch just where they agree on all archives; else it
reports the first archive on which they do not, the master table last. -/
theorem firstMismatch_results {archives : List ℕ} {replay : ℕ → List Byte × List Byte}
    (hlocal : Answers (selectArchives archives true) (fun a => (replay a).1) code file table)
    (hlive : Answers (selectArchives archives true) (fun a => (replay a).2) code' file' table')
    (hstored : ∀ a raw, stored a = some raw → (decodeContainer library raw).isSome) :
    ∃ rs, results library stored replay (selectArchives archives true) = some rs ∧
      rs.map (·.archive) = selectArchives archives true ∧
      (firstMismatch rs = none ↔ ∀ a ∈ selectArchives archives true,
        Agrees library stored code code' file file' table table' a) ∧
      ∀ r, firstMismatch rs = some r → r.archive ∈ selectArchives archives true ∧
        ¬Agrees library stored code code' file file' table table' r.archive ∧
        ∀ a ∈ selectArchives archives true, archiveSortKey a < archiveSortKey r.archive →
          Agrees library stored code code' file file' table table' a := by
  have hmaster := mem_selectArchives.mpr (Or.inr rfl : 255 ∈ archives ∨ 255 = 255)
  have hsorted := pairwise_selectArchives archives true
  generalize selectArchives archives true = asked at *
  let replies := asked.map fun a => (a, parsed (code a) a (file a), parsed (code' a) a (file' a))
  have hreplies : asked.mapM (parseReplies replay) = some replies := by
    refine mapM_eq_map fun a ha => ?_
    have hfirst := hlocal.parse ha
    have hsecond := hlive.parse ha
    rw [parseReplies, hfirst, hsecond]
    rfl
  have hmasters : masters library replies = some (table.entries.zipIdx.map fun e => dumped e.1 e.2,
      table'.entries.zipIdx.map fun e => dumped e.1 e.2) := by
    have hfind : (asked.find? fun a => decide (a = 255)) = some 255 := by
      cases h : asked.find? fun a => decide (a = 255) with
      | none => exact absurd (decide_eq_true rfl) (List.find?_eq_none.mp h 255 hmaster)
      | some a =>
        have ha := List.find?_some (p := fun a => decide (a = 255)) h
        rw [of_decide_eq_true ha]
    have hpair : (replies.find? fun r => decide (r.1 = 255)) = some (255,
        parsed (code 255) 255 (file 255), parsed (code' 255) 255 (file' 255)) := by
      rw [List.find?_map]
      exact congrArg _ hfind
    rw [masters, hpair]
    dsimp only
    rw [hlocal.masterEntries, hlive.masterEntries]
    rfl
  choose result hresult using fun a => @archiveResult_parsed library stored code file table code'
    file' table' a (hstored a)
  have hresults : replies.mapM (archiveResult library stored
      (table.entries.zipIdx.map fun e => dumped e.1 e.2)
      (table'.entries.zipIdx.map fun e => dumped e.1 e.2)) = some (asked.map result) := by
    rw [List.mapM_map]
    exact mapM_eq_map fun a _ => (hresult a).1
  have harchives : (asked.map result).map (·.archive) = asked := by
    rw [List.map_map]
    exact List.map_id'' (fun a => (hresult a).2.1) asked
  obtain ⟨hnone, hsome⟩ := @firstMismatch_spec (asked.map result) (harchives.symm ▸ hsorted)
  refine ⟨asked.map result, ?_, harchives, hnone.trans ?_, fun r hr => ?_⟩
  · rw [results, hreplies, Option.bind_eq_bind, Option.bind_some, hmasters, Option.bind_eq_bind,
      Option.bind_some]
    exact hresults
  · rw [List.forall_mem_map]
    exact forall₂_congr fun a _ => (hresult a).2.2
  · obtain ⟨hmismatched, hbefore⟩ := hsome r hr
    obtain ⟨a, ha, rfl⟩ := List.mem_map.mp (List.mem_of_find?_eq_some hr)
    obtain ⟨-, harchive, hagrees⟩ := hresult a
    rw [harchive]
    refine ⟨ha, fun h => ?_, fun b hb hlt => ?_⟩
    · rw [hagrees.mpr h] at hmismatched
      cases hmismatched
    · refine (hresult b).2.2.mp (hbefore _ (List.mem_map_of_mem hb) ?_)
      rw [(hresult b).2.1, harchive]
      exact hlt

/-- A master table of three indices that have no table. -/
def emptyMaster : ChecksumTable := ⟨List.replicate 3 TableEntry.empty⟩

def smallFile (archive : ℕ) : List Byte :=
  if archive = 255 then Container.packed .none 0 emptyMaster.body else smallTable

def smallReply (archive : ℕ) : List Byte :=
  0 :: Js5Encoder.response (tableTarget archive) (smallFile archive)

def noDecompressors : Decompressors := ⟨fun _ => none, fun _ => none, fun _ _ _ _ _ => none⟩

theorem answers_small : Answers (selectArchives [2] true) smallReply (fun _ => 0) smallFile
    emptyMaster := by
  have hlength : emptyMaster.body.length < 2 ^ 32 := by decide +kernel
  refine ⟨fun _ _ => rfl, fun a _ => ?_, fun a ha => ?_, ⟨[], ?_, ?_⟩, by decide, by decide⟩
  · by_cases hmaster : a = 255
    · exact ⟨.none, 0, emptyMaster.body, if_pos hmaster, hlength⟩
    · exact ⟨.none, 0, [0xAA, 0xBB, 0xCC, 0xDD], if_neg hmaster, by decide⟩
  · rw [mem_selectArchives, List.mem_singleton] at ha
    omega
  · rw [List.append_nil]
    rfl
  · rw [List.append_nil]
    exact hlength

/-- Two servers that answer the same, and no table that is stored. -/
theorem firstMismatch_results_small : ∃ rs, results noDecompressors (fun _ => none)
    (fun a => (smallReply a, smallReply a)) (selectArchives [2] true) = some rs ∧
      firstMismatch rs = none := by
  obtain ⟨rs, hresults, -, hnone, -⟩ := @firstMismatch_results noDecompressors (fun _ => none)
    (fun _ => 0) smallFile emptyMaster (fun _ => 0) smallFile emptyMaster [2]
    (fun a => (smallReply a, smallReply a)) answers_small answers_small fun _ _ h => nomatch h
  refine ⟨rs, hresults, hnone.mpr fun a ha => ⟨rfl, rfl, fun hmaster => ?_⟩⟩
  obtain rfl : a = 2 := by
    rw [mem_selectArchives, List.mem_singleton] at ha
    omega
  exact ⟨TableEntry.empty, TableEntry.empty, rfl, rfl, ⟨rfl, rfl, rfl, rfl⟩, fun _ h => nomatch h⟩

end Verdict

end OpenNXT.Tools.ReferenceTableDoctor
