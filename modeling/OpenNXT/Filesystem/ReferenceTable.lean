import OpenNXT.Filesystem.Archive

/-! Reference tables and their column-wise wire format. -/
namespace OpenNXT.Filesystem
open Buffer Data

/-- Kotlin `Int` arithmetic wraps. -/
def wrapInt (x : ℤ) : ℤ := (BitVec.ofInt 32 x).toInt

structure ReferenceTable where
  version : Word := 0
  format : Word := 7
  mask : Word := 0
  archives : SortedMap ℤ Archive := .empty

namespace ReferenceTable

/-- One more than the last id; zero if there is none. -/
def highestEntry (t : ReferenceTable) : ℤ :=
  match t.archives.lastKey with
  | none => 0
  | some id => id + 1

def hasNames (mask : Word) : Bool := mask &&& 0x1 != 0

def hasWhirlpools (mask : Word) : Bool := mask &&& 0x2 != 0

def hasSizes (mask : Word) : Bool := mask &&& 0x4 != 0

def hasHashes (mask : Word) : Bool := mask &&& 0x8 != 0

/-- Four bytes with the top bit set from 32767 on, else two. -/
def putSmartInt (value : Word) : List Byte :=
  if 32767 ≤ value.toInt then putInt (value - 0x7fffffff - 1)
  else putShort (if 0 ≤ value.toInt then value.setWidth 16 else 0x7fff)

def getSmartInt : Reader Word := fun buffer =>
  match buffer with
  | [] => none
  | b :: _ =>
    if b.msb then (do let value ← Reader.int; return value &&& 0x7fffffff : Reader Word) buffer
    else (do let value ← Reader.short; return value.setWidth 32 : Reader Word) buffer

def writeFormatInt (format value : Word) : List Byte :=
  if 7 ≤ format.toInt then putSmartInt value else putShort (value.setWidth 16)

def readFormatInt (format : Word) : Reader Word :=
  if 7 ≤ format.toInt then getSmartInt
  else do
    let value ← Reader.short
    return value.setWidth 32

/-- Ids in increasing order, each as the difference to its predecessor. -/
def writeIds (format : Word) : ℤ → List ℤ → List Byte
  | _, [] => []
  | previous, id :: ids =>
    writeFormatInt format (BitVec.ofInt 32 (id - previous)) ++ writeIds format id ids

def readIds (format : Word) : ℕ → ℤ → Reader (List ℤ)
  | 0, _ => return []
  | n + 1, previous => do
    let delta ← readFormatInt format
    let id := wrapInt (delta.toInt + previous)
    let ids ← readIds format n id
    return id :: ids

/-- One column of the table: a field of every archive, in the order of their ids. -/
def column (t : ReferenceTable) (f : Archive → List Byte) : List Byte := t.archives.values.flatMap f

/-- The bytes put into the buffer, in order. -/
def layout (t : ReferenceTable) : List Byte := List.flatten [
  [t.format.setWidth 8],
  if 6 ≤ t.format.toInt then putInt t.version else [],
  [t.mask.setWidth 8],
  writeFormatInt t.format (BitVec.ofNat 32 t.archives.size),
  writeIds t.format 0 t.archives.keys,
  if hasNames t.mask then t.column (fun a => putInt a.name) else [],
  t.column (fun a => putInt a.crc),
  if hasHashes t.mask then t.column (fun a => putInt a.hash) else [],
  if hasWhirlpools t.mask then t.column (fun a => a.whirlpool.getD []) else [],
  if hasSizes t.mask then
    t.column (fun a => putInt a.compressedSize ++ putInt a.uncompressedSize)
  else [],
  t.column (fun a => putInt a.version),
  t.column (fun a => writeFormatInt t.format (BitVec.ofNat 32 a.files.size)),
  t.column (fun a => writeIds t.format 0 a.files.keys),
  if hasNames t.mask then
    t.column (fun a => a.files.values.flatMap (fun f => putInt f.name))
  else []]

def bufferSize : ℕ := 4000000

/-- The encoded table. `none` is an exception: a missing whirlpool under a mask
that writes them, or more bytes than the buffer takes. -/
def encode (t : ReferenceTable) : Option (List Byte) :=
  if hasWhirlpools t.mask ∧ t.archives.values.any (fun a => a.whirlpool.isNone) then none
  else if bufferSize < t.layout.length then none
  else some t.layout

/-- `archives[id] ?: throw`, then a field assignment. -/
def setField (archives : SortedMap ℤ Archive) (id : ℤ) (f : Archive → Archive) :
    Reader (SortedMap ℤ Archive) :=
  match archives.get? id with
  | none => Reader.fail
  | some _ => return archives.modify id f

def readColumn {α : Type} (present : Bool) (r : Reader α) (set : Archive → α → Archive)
    (ids : List ℤ) (archives : SortedMap ℤ Archive) : Reader (SortedMap ℤ Archive) :=
  if present then
    ids.foldlM (fun m id => do let v ← r; setField m id (fun a => set a v)) archives
  else return archives

def readCounts (format : Word) : ℕ → Reader (List Word)
  | 0 => return []
  | n + 1 => do
    let count ← readFormatInt format
    let counts ← readCounts format n
    return count :: counts

/-- The file ids of every archive; running out of counts is an index exception. -/
def readFiles (format : Word) :
    List ℤ → List Word → SortedMap ℤ Archive → Reader (SortedMap ℤ Archive × List (ℤ × List ℤ))
  | [], _, archives => return (archives, [])
  | _ :: _, [], _ => Reader.fail
  | id :: ids, count :: counts, archives => do
    let fileIds ← readIds format count.toNat 0
    let archives ← setField archives id (fun a =>
      { a with files := fileIds.foldl (fun m f => m.insert f {}) a.files })
    let (archives, rest) ← readFiles format ids counts archives
    return (archives, (id, fileIds) :: rest)

def readFileNames (id : ℤ) (fileIds : List ℤ) (archives : SortedMap ℤ Archive) :
    Reader (SortedMap ℤ Archive) :=
  fileIds.foldlM (fun m f => do
    let name ← Reader.int
    setField m id (fun a => { a with files := a.files.modify f (fun x => { x with name := name }) }))
    archives

def readSignedByte : Reader Word := do
  let value ← Reader.byte
  return value.signExtend 32

def readSizes : Reader (Word × Word) := do
  let compressedSize ← Reader.int
  let uncompressedSize ← Reader.int
  return (compressedSize, uncompressedSize)

def readVersion (format : Word) : Reader Word := if 6 ≤ format.toInt then Reader.int else pure 0

def readAllFileNames (present : Bool) (fileIds : List (ℤ × List ℤ))
    (archives : SortedMap ℤ Archive) : Reader (SortedMap ℤ Archive) :=
  if present then fileIds.foldlM (fun m e => readFileNames e.1 e.2 m) archives
  else pure archives

/-- Read a table into `t`, whose archives stay; `none` is an exception. -/
def decode (t : ReferenceTable) : Reader ReferenceTable := do
  let format ← readSignedByte
  if ¬(5 ≤ format.toInt ∧ format.toInt ≤ 7) then Reader.fail
  else do
    let version ← readVersion format
    let mask ← readSignedByte
    let count ← readFormatInt format
    let ids ← readIds format count.toNat 0
    let archives := ids.foldl (fun m id => m.insert id {}) t.archives
    let archives ← readColumn (hasNames mask) Reader.int
      (fun a v => { a with name := v }) ids archives
    let archives ← readColumn true Reader.int (fun a v => { a with crc := v }) ids archives
    let archives ← readColumn (hasHashes mask) Reader.int
      (fun a v => { a with hash := v }) ids archives
    let archives ← readColumn (hasWhirlpools mask) (Reader.bytes 64)
      (fun a v => { a with whirlpool := some v }) ids archives
    let archives ← readColumn (hasSizes mask) readSizes
      (fun a v => { a with compressedSize := v.1, uncompressedSize := v.2 }) ids archives
    let archives ← readColumn true Reader.int (fun a v => { a with version := v }) ids archives
    let counts ← readCounts format archives.size
    let (archives, fileIds) ← readFiles format ids counts archives
    let archives ← readAllFileNames (hasNames mask) fileIds archives
    return { version := version, format := format, mask := mask, archives := archives }

end ReferenceTable

end OpenNXT.Filesystem
