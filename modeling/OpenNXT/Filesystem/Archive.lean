import OpenNXT.Buffer.BigEndian
import OpenNXT.Data.SortedMap

/-! Archives: the files of one reference-table entry and their packed form. -/
namespace OpenNXT.Filesystem
open Buffer Data

/-- JVM arrays and buffers hold fewer than `2 ^ 31` bytes. -/
def maxArray : ℕ := 2 ^ 31

/-- The id of a file is the key it is stored under. -/
structure ArchiveFile where
  data : List Byte := []
  name : Word := 0
  deriving DecidableEq

/-- The id of an archive is the key it is stored under. -/
structure Archive where
  name : Word := 0
  crc : Word := 0
  version : Word := 0
  whirlpool : Option (List Byte) := none
  uncompressedSize : Word := 0
  compressedSize : Word := 0
  hash : Word := 0
  loaded : Bool := false
  requiresUpdate : Bool := false
  files : SortedMap ℤ ArchiveFile := .empty

namespace Archive

def putFile (a : Archive) (id : ℤ) (data : List Byte) : Archive :=
  { a with requiresUpdate := true, files := a.files.insert id { data := data } }

def putData : ℤ → List (ℤ × ArchiveFile) → Option (List Byte)
  | _, [] => some []
  | last, (id, file) :: rest =>
    if id < last then none
    else do
      let tail ← putData id rest
      return file.data ++ tail

def putSizes : Word → List (ℤ × ArchiveFile) → List Byte
  | _, [] => []
  | previousSize, (_, file) :: rest =>
    let fileSize := BitVec.ofNat 32 file.data.length
    putInt (fileSize - previousSize) ++ putSizes fileSize rest

def dataSize (a : Archive) : ℕ := (a.files.values.map (fun f => f.data.length)).sum

/-- The packed payload. `none` is an exception: a buffer beyond the JVM's array
limit, or a negative file id in an archive of several files. -/
def encode (a : Archive) : Option (List Byte) :=
  if maxArray ≤ 1 + a.dataSize + a.files.size * 4 then none
  else match a.files.values with
    | [file] => some file.data
    | _ => do
      let data ← putData 0 a.files.entries
      return data ++ putSizes 0 a.files.entries ++ [1]

/-- The sizes of one chunk's files: each entry is a difference to its predecessor. -/
def readChunkSizes : ℕ → Word → Reader (List Word)
  | 0, _ => return []
  | n + 1, chunkSize => do
    let delta ← Reader.int
    let sizes ← readChunkSizes n (chunkSize + delta)
    return (chunkSize + delta) :: sizes

def readAll {α : Type} (r : Reader α) : ℕ → Reader (List α)
  | 0 => return []
  | n + 1 => do
    let x ← r
    let xs ← readAll r n
    return x :: xs

/-- One chunk's part of a file; a negative size is an exception. -/
def readPart (chunkSize : Word) : Reader (List Byte) :=
  if chunkSize.msb then Reader.fail else Reader.bytes chunkSize.toNat

def readParts : List Word → Reader (List (List Byte))
  | [] => return []
  | size :: sizes => do
    let part ← readPart size
    let parts ← readParts sizes
    return part :: parts

def readChunks : List (List Word) → List (List Byte) → Reader (List (List Byte))
  | [], data => return data
  | sizes :: chunks, data => do
    let parts ← readParts sizes
    readChunks chunks (List.zipWith (· ++ ·) data parts)

/-- Give the files, in key order, the data listed. -/
def setData (files : SortedMap ℤ ArchiveFile) (data : List (List Byte)) :
    SortedMap ℤ ArchiveFile :=
  (files.keys.zip data).foldl
    (fun m e => m.modify e.1 (fun file => { file with data := e.2 })) files

/-- Fill the files of an archive from its packed payload; `none` is an exception. -/
def decode (a : Archive) (buffer : List Byte) : Option Archive :=
  if a.files.size = 1 then
    some { a with loaded := true, files := setData a.files [buffer] }
  else do
    let last ← buffer.getLast?
    let numChunks := last.toNat
    let size := a.files.size
    if buffer.length < 1 + numChunks * (size * 4) then none
    else do
      let (chunkSizes, _) ← readAll (readChunkSizes size 0) numChunks
        (buffer.drop (buffer.length - 1 - numChunks * (size * 4)))
      let (data, _) ← readChunks chunkSizes (List.replicate size []) buffer
      return { a with loaded := true, files := setData a.files data }

end Archive

end OpenNXT.Filesystem
