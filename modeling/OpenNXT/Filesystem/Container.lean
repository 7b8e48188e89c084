import OpenNXT.Filesystem.Archive

/-! Containers: a compressed payload behind a short header, with an optional version trailer. -/
namespace OpenNXT.Filesystem
open Buffer

inductive ContainerCompression
  | none
  | bzip2
  | gzip
  | lzma
  deriving DecidableEq

namespace ContainerCompression

def id : ContainerCompression → Byte
  | none => 0
  | bzip2 => 1
  | gzip => 2
  | lzma => 3

/-- An unknown id is an exception. -/
def of (id : Byte) : Option ContainerCompression :=
  [none, bzip2, gzip, lzma].find? fun value => value.id = id

theorem of_id (c : ContainerCompression) : of c.id = some c := by
  cases c <;> rfl

end ContainerCompression

/-- The compression libraries. Decompression is given the size the header announces; `none` is an
exception. -/
structure Codecs where
  compress : ContainerCompression → List Byte → List Byte
  decompress : ContainerCompression → List Byte → Word → Option (List Byte)

structure Container where
  data : List Byte
  compression : ContainerCompression := .lzma
  version : Word := -1

namespace Container

def compressedData (codecs : Codecs) (c : Container) : List Byte :=
  if c.compression = .none then c.data else codecs.compress c.compression c.data

/-- Header and payload, the bytes in front of the trailer. -/
def body (codecs : Codecs) (c : Container) : List Byte :=
  [c.compression.id] ++ putInt (BitVec.ofNat 32 (c.compressedData codecs).length) ++
    (if c.compression = .none then [] else putInt (BitVec.ofNat 32 c.data.length)) ++
    c.compressedData codecs

def trailer (version : Word) : List Byte :=
  if version = -1 then [] else putShort (version.setWidth 16)

/-- The stored form. `none` is an exception: a buffer beyond the JVM's array limit. -/
def compress (codecs : Codecs) (c : Container) : Option (List Byte) :=
  if maxArray ≤ (c.body codecs ++ trailer c.version).length then none
  else some (c.body codecs ++ trailer c.version)

def readCompression : Reader ContainerCompression := do
  let id ← Reader.byte
  match ContainerCompression.of id with
  | none => Reader.fail
  | some compression => return compression

def readDecompressedSize (compression : ContainerCompression) : Reader Word :=
  if compression = .none then pure 0 else Reader.int

/-- `data.get(ByteArray(size))`; a negative size is an exception. -/
def readCompressed (size : Word) : Reader (List Byte) :=
  if size.msb then Reader.fail else Reader.bytes size.toNat

/-- Two bytes that remain behind the payload are the version. -/
def readTrailer : Reader Word := fun rest =>
  if 2 ≤ rest.length then
    (do let version ← Reader.short; return version.setWidth 32 : Reader Word) rest
  else some (-1, rest)

def readContainer : Reader (ContainerCompression × Word × List Byte × Word) := do
  let compression ← readCompression
  let size ← Reader.int
  let decompressedSize ← readDecompressedSize compression
  let compressed ← readCompressed size
  let version ← readTrailer
  return (compression, decompressedSize, compressed, version)

/-- `none` is an exception. -/
def decode (codecs : Codecs) (data : List Byte) : Option Container := do
  let ((compression, decompressedSize, compressed, version), _) ← readContainer data
  let decompressed ←
    if compression = .none then some compressed
    else codecs.decompress compression compressed decompressedSize
  return { data := decompressed, compression := compression, version := version }

end Container

end OpenNXT.Filesystem
