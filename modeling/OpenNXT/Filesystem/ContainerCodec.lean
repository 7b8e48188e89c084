import OpenNXT.Filesystem.Container

/-! Packed containers read back: header, payload, and the trailer that may follow. -/
namespace OpenNXT.Filesystem
open Buffer

/-- Arrays compressed by one of the libraries come back. -/
def Codecs.Restores (codecs : Codecs) (compression : ContainerCompression) : Prop :=
  ∀ data : List Byte, data.length < maxArray →
    codecs.decompress compression (codecs.compress compression data)
      (BitVec.ofNat 32 data.length) = some data

namespace Container

/-- Header and payload, as they are stored; the size of the data is there unless they are not
compressed. -/
def packed (compression : ContainerCompression) (decompressedSize : Word)
    (compressed : List Byte) : List Byte :=
  [compression.id] ++ putInt (BitVec.ofNat 32 compressed.length) ++
    (if compression = .none then [] else putInt decompressedSize) ++ compressed

/-- The data of a payload. -/
def unpacked (codecs : Codecs) (compression : ContainerCompression) (decompressedSize : Word)
    (compressed : List Byte) : Option (List Byte) :=
  if compression = .none then some compressed
  else codecs.decompress compression compressed decompressedSize

theorem length_packed (compression : ContainerCompression) (decompressedSize : Word)
    (compressed : List Byte) : (packed compression decompressedSize compressed).length =
      (if compression = .none then 5 else 9) + compressed.length := by
  simp only [packed, List.length_append, length_putWord, List.length_singleton]
  split_ifs <;> simp

theorem body_eq (codecs : Codecs) (c : Container) : c.body codecs =
    packed c.compression (BitVec.ofNat 32 c.data.length) (c.compressedData codecs) := rfl

section Read

theorem reads_compression (compression : ContainerCompression) :
    Reads readCompression [compression.id] compression := by
  rw [readCompression, ← List.append_nil [compression.id]]
  refine Reads.bind (Reads.byte compression.id) ?_
  rw [ContainerCompression.of_id]
  exact Reads.pure compression

theorem reads_decompressedSize (compression : ContainerCompression) (size : Word) :
    Reads (readDecompressedSize compression) (if compression = .none then [] else putInt size)
      (if compression = .none then 0 else size) := by
  unfold readDecompressedSize
  split_ifs
  · exact Reads.pure 0
  · exact Reads.word 4 size

theorem reads_compressed {compressed : List Byte} (h : compressed.length < 2 ^ 31) :
    Reads (readCompressed (BitVec.ofNat 32 compressed.length)) compressed compressed := by
  have hsize : (BitVec.ofNat 32 compressed.length).toNat = compressed.length := by
    rw [BitVec.toNat_ofNat]
    exact Nat.mod_eq_of_lt (by omega)
  have hsign : (BitVec.ofNat 32 compressed.length).msb = false := by
    rw [BitVec.msb_eq_decide, hsize, decide_eq_false_iff_not]
    omega
  rw [readCompressed, hsign, hsize]
  exact Reads.bytes compressed

theorem readTrailer_nil : readTrailer [] = some (-1, []) := rfl

theorem readTrailer_putShort (version : BitVec 16) (rest : List Byte) :
    readTrailer (putShort version ++ rest) = some (version.setWidth 32, rest) := by
  have hread := Reads.map (fun v => BitVec.setWidth 32 v) (Reads.word 2 version) rest
  have hlen : 2 ≤ (putShort version ++ rest).length := by
    rw [List.length_append, length_putWord]
    omega
  rw [readTrailer, if_pos hlen]
  exact hread

/-- What follows the payload is left to the trailer. -/
theorem readContainer_packed (compression : ContainerCompression) (decompressedSize : Word)
    {compressed : List Byte} (h : compressed.length < 2 ^ 31) (rest : List Byte) :
    readContainer (packed compression decompressedSize compressed ++ rest) =
      (readTrailer rest).map fun p => ((compression,
        (if compression = .none then 0 else decompressedSize), compressed, p.1), p.2) := by
  rw [readContainer, packed, List.append_assoc, List.append_assoc, List.append_assoc,
    (reads_compression compression).bind_append, (Reads.word 4 _).bind_append,
    (reads_decompressedSize compression decompressedSize).bind_append,
    (reads_compressed h).bind_append, Reader.bind_apply]
  cases readTrailer rest <;> rfl

end Read

section Decode
variable {codecs : Codecs} {compression : ContainerCompression} {decompressedSize : Word}
  {compressed : List Byte}

theorem decode_packed_append (h : compressed.length < 2 ^ 31) (rest : List Byte) :
    decode codecs (packed compression decompressedSize compressed ++ rest) =
      (readTrailer rest).bind fun p =>
        (unpacked codecs compression decompressedSize compressed).map fun data =>
          { data := data, compression := compression, version := p.1 } := by
  rw [decode, readContainer_packed compression decompressedSize h rest]
  cases readTrailer rest with
  | none => rfl
  | some p =>
    simp only [Option.map_some, Option.bind_eq_bind, Option.bind_some, unpacked]
    by_cases hnone : compression = .none
    · rw [if_pos hnone, if_pos hnone]
      rfl
    · simp only [if_neg hnone]
      cases codecs.decompress compression compressed decompressedSize <;> rfl

/-- A trailer of two bytes is the version. -/
theorem decode_packed_trailer (h : compressed.length < 2 ^ 31) (version : BitVec 16) :
    decode codecs (packed compression decompressedSize compressed ++ putShort version) =
      (unpacked codecs compression decompressedSize compressed).map fun data =>
        { data := data, compression := compression, version := version.setWidth 32 } := by
  have htrailer := readTrailer_putShort version []
  rw [List.append_nil] at htrailer
  rw [decode_packed_append h, htrailer, Option.bind_some]

/-- A stored container is restored, but for the upper half of its version. -/
theorem decode_compress {c : Container} {bytes : List Byte}
    (hrestores : c.compression ≠ .none → codecs.Restores c.compression)
    (hlimit : c.data.length < maxArray) (h : c.compress codecs = some bytes) :
    ∃ version, decode codecs bytes = some { c with version := version } := by
  unfold compress at h
  split_ifs at h with hlarge
  cases h
  have hcompressed : (c.compressedData codecs).length < 2 ^ 31 := by
    rw [body_eq, List.length_append, length_packed] at hlarge
    unfold maxArray at hlarge
    omega
  have hdata : unpacked codecs c.compression (BitVec.ofNat 32 c.data.length)
      (c.compressedData codecs) = some c.data := by
    unfold unpacked compressedData
    split_ifs with hnone
    · rfl
    · exact hrestores hnone c.data hlimit
  rw [body_eq, decode_packed_append hcompressed, hdata]
  unfold trailer
  split_ifs
  · exact ⟨_, rfl⟩
  · have htrailer := readTrailer_putShort (c.version.setWidth 16) []
    rw [List.append_nil] at htrailer
    rw [htrailer]
    exact ⟨_, rfl⟩

end Decode

end Container

end OpenNXT.Filesystem
