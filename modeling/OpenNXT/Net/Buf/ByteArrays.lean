import OpenNXT.Net.Buf.NumberReads

/-! Arrays of bytes, forwards and backwards, each byte transformed. -/
namespace OpenNXT.Net.Buf
open Buffer

namespace ByteAccess
open GamePacketBuilder GamePacketReader

/-- A byte is a signed number. -/
def putByte (transformation : DataTransformation) (b : Byte) : Option (List Byte) :=
  put .byte .big transformation (b.signExtend 64)

def putBytes (transformation : DataTransformation) (bytes : List Byte) : Option (List Byte) :=
  if transformation = .none then some bytes
  else do
    let written ← bytes.mapM (putByte transformation)
    return written.flatten

def putBytesReverse (transformation : DataTransformation) (bytes : List Byte) :
    Option (List Byte) :=
  if transformation = .none then some bytes.reverse
  else do
    let written ← bytes.reverse.mapM (putByte transformation)
    return written.flatten

def getByte (transformation : DataTransformation) : Reader Byte := do
  let value ← getSigned .byte .big transformation
  return value.setWidth 8

/-- The array is filled from its end. -/
def getBytesReverse (transformation : DataTransformation) (length : ℕ) : Reader (List Byte) := do
  let bytes ←
    if transformation = .none then Reader.times length Reader.byte
    else Reader.times length (getByte transformation)
  return bytes.reverse

/-- Without a transformation this calls `getBytesReverse`. -/
def getBytes (transformation : DataTransformation) (length : ℕ) : Reader (List Byte) :=
  if transformation = .none then getBytesReverse .none length
  else Reader.times length (getByte transformation)

/-- What is put is got back, in either direction. -/
def BytesReturn (transformation : DataTransformation) (bytes : List Byte) : Prop :=
  (∃ written, putBytes transformation bytes = some written ∧
    Reads (getBytes transformation bytes.length) written bytes) ∧
  ∃ written, putBytesReverse transformation bytes = some written ∧
    Reads (getBytesReverse transformation bytes.length) written bytes

end ByteAccess

section Arrays
open ByteAccess GamePacketBuilder GamePacketReader

/-- The correction of a sign leaves the low byte as it is. -/
private theorem setWidth_toSigned (b : Byte) : (toSigned .byte (b.setWidth 64)).setWidth 8 = b := by
  have hback : (b.setWidth 64).setWidth 8 = b := BitVec.setWidth_setWidth_of_le b (by omega)
  unfold toSigned
  split_ifs
  · rw [BitVec.sub_eq_add_neg, BitVec.setWidth_add _ _ (by omega), hback]
    exact BitVec.add_zero b
  · exact hback

private theorem reads_getByte (transformation : DataTransformation) (b : Byte) :
    ∃ bs, putByte transformation b = some bs ∧ Reads (getByte transformation) bs b := by
  have hput : put .byte .big transformation (b.signExtend 64) =
      some [byteAt transformation (b.signExtend 64) 0] := by
    rw [put, if_pos (by rintro (h | h) <;> cases h)]
    rfl
  refine ⟨_, hput, ?_⟩
  have hread := ((reads_gotten hput).map (toSigned .byte)).map (BitVec.setWidth 8)
  have hgotten : gotten .byte .big (b.signExtend 64) = b.setWidth 64 := by
    have hlow : (b.signExtend 64).setWidth 8 = b := setWidth_signExtend (by omega) b
    rw [gotten, if_neg (by rintro (h | h) <;> cases h)]
    exact congrArg (BitVec.setWidth 64) hlow
  rw [hgotten, setWidth_toSigned] at hread
  exact hread

/-- Bytes that are transformed one by one are got back one by one. -/
private theorem reads_transformed (transformation : DataTransformation) (bytes : List Byte) :
    ∃ written, bytes.mapM (putByte transformation) = some written ∧
      Reads (Reader.times bytes.length (getByte transformation)) written.flatten bytes := by
  obtain ⟨written, hput, hread⟩ := Reads.times bytes fun b _ => reads_getByte transformation b
  rw [List.map_id'] at hread
  exact ⟨written, hput, hread⟩

private theorem reads_plain (bytes : List Byte) :
    Reads (Reader.times bytes.length Reader.byte) bytes bytes := by
  induction bytes with
  | nil => exact Reads.pure []
  | cons b bytes ih => exact Reads.bind (Reads.byte b) (ih.map (List.cons b))

/-- Backwards every array comes back. -/
theorem reads_getBytesReverse (transformation : DataTransformation) (bytes : List Byte) :
    ∃ written, putBytesReverse transformation bytes = some written ∧
      Reads (getBytesReverse transformation bytes.length) written bytes := by
  unfold putBytesReverse getBytesReverse
  rw [← bytes.length_reverse]
  split_ifs with h
  · have hread := (reads_plain bytes.reverse).map List.reverse
    rw [List.reverse_reverse] at hread
    exact ⟨_, rfl, hread⟩
  · obtain ⟨written, hput, hread⟩ := reads_transformed transformation bytes.reverse
    have hback := hread.map List.reverse
    rw [List.reverse_reverse] at hback
    rw [hput]
    exact ⟨_, rfl, hback⟩

/-- Forwards an array that is not transformed comes back reversed. -/
theorem getBytes_roundTrips_iff (transformation : DataTransformation) (bytes : List Byte) :
    BytesReturn transformation bytes ↔ transformation ≠ .none ∨ bytes.reverse = bytes := by
  unfold BytesReturn
  rw [and_iff_left (reads_getBytesReverse transformation bytes)]
  unfold ByteAccess.putBytes ByteAccess.getBytes
  split_ifs with h
  · have hread : Reads (getBytesReverse .none bytes.length) bytes bytes.reverse :=
      (reads_plain bytes).map List.reverse
    constructor
    · rintro ⟨written, hput, hback⟩
      cases hput
      exact .inr (hread.unique hback)
    · rintro (hne | heq)
      · exact absurd h hne
      · rw [heq] at hread
        exact ⟨bytes, rfl, hread⟩
  · obtain ⟨written, hput, hread⟩ := reads_transformed transformation bytes
    rw [hput]
    exact iff_of_true ⟨_, rfl, hread⟩ (.inl h)

theorem not_roundTrips_pair : ¬ BytesReturn .none [1, 2] := by
  rintro ⟨⟨written, hput, hread⟩, -⟩
  cases hput
  have hback := hread.run
  revert hback
  decide

end Arrays

end OpenNXT.Net.Buf
