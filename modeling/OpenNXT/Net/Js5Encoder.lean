import OpenNXT.Filesystem.Container

/-! JS5 responses on the wire: blocks of at most 102400 bytes, each behind a five-byte header. -/
namespace OpenNXT.Net
open Buffer

/-- What a block carries beside its header. -/
def maxResponseBlockPayloadBytes : ℕ := 102400 - 5

/-- `writeByte(value xor xor)` -/
def xorByte (xor : Word) (b : Byte) : Byte := (b.setWidth 32 ^^^ xor).setWidth 8

def blockHeader (xor : Word) (priority : Bool) (index : Byte) (archive : Word) : List Byte :=
  let size := if priority then archive else archive ||| 0x80000000
  (index :: putInt size).map (xorByte xor)

/-- The length a container's header announces, as an `Int`. `none` is an index exception. -/
def js5ResponseLength : List Byte → Option Word
  | b :: b₁ :: b₂ :: b₃ :: b₄ :: _ =>
    some (BitVec.ofNat 32 (ofBytes [b₁, b₂, b₃, b₄]) + 5 + if b = 0 then 0 else 4)
  | _ => none

namespace Js5Encoder

/-- `none` is an exception: the data ends inside a block. -/
def encodeBlocks (xor : Word) (priority : Bool) (index : Byte) (archive : Word)
    (data : List Byte) (remaining : ℤ) : Option (List Byte) :=
  if _h : data = [] ∨ remaining ≤ 0 then some []
  else
    let payloadBytes := min (maxResponseBlockPayloadBytes : ℤ) remaining
    if (data.length : ℤ) < payloadBytes then none
    else do
      let rest ← encodeBlocks xor priority index archive (data.drop payloadBytes.toNat)
        (remaining - payloadBytes)
      return blockHeader xor priority index archive ++
        (data.take payloadBytes.toNat).map (xorByte xor) ++ rest
termination_by data.length
decreasing_by
  have hpos : 0 < payloadBytes := by
    rw [not_or] at _h
    simp only [payloadBytes, maxResponseBlockPayloadBytes]
    omega
  have hdata : 0 < data.length := List.length_pos_iff.mpr (not_or.mp _h).1
  rw [List.length_drop]
  omega

/-- A whole response. -/
def encode (xor : Word) (priority : Bool) (index : Byte) (archive : Word) (data : List Byte) :
    Option (List Byte) := do
  let length ← js5ResponseLength data
  encodeBlocks xor priority index archive data length.toInt

end Js5Encoder

end OpenNXT.Net
