import OpenNXT.Net.Channel
import OpenNXT.Net.Opcode

/-! Encoding of game packets. -/
namespace OpenNXT.Net
open Buffer Util

namespace GamePacketEncoder

def mapping (e : Endpoint) : Word → Option Word :=
  if e.channel.side = .client then e.protocol.serverProtSizes else e.protocol.clientProtSizes

def lobbyCompatServerSizeOverride (e : Endpoint) (opcode : Word) : Option Word :=
  if e.build ≠ 947 ∨ e.channel.side ≠ .client ∨ bootstrapStage e.channel ≠ "social-state" then none
  else if opcode = 4 then some 1
  else if opcode = 41 then some 0
  else none

def writeLength (size : Word) (length : ℕ) : List Byte :=
  if size = -1 then [BitVec.ofNat 8 length]
  else if size = -2 then putShort (BitVec.ofNat 16 length)
  else []

/-- The bytes of one message. `none` is a message the encoder does not accept: it writes nothing
and closes the channel. -/
def encode (e : Endpoint) (isaac : ISAACCipher) (msg : OpcodeWithBuffer) :
    Option (List Byte × ISAACCipher) :=
  match mapping e msg.opcode with
  | none => none
  | some mapped =>
    let size := (lobbyCompatServerSizeOverride e msg.opcode).getD mapped
    if size = -1 ∧ 255 ≤ msg.buf.writerIndex then none
    else if size = -2 ∧ 65535 ≤ msg.buf.writerIndex then none
    else if 0 ≤ size.toInt ∧ size.toInt ≠ msg.buf.writerIndex then none
    else
      let (opcode, isaac) := writeOpcode isaac msg.opcode
      some (opcode ++ writeLength size msg.buf.writerIndex ++ msg.buf.readable, isaac)

/-- The messages of a channel, one after the other. -/
def encodeAll (e : Endpoint) : ISAACCipher → List OpcodeWithBuffer →
    Option (List Byte × ISAACCipher)
  | isaac, [] => some ([], isaac)
  | isaac, msg :: msgs => do
    let (bytes, isaac) ← encode e isaac msg
    let (rest, isaac) ← encodeAll e isaac msgs
    return (bytes ++ rest, isaac)

end GamePacketEncoder

end OpenNXT.Net
