import OpenNXT.Buffer.BigEndian

/-! What the game pipeline knows of a channel: the remote side, its bootstrap stage, and the
sizes the protocol gives to opcodes. -/
namespace OpenNXT.Net
open Buffer

inductive Side
  | client
  | server
  deriving DecidableEq

structure ConnectedClient where
  currentBootstrapStage : Option String := none
  lastCompletedBootstrapStage : Option String := none

structure Channel where
  side : Side
  connectedClient : Option ConnectedClient := none

def bootstrapStage (channel : Channel) : String :=
  (channel.connectedClient.bind fun client =>
    client.currentBootstrapStage.or client.lastCompletedBootstrapStage).getD "none"

/-- Opcode sizes: a number of bytes, `-1` for a byte length, `-2` for a short length. -/
structure Protocol where
  clientProtSizes : Word → Option Word
  serverProtSizes : Word → Option Word

/-- One end of a connection. -/
structure Endpoint where
  protocol : Protocol
  channel : Channel
  build : Word

/-- A buffer as far as it is written, and the index of the next byte to read. -/
structure ByteBuf where
  written : List Byte
  readerIndex : ℕ := 0

namespace ByteBuf

def writerIndex (buf : ByteBuf) : ℕ := buf.written.length

def readable (buf : ByteBuf) : List Byte := buf.written.drop buf.readerIndex

end ByteBuf

structure OpcodeWithBuffer where
  opcode : Word
  buf : ByteBuf

end OpenNXT.Net
