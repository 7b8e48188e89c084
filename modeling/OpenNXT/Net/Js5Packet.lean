import OpenNXT.Buffer.Returns
import OpenNXT.Net.Login.LoginPacket

/-! The packets of a JS5 client, and the bytes it writes for them. -/
namespace OpenNXT.Net
open Buffer Ext

inductive Js5Packet
  | connectionInitialized (value build : Word)
  | loggedIn (build : Word)
  | loggedOut (build : Word)
  | requestTermination (build : Word)
  | requestFile (priority : Bool) (index archive build : Word) (nxt : Bool)
  | handshake (major minor : Word) (token : List Char) (language : Word)
  | xorRequest (xor : Word)
  deriving DecidableEq

namespace Js5PacketCodec

namespace ConnectionInitialized

def opcode : Word := 6

def encode (value build : Word) : List Byte :=
  writeMedium value ++ (writeShort 0 ++ (writeShort build ++ writeShort 0))

def decode : Reader Js5Packet := do
  let magic ← readMedium
  let _ ← Reader.bytes 2
  let build ← readUnsignedShort
  let _ ← Reader.bytes 2
  return .connectionInitialized magic build

end ConnectionInitialized

/-- A build among eight bytes: where the user is, or the end of the connection. -/
def encodeBuild (build : Word) : List Byte :=
  writeMedium 5 ++ (writeShort 0 ++ (writeShort build ++ writeShort 0))

def decodeBuild (packet : Word → Js5Packet) : Reader Js5Packet := do
  let _ ← Reader.bytes 5
  let build ← readUnsignedShort
  let _ ← Reader.bytes 2
  return packet build

namespace LoggedIn

def opcode : Word := 2

def encode (build : Word) : List Byte := encodeBuild build

def decode : Reader Js5Packet := decodeBuild .loggedIn

end LoggedIn

namespace LoggedOut

def opcode : Word := 3

def encode (build : Word) : List Byte := encodeBuild build

def decode : Reader Js5Packet := decodeBuild .loggedOut

end LoggedOut

namespace RequestTermination

def opcode : Word := 7

def decode : Reader Js5Packet := decodeBuild .requestTermination

end RequestTermination

namespace RequestFile

def opcodeNxtLow : Word := 32
def opcodeLow : Word := 0
def opcodeHigh : Word := 1
def opcodeNxtHigh1 : Word := 17
def opcodeNxtHigh2 : Word := 33

def opcodes : List Word := [opcodeLow, opcodeHigh, opcodeNxtLow, opcodeNxtHigh1, opcodeNxtHigh2]

def encode (index archive build : Word) : List Byte :=
  writeByte index ++ (writeInt archive ++ (writeShort build ++ writeShort 0))

/-- The opcode says the priority and whether the request is of the new kind. -/
def decode (opcode : Word) : Reader Js5Packet := do
  let index ← readUnsignedByte
  let archive ← readInt
  let build ← readUnsignedShort
  let _ ← Reader.bytes 2
  let priority := opcode = opcodeHigh ∨ opcode = opcodeNxtHigh1 ∨ opcode = opcodeNxtHigh2
  let nxt := opcode = opcodeNxtLow ∨ opcode = opcodeNxtHigh1 ∨ opcode = opcodeNxtHigh2
  return .requestFile (decide priority) index archive build (decide nxt)

end RequestFile

namespace Handshake

/-- The size counts two builds, the token, its zero byte and the language. -/
def encode (major minor : Word) (token : List Char) (language : Word) : List Byte :=
  let tokenBytes := Windows1252.encodeAscii token
  writeByte (BitVec.ofNat 32 (4 + 4 + tokenBytes.length + 1 + 1)) ++
    (writeInt major ++ (writeInt minor ++ (tokenBytes ++ (writeByte 0 ++ writeByte language))))

end Handshake

namespace XorRequest

def opcode : Word := 4

def decode : Reader Js5Packet := do
  let xor ← readUnsignedByte
  let _ ← Reader.bytes 8
  return .xorRequest xor

end XorRequest

end Js5PacketCodec

namespace HandshakeType

def js5 : Word := 15

end HandshakeType

namespace Js5ClientEncoder
open Js5PacketCodec

/-- `none` is an exception, a packet that no client sends. -/
def encode : Js5Packet → Option (List Byte)
  | .handshake major minor token language =>
    some (writeByte HandshakeType.js5 ++ Handshake.encode major minor token language)
  | .requestFile priority index archive build nxt =>
    let opcode : Word := if nxt then if priority then 33 else 32 else if priority then 1 else 0
    some (writeByte opcode ++ RequestFile.encode index archive build)
  | .connectionInitialized value build =>
    some (writeByte 6 ++ ConnectionInitialized.encode value build)
  | .loggedIn build => some (writeByte 2 ++ LoggedIn.encode build)
  | .loggedOut build => some (writeByte 3 ++ LoggedOut.encode build)
  | .requestTermination _ => none
  | .xorRequest _ => none

/-- The stream of the packets. -/
def encodeAll (packets : List Js5Packet) : Option (List Byte) := do
  let encoded ← packets.mapM encode
  return encoded.flatten

theorem encodeAll_cons {p : Js5Packet} {ps : List Js5Packet} {bytes rest : List Byte}
    (hp : encode p = some bytes) (hps : encodeAll ps = some rest) :
    encodeAll (p :: ps) = some (bytes ++ rest) := by
  unfold encodeAll at hps ⊢
  obtain ⟨encoded, hencoded, hrest⟩ := Option.bind_eq_some_iff.mp hps
  cases hrest
  rw [List.mapM_cons, hp, hencoded]
  rfl

end Js5ClientEncoder

section Reads
open Js5PacketCodec

theorem reads_connectionInitialized {value build : Word}
    (hvalue : -2 ^ 23 ≤ value.toInt ∧ value.toInt < 2 ^ 23) (hbuild : build.toNat < 2 ^ 16) :
    Reads ConnectionInitialized.decode (ConnectionInitialized.encode value build)
      (.connectionInitialized value build) :=
  (Buffer.reads_medium hvalue).bind <| (Reads.skip (length_writeShort 0)).bind <|
    (reads_unsignedShort hbuild).bind <|
      (Reads.skip (length_writeShort 0)).map fun _ => Js5Packet.connectionInitialized value build

theorem reads_build (packet : Word → Js5Packet) {build : Word} (hbuild : build.toNat < 2 ^ 16) :
    Reads (decodeBuild packet) (encodeBuild build) (packet build) := by
  have hfront : (writeMedium 5 ++ writeShort 0).length = 5 := by simp
  have hread : Reads (decodeBuild packet)
      ((writeMedium 5 ++ writeShort 0) ++ (writeShort build ++ writeShort 0)) (packet build) :=
    (Reads.skip hfront).bind <| (reads_unsignedShort hbuild).bind <|
      (Reads.skip (length_writeShort 0)).map fun _ => packet build
  rwa [List.append_assoc] at hread

theorem reads_requestFile (opcode archive : Word) {index build : Word} (hindex : index.toNat < 2 ^ 8)
    (hbuild : build.toNat < 2 ^ 16) :
    Reads (RequestFile.decode opcode) (RequestFile.encode index archive build)
      (.requestFile
        (decide (opcode = RequestFile.opcodeHigh ∨ opcode = RequestFile.opcodeNxtHigh1 ∨
          opcode = RequestFile.opcodeNxtHigh2)) index archive build
        (decide (opcode = RequestFile.opcodeNxtLow ∨ opcode = RequestFile.opcodeNxtHigh1 ∨
          opcode = RequestFile.opcodeNxtHigh2))) :=
  (reads_unsignedByte hindex).bind <| (reads_int archive).bind <|
    (reads_unsignedShort hbuild).bind <|
      (Reads.skip (length_writeShort 0)).map fun _ => Js5Packet.requestFile _ index archive build _

end Reads

section Shortens
open Js5PacketCodec

theorem shortens_connectionInitialized : Shortens ConnectionInitialized.decode :=
  ((Shortens.word 3).bind fun _ => .pure _).bind fun _ => (Shortens.bytes 2).bind fun _ =>
    (Shortens.unsigned 2).bind fun _ => (Shortens.bytes 2).bind fun _ => .pure _

theorem shortens_build (packet : Word → Js5Packet) : Shortens (decodeBuild packet) :=
  (Shortens.bytes 5).bind fun _ => (Shortens.unsigned 2).bind fun _ =>
    (Shortens.bytes 2).bind fun _ => .pure _

theorem shortens_requestFile (opcode : Word) : Shortens (RequestFile.decode opcode) :=
  (Shortens.unsigned 1).bind fun _ => (Shortens.word 4).bind fun _ =>
    (Shortens.unsigned 2).bind fun _ => (Shortens.bytes 2).bind fun _ => .pure _

theorem shortens_xorRequest : Shortens XorRequest.decode :=
  (Shortens.unsigned 1).bind fun _ => (Shortens.bytes 8).bind fun _ => .pure _

end Shortens

end OpenNXT.Net
