import OpenNXT.Net.Login.LoginRSAHeader

/-! What the login encoder writes: requests in front of a short length, responses in front of a one-byte
length, permanent variables in front of a short length. -/
namespace OpenNXT.Net
open Buffer Ext

namespace LobbyLoginResponse

def payload (msg : LobbyLoginResponse) : List Byte :=
  writeByte msg.byte0 ++ (writeByte msg.rights ++ (writeByte msg.byte2 ++ (writeByte msg.byte3 ++
  (writeMedium msg.medium4 ++ (writeByte msg.byte5 ++ (writeByte msg.byte6 ++
  (writeByte msg.byte7 ++ (writeLong msg.long8 ++ (writeInt msg.int9 ++ (writeByte msg.byte10 ++
  (writeByte msg.byte11 ++ (writeInt msg.int12 ++ (writeInt msg.int13 ++ (writeShort msg.short14 ++
  (writeShort msg.short15 ++ (writeShort msg.short16 ++ (writeInt msg.ip ++ (writeByte msg.byte17 ++
  (writeShort msg.short18 ++ (writeShort msg.short19 ++ (writeByte msg.byte20 ++
  (writeNullCircumfixedString msg.username ++ (writeByte msg.byte22 ++ (writeInt msg.int23 ++
  (writeShort msg.short24 ++ (writeNullCircumfixedString msg.defaultWorld ++
  (writeShort msg.defaultWorldPort1 ++ writeShort msg.defaultWorldPort2)))))))))))))))))))))))))))

end LobbyLoginResponse

namespace GameLoginResponse

def payload (msg : GameLoginResponse) : List Byte :=
  writeByte msg.byte0 ++ (writeByte msg.rights ++ (writeByte msg.byte2 ++ (writeByte msg.byte3 ++
  (writeByte msg.byte4 ++ (writeByte msg.byte5 ++ (writeByte msg.byte6 ++
  (writeShort msg.playerIndex ++ (writeByte msg.byte8 ++ (writeMedium msg.medium9 ++
  (writeByte msg.isMember ++ (writeNullCircumfixedString msg.username ++
  (writeShort msg.short12 ++ writeInt msg.int13))))))))))))

end GameLoginResponse

namespace ServerpermVarcChunk

/-- A value that is not an `Int` is a cast exception. -/
def writeVarc : Word × FieldValue → Option (List Byte)
  | (k, .int v) => some (writeShort k ++ writeInt v)
  | _ => none

def payload (msg : ServerpermVarcChunk) : Option (List Byte) := do
  let varcs ← msg.varcs.entries.mapM writeVarc
  return writeByte (if msg.finished then 1 else 0) ++ varcs.flatten

end ServerpermVarcChunk

namespace LoginEncoder

/-- The length as an `Int`, its low byte written. -/
def byteFramed (payload : List Byte) : List Byte :=
  writeByte (BitVec.ofNat 32 payload.length) ++ payload

def shortFramed (payload : List Byte) : List Byte :=
  writeShort (BitVec.ofNat 32 payload.length) ++ payload

/-- A header that is not fresh is a cast exception. -/
def encodeRequest (type : LoginType) (exponent modulus : ℤ) (msg : LoginRequest) :
    Option (List Byte) :=
  match msg.header with
  | .reconnecting _ => none
  | .fresh header => do
    let block ← LoginRSAHeader.writeLoginHeader type (.fresh header) exponent modulus
    return writeByte type.id ++
      shortFramed (writeInt msg.build.major ++ (writeInt msg.build.minor ++ (block ++ msg.remaining)))

/-- `none` is an exception. -/
def encode (exponent modulus : ℤ) : LoginPacket → Option (List Byte)
  | .loginResponse code => some (writeByte code.id)
  | .sendUniqueId id => some (writeLong id)
  | .lobbyLoginRequest msg => encodeRequest .lobby exponent modulus msg
  | .gameLoginRequest msg => encodeRequest .game exponent modulus msg
  | .lobbyLoginResponse msg => some (byteFramed msg.payload)
  | .gameLoginResponse msg => some (byteFramed msg.payload)
  | .serverpermVarcChunk msg => msg.payload.map shortFramed

end LoginEncoder

end OpenNXT.Net
