import OpenNXT.Ext.ByteBuf
import OpenNXT.Ext.Xtea
import OpenNXT.Net.PacketFieldDeclaration

/-! The messages of the login protocol. -/
namespace OpenNXT.Net
open Buffer Ext

inductive GenericResponse
  | successfulConnection
  | displayAdvertisement
  | successful
  | invalidUsernameOrPassword
  | disabledAccount
  | loggedIn
  | outOfDate
  | worldFull
  | loginserverOffline
  | loginLimitExceeded
  | badSession
  | loginserverRejected
  | membersRequired
  | incompleteLogin
  | serverUpdating
  | loginAttemptsExceeded
  | insideMembersArea
  | accountLocked
  | fullscreenMembersOnly
  | invalidLoginServer
  | profileTransferring
  | malformedPacket
  | noLoginServerReply
  | failedLoadingProfile
  | invalidLoginServerResponse
  | macBanned
  | serviceUnavailable
  | requirementWorld
  | oldschoolWorldMember
  | invalidDisplayname
  | loginPrevented
  | sessionExpired
  | authenticationOffline
  | accountInaccessible
  | accountNotHtml5
  | instanceInvalid
  | worldMember
  | instanceFull
  | systemUnavailable
  | requirementLocation
  | instanceError
  | emailValidate
  | sessionEnded
  | jagEmailSent
  | jagTooManyAttempts
  | jagAccountNotValidatedEmail
  | jagValidateDevice
  | temporarilyBanned
  | jagAccountNotAuthorized
  | authenticatorCode
  | authenticatorIncorrect
  deriving DecidableEq

namespace GenericResponse

/-- The responses in the order of their declaration, with their ids. -/
def values : List (GenericResponse × Word) :=
  [(successfulConnection, 0), (displayAdvertisement, 1), (successful, 2),
    (invalidUsernameOrPassword, 3), (disabledAccount, 4), (loggedIn, 5), (outOfDate, 6),
    (worldFull, 7), (loginserverOffline, 8), (loginLimitExceeded, 9), (badSession, 10),
    (loginserverRejected, 11), (membersRequired, 12), (incompleteLogin, 13), (serverUpdating, 14),
    (loginAttemptsExceeded, 16), (insideMembersArea, 17), (accountLocked, 18),
    (fullscreenMembersOnly, 19), (invalidLoginServer, 20), (profileTransferring, 21),
    (malformedPacket, 22), (noLoginServerReply, 23), (failedLoadingProfile, 24),
    (invalidLoginServerResponse, 25), (macBanned, 26), (serviceUnavailable, 27),
    (requirementWorld, 29), (oldschoolWorldMember, 30), (invalidDisplayname, 31),
    (loginPrevented, 32), (sessionExpired, 35), (authenticationOffline, 36),
    (accountInaccessible, 37), (accountNotHtml5, 38), (instanceInvalid, 39), (worldMember, 40),
    (instanceFull, 41), (systemUnavailable, 44), (requirementLocation, 45), (instanceError, 46),
    (emailValidate, 47), (sessionEnded, 48), (jagEmailSent, 49), (jagTooManyAttempts, 50),
    (jagAccountNotValidatedEmail, 51), (jagValidateDevice, 52), (temporarilyBanned, 53),
    (jagAccountNotAuthorized, 55), (authenticatorCode, 56), (authenticatorIncorrect, 57)]

def fromId (id : Word) : Option GenericResponse :=
  (values.find? fun value => value.2 = id).map Prod.fst

def id (response : GenericResponse) : Word :=
  ((values.find? fun value => value.1 = response).map Prod.snd).getD 0

end GenericResponse

inductive LoginType
  | gameAlt
  | game
  | lobby
  | gameloginContinue
  deriving DecidableEq

namespace LoginType

def id : LoginType → Word
  | gameAlt => 3
  | game => 16
  | lobby => 19
  | gameloginContinue => 26

def values : List LoginType := [gameAlt, game, lobby, gameloginContinue]

def fromId (id : Word) : Option LoginType := values.find? fun type => type.id = id

end LoginType

structure Build where
  major : Word
  minor : Word

def readBuild : Reader Build := do
  let major ← readInt
  let minor ← readInt
  return ⟨major, minor⟩

namespace LoginRSAHeader

structure Fresh where
  seeds : Seeds
  uniqueId : Long
  weirdThingId : Word
  weirdThingValue : Word
  thatBoolean : Bool
  password : List Char
  someLong : Long
  randClient : Long

structure Reconnecting where
  seeds : Seeds
  uniqueId : Long
  oldSeeds : Seeds

end LoginRSAHeader

inductive LoginRSAHeader
  | fresh (header : LoginRSAHeader.Fresh)
  | reconnecting (header : LoginRSAHeader.Reconnecting)

namespace LoginRSAHeader

def seeds : LoginRSAHeader → Seeds
  | fresh header => header.seeds
  | reconnecting header => header.seeds

def uniqueId : LoginRSAHeader → Long
  | fresh header => header.uniqueId
  | reconnecting header => header.uniqueId

end LoginRSAHeader

/-- The fields of a lobby and of a game login request. -/
structure LoginRequest where
  build : Build
  header : LoginRSAHeader
  username : List Char
  password : List Char
  remaining : List Byte

structure LobbyLoginResponse where
  byte0 : Word
  rights : Word
  byte2 : Word
  byte3 : Word
  medium4 : Word
  byte5 : Word
  byte6 : Word
  byte7 : Word
  long8 : Long
  int9 : Word
  byte10 : Word
  byte11 : Word
  int12 : Word
  int13 : Word
  short14 : Word
  short15 : Word
  short16 : Word
  ip : Word
  byte17 : Word
  short18 : Word
  short19 : Word
  byte20 : Word
  username : List Char
  byte22 : Word
  int23 : Word
  short24 : Word
  defaultWorld : List Char
  defaultWorldPort1 : Word
  defaultWorldPort2 : Word

structure GameLoginResponse where
  byte0 : Word
  rights : Word
  byte2 : Word
  byte3 : Word
  byte4 : Word
  byte5 : Word
  byte6 : Word
  playerIndex : Word
  byte8 : Word
  medium9 : Word
  isMember : Word
  username : List Char
  short12 : Word
  int13 : Word

/-- A map whose entries come in the order of its iteration. -/
structure VarcMap where
  entries : List (Word × FieldValue)
  nodup : (entries.map Prod.fst).Nodup

namespace VarcMap

def empty : VarcMap := ⟨[], List.nodup_nil⟩

def put (varcs : VarcMap) (k : Word) (v : FieldValue) : VarcMap where
  entries := varcs.entries.filter (fun entry => entry.1 ≠ k) ++ [(k, v)]
  nodup := by
    rw [List.map_append, List.nodup_append]
    refine ⟨varcs.nodup.sublist (List.filter_sublist.map _), List.pairwise_singleton _ _, ?_⟩
    intro j hj k' hk' hjk
    obtain ⟨entry, hentry, rfl⟩ := List.mem_map.mp hj
    have hne := (List.mem_filter.mp hentry).2
    rw [List.mem_singleton.mp hk'] at hjk
    simp [hjk] at hne

end VarcMap

structure ServerpermVarcChunk where
  finished : Bool
  varcs : VarcMap

namespace LobbyLoginResponse

/-- The ranges of the fields on the wire, and strings that a zero byte may end. -/
structure InRange (msg : LobbyLoginResponse) : Prop where
  bytes : ∀ v ∈ [msg.byte0, msg.rights, msg.byte2, msg.byte3, msg.byte5, msg.byte6, msg.byte7,
    msg.byte10, msg.byte11, msg.byte17, msg.byte20, msg.byte22], v.toNat < 2 ^ 8
  shorts : ∀ v ∈ [msg.short14, msg.short15, msg.short16, msg.short18, msg.short19, msg.short24,
    msg.defaultWorldPort1, msg.defaultWorldPort2], v.toNat < 2 ^ 16
  medium4 : msg.medium4.toNat < 2 ^ 24
  username : '\x00' ∉ msg.username
  defaultWorld : '\x00' ∉ msg.defaultWorld

end LobbyLoginResponse

namespace GameLoginResponse

structure InRange (msg : GameLoginResponse) : Prop where
  bytes : ∀ v ∈ [msg.byte0, msg.rights, msg.byte2, msg.byte3, msg.byte4, msg.byte5, msg.byte6,
    msg.byte8, msg.isMember], v.toNat < 2 ^ 8
  playerIndex : msg.playerIndex.toNat < 2 ^ 16
  medium9 : -2 ^ 23 ≤ msg.medium9.toInt ∧ msg.medium9.toInt < 2 ^ 23
  short12 : msg.short12.toNat < 2 ^ 16
  username : '\x00' ∉ msg.username

end GameLoginResponse

inductive LoginPacket
  | sendUniqueId (id : Long)
  | lobbyLoginRequest (request : LoginRequest)
  | gameLoginRequest (request : LoginRequest)
  | gameLoginResponse (response : GameLoginResponse)
  | lobbyLoginResponse (response : LobbyLoginResponse)
  | loginResponse (code : GenericResponse)
  | serverpermVarcChunk (chunk : ServerpermVarcChunk)

end OpenNXT.Net
