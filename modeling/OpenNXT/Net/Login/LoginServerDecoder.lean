import OpenNXT.Decoding.Decoder
import OpenNXT.Net.Login.LoginEncoder

/-! The decoder of login requests. -/
namespace OpenNXT.Net
open Buffer Ext Decoding

structure RsaKeyPair where
  exponent : ℤ
  modulus : ℤ

/-- What a lobby login left for the game login of the same host. -/
structure LobbySnapshot where
  build : Build
  username : List Char
  password : List Char
  remaining : List Byte

/-- The attributes of the channel that the decoder uses, and what is recalled for its remote
address. -/
structure LoginChannel where
  loginUniqueId : Option Long
  loginType : Option LoginType := none
  loginUsername : Option (List Char) := none
  passthroughChannel : Bool := false
  snapshot : Option LobbySnapshot := none
  isOpen : Bool := true

inductive LoginEvent
  /-- Handed to the next handler. -/
  | packet (packet : LoginPacket)
  /-- Written before the channel is closed. -/
  | response (code : GenericResponse)
  /-- The player is added to the world. -/
  | addPlayer (username : List Char)

namespace LoginServerDecoder

def reject (s : LoginChannel) (code : GenericResponse) : LoginChannel × List LoginEvent :=
  ({ s with isOpen := false }, [.response code])

/-- One byte is skipped in front of the name. -/
def readName : Reader (List Char) := do
  let _ ← Reader.bytes 1
  readString

/-- The name is known before the unique id is compared. -/
def decodeFresh (type : LoginType) (s : LoginChannel) (build : Build)
    (header : LoginRSAHeader.Fresh) (original : List Byte) : LoginChannel × List LoginEvent :=
  match readName original with
  | none => reject s .malformedPacket
  | some (name, _) =>
    if s.loginUniqueId ≠ some header.uniqueId then
      reject { s with loginUsername := some name } .malformedPacket
    else
      match type with
      | .lobby => ({ s with loginUsername := some name },
          [.packet (.lobbyLoginRequest ⟨build, .fresh header, name, header.password, original⟩)])
      | .game => ({ s with loginUsername := some name },
          [.packet (.gameLoginRequest ⟨build, .fresh header, name, header.password, original⟩)])
      | .gameAlt => ({ s with loginUsername := some name },
          [.packet (.gameLoginRequest ⟨build, .fresh header, name, header.password, original⟩)])
      | .gameloginContinue => ({ s with loginUsername := some name }, [])

/-- The rest of a reconnecting login is taken from the lobby. -/
def decodeRecalled (s : LoginChannel) (snapshot : LobbySnapshot) (header : LoginRSAHeader) :
    LoginChannel × List LoginEvent :=
  if s.loginUniqueId ≠ some header.uniqueId then reject s .malformedPacket
  else ({ s with loginUsername := some snapshot.username },
    [.packet (.gameLoginRequest
      ⟨snapshot.build, header, snapshot.username, snapshot.password, snapshot.remaining⟩)])

def readRequest (rsaPair : RsaKeyPair) (type : LoginType) : Reader (Build × LoginRSAHeader) := do
  let build ← readBuild
  let header ← LoginRSAHeader.readLoginHeader type rsaPair.exponent rsaPair.modulus
  return (build, header)

/-- Every exception is answered with a malformed packet. -/
def decodePayload (rsaPair : RsaKeyPair) (type : LoginType) (s : LoginChannel)
    (payload : List Byte) : LoginChannel × List LoginEvent :=
  match readRequest rsaPair type payload with
  | none => reject s .malformedPacket
  | some ((build, .fresh header), rest) =>
    decodeFresh type s build header (decipherXtea header.seeds rest)
  | some ((_, .reconnecting header), _) =>
    if type = .lobby then reject s .malformedPacket
    else
      match s.snapshot with
      | none => reject s .loginserverRejected
      | some snapshot => decodeRecalled s snapshot (.reconnecting header)

/-- The header of a game login of the other kind, put behind a flag and a length of its own. -/
def syntheticHeader (rsaPair : RsaKeyPair) (reconnectFlag rsaSize : Word) (rest : List Byte) :
    Option LoginRSAHeader :=
  if rest.length < rsaSize.toNat then none
  else (LoginRSAHeader.readLoginHeader .gameAlt rsaPair.exponent rsaPair.modulus
    (writeByte reconnectFlag ++ (writeShort rsaSize ++ rest.take rsaSize.toNat))).map Prod.fst

/-- A block that cannot be read behind two bytes of length is tried behind three. -/
def readGameAlt (rsaPair : RsaKeyPair) (payload : List Byte) : Option LoginRSAHeader := do
  let (reconnectFlag, sized) ← readUnsignedByte payload
  let (_, unsized) ← readUnsignedByte sized
  let (rsaSize, rest) ← readUnsignedShort unsized
  let (fallbackRsaSize, _) ← readUnsignedMedium sized
  syntheticHeader rsaPair reconnectFlag rsaSize rest <|>
    syntheticHeader rsaPair reconnectFlag fallbackRsaSize rest

def decodeGameAltPayload (rsaPair : RsaKeyPair) (s : LoginChannel) (payload : List Byte) :
    LoginChannel × List LoginEvent :=
  match readGameAlt rsaPair payload, s.snapshot with
  | some header, some snapshot => decodeRecalled s snapshot header
  | _, _ => reject s .malformedPacket

/-- A payload of the announced length, or else the reader index is reset. -/
def decodeFramed (s : LoginChannel) (buf : List Byte) (type : LoginType) (framed : List Byte)
    (payload : LoginChannel → List Byte → LoginChannel × List LoginEvent) :
    Decoded LoginChannel Byte LoginEvent :=
  match readUnsignedShort framed with
  | none => { state := s, unread := buf }
  | some (length, rest) =>
    if rest.length < length.toNat then { state := s, unread := buf }
    else
      let result := payload { s with loginType := some type } (rest.take length.toNat)
      { state := result.1, unread := rest.drop length.toNat, out := result.2 }

def decode (rsaPair : RsaKeyPair) (s : LoginChannel) (buf : List Byte) :
    Decoded LoginChannel Byte LoginEvent :=
  match readUnsignedByte buf with
  | none => { state := s, unread := buf, thrown := true }
  | some (id, rest) =>
    match LoginType.fromId id with
    | none => { state := { s with isOpen := false }, unread := [] }
    | some .gameloginContinue =>
      if s.loginType.isNone then { state := { s with isOpen := false }, unread := [] }
      else if s.passthroughChannel then { state := s, unread := rest }
      else
        match s.loginUsername with
        -- A player is not made without a name.
        | none => { state := s, unread := rest, thrown := true }
        | some username => { state := s, unread := rest, out := [.addPlayer username] }
    | some .gameAlt =>
      match readUnsignedByte rest with
      | none => { state := s, unread := buf }
      | some (_, framed) => decodeFramed s buf .gameAlt framed (decodeGameAltPayload rsaPair)
    | some .lobby => decodeFramed s buf .lobby rest (decodePayload rsaPair .lobby)
    | some .game => decodeFramed s buf .game rest (decodePayload rsaPair .game)

private theorem length_decodeFramed (s : LoginChannel) {buf framed : List Byte} (type : LoginType)
    (payload : LoginChannel → List Byte → LoginChannel × List LoginEvent)
    (h : framed.length ≤ buf.length) :
    (decodeFramed s buf type framed payload).unread.length ≤ buf.length := by
  unfold decodeFramed
  split
  · exact le_rfl
  · rename_i length rest hread
    have hlen := length_readUnsigned hread
    split_ifs
    · exact le_rfl
    · show (rest.drop length.toNat).length ≤ buf.length
      rw [List.length_drop]
      omega

theorem length_decode (rsaPair : RsaKeyPair) (s : LoginChannel) (buf : List Byte) :
    (decode rsaPair s buf).unread.length ≤ buf.length := by
  unfold decode
  split
  · exact le_rfl
  · rename_i id rest hread
    have hlen := length_readUnsigned hread
    split
    · exact Nat.zero_le _
    · have hrest : rest.length ≤ buf.length := by omega
      split
      · exact Nat.zero_le _
      · split
        · exact hrest
        · split
          · exact hrest
          · exact hrest
    · split
      · exact le_rfl
      · rename_i framed hframed
        have hflen := length_readUnsigned hframed
        exact length_decodeFramed s _ _ (by omega)
    · exact length_decodeFramed s _ _ (by omega)
    · exact length_decodeFramed s _ _ (by omega)

end LoginServerDecoder

/-- What `decode` throws is left to the pipeline. -/
def loginServerDecoder (rsaPair : RsaKeyPair) : Decoder LoginChannel Byte LoginEvent where
  decode := LoginServerDecoder.decode rsaPair
  exceptionCaught s := s
  isOpen := LoginChannel.isOpen
  decode_le := LoginServerDecoder.length_decode rsaPair

section Framing
open LoginServerDecoder LoginEncoder

private theorem read_length {payload : List Byte} (h : payload.length < 2 ^ 16) :
    (BitVec.ofNat 32 payload.length).toNat = payload.length ∧
      Reads readUnsignedShort (writeShort (BitVec.ofNat 32 payload.length))
        (BitVec.ofNat 32 payload.length) := by
  have hlen : (BitVec.ofNat 32 payload.length).toNat = payload.length := by
    rw [BitVec.toNat_ofNat]
    exact Nat.mod_eq_of_lt (by omega)
  refine ⟨hlen, reads_unsignedShort ?_⟩
  rwa [hlen]

private theorem decodeFramed_append {payload : List Byte} (h : payload.length < 2 ^ 16)
    (s : LoginChannel) (buf rest : List Byte) (type : LoginType)
    (f : LoginChannel → List Byte → LoginChannel × List LoginEvent) :
    decodeFramed s buf type (shortFramed payload ++ rest) f =
      { state := (f { s with loginType := some type } payload).1, unread := rest,
        out := (f { s with loginType := some type } payload).2 } := by
  obtain ⟨hlen, hread⟩ := read_length h
  rw [decodeFramed, shortFramed, List.append_assoc, hread]
  dsimp only
  rw [hlen, if_neg (by simp), List.take_left, List.drop_left]

/-- A packet is read up to its end. -/
theorem decode_lobby_append {payload : List Byte} (h : payload.length < 2 ^ 16)
    (rsaPair : RsaKeyPair) (s : LoginChannel) (rest : List Byte) :
    decode rsaPair s (writeByte LoginType.lobby.id ++ (shortFramed payload ++ rest)) =
      { state := (decodePayload rsaPair .lobby { s with loginType := some .lobby } payload).1,
        unread := rest,
        out := (decodePayload rsaPair .lobby { s with loginType := some .lobby } payload).2 } := by
  have hid : readUnsignedByte (writeByte LoginType.lobby.id ++ (shortFramed payload ++ rest)) =
      some (LoginType.lobby.id, shortFramed payload ++ rest) := reads_unsignedByte (by decide) _
  rw [decode, hid]
  exact decodeFramed_append h s _ rest .lobby (decodePayload rsaPair .lobby)

end Framing

section RoundTrip
open LoginServerDecoder LoginEncoder LoginRSAHeader

variable {exponent decryption modulus : ℕ}

/-- The request as it is handed on. -/
def handedOn (type : LoginType) (request : LoginRequest) : LoginPacket :=
  if type = .lobby then .lobbyLoginRequest request else .gameLoginRequest request

private theorem readRequest_block {type : LoginType} {header : Fresh} (build : Build)
    {block : List Byte}
    (hblock : Reads (readLoginHeader type decryption modulus) block (.fresh header))
    (rest : List Byte) :
    readRequest ⟨decryption, modulus⟩ type
        (writeInt build.major ++ (writeInt build.minor ++ (block ++ rest))) =
      some ((build, .fresh header), rest) := by
  have hbuild : Reads readBuild (writeInt build.major ++ writeInt build.minor) build :=
    Reads.bind (reads_int build.major) ((reads_int build.minor).map (Build.mk build.major))
  have hrequest : Reads (readRequest ⟨decryption, modulus⟩ type)
      ((writeInt build.major ++ writeInt build.minor) ++ block) (build, .fresh header) :=
    Reads.bind hbuild (hblock.map (Prod.mk build))
  have hread := hrequest rest
  rwa [List.append_assoc, List.append_assoc] at hread

private theorem encode_handedOn {type : LoginType} (htype : type = .lobby ∨ type = .game)
    {request : LoginRequest} {header : Fresh} (hheader : request.header = .fresh header)
    {block : List Byte} (hblock : writeLoginHeader type (.fresh header) exponent modulus = some block) :
    encode exponent modulus (handedOn type request) =
      some (writeByte type.id ++ shortFramed (writeInt request.build.major ++
        (writeInt request.build.minor ++ (block ++ request.remaining)))) := by
  have hrequest : encode exponent modulus (handedOn type request) =
      encodeRequest type exponent modulus request := by rcases htype with rfl | rfl <;> rfl
  rw [hrequest, encodeRequest, hheader]
  dsimp only
  rw [hblock]
  rfl

/-- A lobby login of a player called `a`. -/
def lobbyHeader : Fresh where
  seeds := #v[1, 2, 3, 4]
  uniqueId := 77
  weirdThingId := 2
  weirdThingValue := -1
  thatBoolean := true
  password := ['p', 'w']
  someLong := 5
  randClient := 9

def lobbyBody : List Byte := [1, 0x61, 0, 2, 3, 4, 5, 6, 7, 8]

def lobbyRequest : LoginRequest where
  build := ⟨919, 1⟩
  header := .fresh lobbyHeader
  username := ['a']
  password := ['p', 'w']
  remaining := encipherXtea lobbyHeader.seeds lobbyBody

private theorem lobbyHeader_valid : lobbyHeader.Valid where
  thing := Or.inr (Or.inl rfl)
  password := by
    intro c hc
    rcases List.mem_pair.mp hc with rfl | rfl
    · exact ⟨Windows1252.encodable_of_decodeByte 0x70 (by decide) (by decide), by decide⟩
    · exact ⟨Windows1252.encodable_of_decodeByte 0x77 (by decide) (by decide), by decide⟩

private theorem lobbyBlock_lt {block : List Byte} (h : lobbyHeader.block = some block) :
    ofBytes block < keyModulus := by
  have hlen : block.length = 50 := length_block h
  have hlt := ofBytes_lt block
  have hmodulus : 256 ^ 50 ≤ keyModulus := by decide +kernel
  rw [hlen] at hlt
  exact hlt.trans_le hmodulus

private theorem lobbyRequest_fits {block bytes : List Byte} (hblock : lobbyHeader.block = some block)
    (h : encode (65537 : ℕ) keyModulus (handedOn .lobby lobbyRequest) = some bytes) :
    bytes.length ≤ 3 + 65535 := by
  obtain ⟨crypted, hcrypted, hlen, -⟩ :=
    reads_loginHeader decrypts .lobby lobbyHeader_valid hblock (lobbyBlock_lt hblock)
  have hsize : keyModulus.size ≤ 2000 := by
    rw [Nat.size_le]
    decide +kernel
  rw [encode_handedOn (Or.inl rfl) rfl hcrypted] at h
  cases h
  have hbody : lobbyRequest.remaining.length = 10 := length_encipherXtea _ _
  simp only [shortFramed, List.length_append, length_writeByte, length_writeShort, length_writeInt,
    hbody]
  omega

/-- The payload of that login under that key. -/
theorem readRequest_lobbyRequest :
    ∃ payload, payload.length < 2 ^ 16 ∧
      encode (65537 : ℕ) keyModulus (handedOn .lobby lobbyRequest) =
        some (writeByte LoginType.lobby.id ++ shortFramed payload) ∧
      readRequest ⟨keyDecryption, keyModulus⟩ .lobby payload =
        some ((⟨919, 1⟩, .fresh lobbyHeader), encipherXtea lobbyHeader.seeds lobbyBody) := by
  obtain ⟨tail, hblock, -⟩ := reads_block lobbyHeader_valid
  obtain ⟨crypted, hcrypted, -, hread⟩ :=
    reads_loginHeader decrypts .lobby lobbyHeader_valid hblock (lobbyBlock_lt hblock)
  have hheader : lobbyRequest.header = .fresh lobbyHeader := rfl
  have hencode := encode_handedOn (Or.inl rfl) hheader hcrypted
  have hfits := lobbyRequest_fits hblock hencode
  simp only [shortFramed, List.length_append, length_writeByte, length_writeShort,
    length_writeInt] at hfits
  refine ⟨_, ?_, hencode, readRequest_block ⟨919, 1⟩ (hread (by omega)) _⟩
  simp only [List.length_append, length_writeInt]
  omega

end RoundTrip

end OpenNXT.Net
