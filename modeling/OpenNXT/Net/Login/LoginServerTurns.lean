import OpenNXT.Net.Login.LoginServerDecoder

/-! What one call of the login decoder does: it refuses, hands on a verified request or adds a
player. -/
namespace OpenNXT.Net
open Buffer Ext Decoding

namespace LoginRSAHeader

/-- The header of a block among the received bytes that decrypts to the magic byte. -/
def Decrypts (rsaPair : RsaKeyPair) (received : List Byte) (header : LoginRSAHeader) : Prop :=
  ∃ raw, raw <:+: received ∧ ∃ block, crypt rsaPair.exponent rsaPair.modulus raw = some block ∧
    ∃ fields, readUnsignedByte block = some (10, fields) ∧
      ∃ reconnecting rest, readFields reconnecting fields = some (header, rest)

variable {rsaPair : RsaKeyPair} {received : List Byte} {header : LoginRSAHeader}

theorem Decrypts.mono {more : List Byte} (h : Decrypts rsaPair received header)
    (hmore : received <:+: more) : Decrypts rsaPair more header := by
  obtain ⟨raw, hraw, hblock⟩ := h
  exact ⟨raw, hraw.trans hmore, hblock⟩

private theorem decrypts_of_decryptBlock {raw : List Byte} {reconnecting : Bool}
    (h : decryptBlock rsaPair.exponent rsaPair.modulus reconnecting raw = some header)
    (hraw : raw <:+: received) : Decrypts rsaPair received header := by
  obtain ⟨block, hblock, h⟩ := Option.bind_eq_some_iff.mp h
  obtain ⟨⟨_, rest⟩, hread, h⟩ := Option.bind_eq_some_iff.mp h
  cases h
  rw [readBlock, Reader.bind_apply] at hread
  obtain ⟨⟨magic, fields⟩, hmagic, hread⟩ := Option.bind_eq_some_iff.mp hread
  dsimp only at hread
  split_ifs at hread with hten
  · cases hread
  · rw [not_not.mp hten] at hmagic
    exact ⟨raw, hraw, block, hblock, fields, hmagic, reconnecting, rest, hread⟩

/-- The block lies behind the size, and for a game login behind the flag too. -/
theorem decrypts_of_readLoginHeader {type : LoginType} {bs rest : List Byte}
    (h : readLoginHeader type rsaPair.exponent rsaPair.modulus bs = some (header, rest)) :
    Decrypts rsaPair (bs.drop (if hasReconnectByte type then 3 else 2)) header := by
  rw [readLoginHeader, Reader.bind_apply] at h
  obtain ⟨⟨reconnecting, flagged⟩, hflag, h⟩ := Option.bind_eq_some_iff.mp h
  rw [Reader.bind_apply] at h
  obtain ⟨⟨size, sized⟩, hsize, h⟩ := Option.bind_eq_some_iff.mp h
  rw [Reader.bind_apply] at h
  obtain ⟨⟨raw, last⟩, hraw, h⟩ := Option.bind_eq_some_iff.mp h
  obtain ⟨_, hheader, h⟩ := Option.map_eq_some_iff.mp h
  cases h
  apply decrypts_of_decryptBlock hheader
  have htaken : raw = sized.take size.toNat := by
    rw [Reader.bytes] at hraw
    split_ifs at hraw
    cases hraw
    rfl
  have hbehind : sized = bs.drop (if hasReconnectByte type then 3 else 2) := by
    rw [readUnsigned_rest hsize]
    rw [readReconnecting] at hflag
    split_ifs at hflag ⊢ with htype
    · rw [Reader.bind_apply] at hflag
      obtain ⟨⟨flag, _⟩, hread, hflag⟩ := Option.bind_eq_some_iff.mp hflag
      cases hflag
      rw [readUnsigned_rest hread, List.drop_drop]
    · cases hflag
      rfl
  rw [htaken, ← hbehind]
  exact (List.take_prefix ..).isInfix

end LoginRSAHeader

namespace LoginServerDecoder
open LoginRSAHeader

variable {rsaPair : RsaKeyPair}

theorem decrypts_of_readRequest {type : LoginType} {payload rest : List Byte} {build : Build}
    {header : LoginRSAHeader} (h : readRequest rsaPair type payload = some ((build, header), rest)) :
    Decrypts rsaPair payload header := by
  rw [readRequest, Reader.bind_apply] at h
  obtain ⟨⟨_, behind⟩, hbuild, h⟩ := Option.bind_eq_some_iff.mp h
  rw [Reader.bind_apply] at h
  obtain ⟨⟨_, last⟩, hheader, h⟩ := Option.bind_eq_some_iff.mp h
  cases h
  have hsuffix : behind <:+ payload := by
    rw [readBuild, Reader.bind_apply] at hbuild
    obtain ⟨⟨major, bs⟩, hmajor, hbuild⟩ := Option.bind_eq_some_iff.mp hbuild
    rw [Reader.bind_apply] at hbuild
    obtain ⟨⟨minor, bs'⟩, hminor, hbuild⟩ := Option.bind_eq_some_iff.mp hbuild
    cases hbuild
    rw [Reader.word_rest hminor, Reader.word_rest hmajor, List.drop_drop]
    exact List.drop_suffix ..
  exact (decrypts_of_readLoginHeader hheader).mono
    ((List.drop_suffix ..).isInfix.trans hsuffix.isInfix)

private theorem decrypts_of_syntheticHeader {reconnectFlag rsaSize : Word} {rest : List Byte}
    {header : LoginRSAHeader}
    (h : syntheticHeader rsaPair reconnectFlag rsaSize rest = some header) :
    Decrypts rsaPair rest header := by
  rw [syntheticHeader] at h
  split_ifs at h
  obtain ⟨⟨_, last⟩, hread, h⟩ := Option.map_eq_some_iff.mp h
  cases h
  have hdecrypts := decrypts_of_readLoginHeader hread
  have hbehind : (writeByte reconnectFlag ++ (writeShort rsaSize ++ rest.take rsaSize.toNat)).drop 3
      = rest.take rsaSize.toNat := by
    rw [← List.append_assoc]
    exact List.drop_left' (by simp)
  exact hdecrypts.mono (by
    show List.drop 3 _ <:+: rest
    rw [hbehind]
    exact (List.take_prefix ..).isInfix)

theorem decrypts_of_readGameAlt {payload : List Byte} {header : LoginRSAHeader}
    (h : readGameAlt rsaPair payload = some header) : Decrypts rsaPair payload header := by
  obtain ⟨⟨flag, sized⟩, hflag, h⟩ := Option.bind_eq_some_iff.mp h
  obtain ⟨⟨_, unsized⟩, haux, h⟩ := Option.bind_eq_some_iff.mp h
  obtain ⟨⟨rsaSize, rest⟩, hsize, h⟩ := Option.bind_eq_some_iff.mp h
  obtain ⟨⟨fallback, _⟩, -, h⟩ := Option.bind_eq_some_iff.mp h
  have hsuffix : rest <:+ payload := by
    rw [readUnsigned_rest hsize, readUnsigned_rest haux, readUnsigned_rest hflag, List.drop_drop,
      List.drop_drop]
    exact List.drop_suffix ..
  have hdecrypts : Decrypts rsaPair rest header := by
    cases hprimary : syntheticHeader rsaPair flag rsaSize rest with
    | some found =>
      dsimp only at h
      rw [hprimary] at h
      have heq : found = header := Option.some.inj h
      exact decrypts_of_syntheticHeader (heq ▸ hprimary)
    | none =>
      dsimp only at h
      rw [hprimary] at h
      exact decrypts_of_syntheticHeader h
  exact hdecrypts.mono hsuffix.isInfix

/-- A fresh login whose name is read, under a unique id that is not that of the channel. -/
def ImpostorPayload (rsaPair : RsaKeyPair) (type : LoginType) (s : LoginChannel)
    (payload : List Byte) (name : List Char) : Prop :=
  ∃ build header rest body, readRequest rsaPair type payload = some ((build, .fresh header), rest) ∧
    readName (decipherXtea header.seeds rest) = some (name, body) ∧
      s.loginUniqueId ≠ some header.uniqueId

/-- The next packet is such a login. -/
def Impostor (rsaPair : RsaKeyPair) (s : LoginChannel) (buf : List Byte) (name : List Char) : Prop :=
  ∃ id framed, readUnsignedByte buf = some (id, framed) ∧
    ∃ type, LoginType.fromId id = some type ∧ (type = .lobby ∨ type = .game) ∧
      ∃ length rest, readUnsignedShort framed = some (length, rest) ∧ length.toNat ≤ rest.length ∧
        ImpostorPayload rsaPair type s (rest.take length.toNat) name

end LoginServerDecoder

def LoginEvent.Requests (event : LoginEvent) (request : LoginRequest) : Prop :=
  event = .packet (.lobbyLoginRequest request) ∨ event = .packet (.gameLoginRequest request)

namespace LoginServerDecoder
open LoginRSAHeader

/-- The name of the channel after a call, and what the call emits. -/
inductive Turn (rsaPair : RsaKeyPair) (s : LoginChannel) (received : List Byte)
    (impostor : List Char → Prop) : Option (List Char) → List LoginEvent → Prop
  | refused (out : List LoginEvent) (hout : ∀ e ∈ out, ∃ code, e = .response code) :
      Turn rsaPair s received impostor s.loginUsername out
  | accepted (event : LoginEvent) (request : LoginRequest) (hevent : event.Requests request)
      (hdecrypts : Decrypts rsaPair received request.header)
      (hid : s.loginUniqueId = some request.header.uniqueId) :
      Turn rsaPair s received impostor (some request.username) [event]
  | impostor (name : List Char) (code : GenericResponse) (hname : impostor name) :
      Turn rsaPair s received impostor (some name) [.response code]
  | continued (name : List Char) (hname : s.loginUsername = some name) :
      Turn rsaPair s received impostor (some name) [.addPlayer name]

variable {rsaPair : RsaKeyPair} {s : LoginChannel} {received : List Byte}
  {impostor : List Char → Prop} {username : Option (List Char)} {out : List LoginEvent}

private theorem Turn.mono {more : List Byte} {impostor' : List Char → Prop}
    (h : Turn rsaPair s received impostor username out) (hmore : received <:+: more)
    (himpostor : ∀ name, impostor name → impostor' name) :
    Turn rsaPair s more impostor' username out := by
  cases h with
  | refused _ hout => exact .refused out hout
  | accepted event request hevent hdecrypts hid =>
    exact .accepted event request hevent (hdecrypts.mono hmore) hid
  | impostor name code hname => exact .impostor name code (himpostor name hname)
  | continued name hname => exact .continued name hname

theorem Turn.requests (h : Turn rsaPair s received impostor username out) {event : LoginEvent}
    (hevent : event ∈ out) {request : LoginRequest} (hrequest : event.Requests request) :
    Decrypts rsaPair received request.header ∧ s.loginUniqueId = some request.header.uniqueId := by
  cases h with
  | refused _ hout =>
    obtain ⟨code, rfl⟩ := hout event hevent
    obtain h | h := hrequest <;> cases h
  | accepted event' request' hevent' hdecrypts hid =>
    obtain rfl := List.mem_singleton.mp hevent
    have hsame : request = request' := by
      obtain rfl | rfl := hrequest <;> obtain h | h := hevent' <;> cases h <;> rfl
    rw [hsame]
    exact ⟨hdecrypts, hid⟩
  | impostor name code _ =>
    obtain rfl := List.mem_singleton.mp hevent
    obtain h | h := hrequest <;> cases h
  | continued name _ =>
    obtain rfl := List.mem_singleton.mp hevent
    obtain h | h := hrequest <;> cases h

/-- Without an impostor a call keeps the name of the channel or takes that of its request. -/
theorem Turn.requested (h : Turn rsaPair s received impostor username out)
    (himpostor : ∀ name, ¬ impostor name) {name : List Char} (hname : username = some name) :
    s.loginUsername = some name ∨
      ∃ event ∈ out, ∃ request, event.Requests request ∧ request.username = name := by
  cases h with
  | refused _ _ => exact .inl hname
  | accepted event request hevent _ _ =>
    exact .inr ⟨event, List.mem_singleton_self _, request, hevent, Option.some.inj hname⟩
  | impostor other _ hother => exact absurd hother (himpostor other)
  | continued other hother => exact .inl (hother.trans hname)

theorem Turn.addPlayer (h : Turn rsaPair s received impostor username out) {name : List Char}
    (hname : LoginEvent.addPlayer name ∈ out) : s.loginUsername = some name := by
  cases h with
  | refused _ hout =>
    obtain ⟨code, h⟩ := hout _ hname
    cases h
  | accepted event request hevent _ _ =>
    rw [← List.mem_singleton.mp hname] at hevent
    obtain h | h := hevent <;> cases h
  | impostor other code _ => cases List.mem_singleton.mp hname
  | continued other hother =>
    cases List.mem_singleton.mp hname
    exact hother

/-- What a payload does to the channel. -/
private def PayloadTurn (rsaPair : RsaKeyPair) (s : LoginChannel) (payload : List Byte)
    (impostor : List Char → Prop) (result : LoginChannel × List LoginEvent) : Prop :=
  result.1.loginUniqueId = s.loginUniqueId ∧
    Turn rsaPair s payload impostor result.1.loginUsername result.2

private theorem turn_reject (code : GenericResponse) :
    PayloadTurn rsaPair s received impostor (reject s code) := by
  constructor
  · rfl
  · apply Turn.refused
    intro e he
    exact ⟨code, List.mem_singleton.mp he⟩

private theorem turn_decodeRecalled {snapshot : LobbySnapshot} {header : LoginRSAHeader}
    (h : Decrypts rsaPair received header) :
    PayloadTurn rsaPair s received impostor (decodeRecalled s snapshot header) := by
  rw [decodeRecalled]
  split_ifs with hid
  · exact turn_reject _
  · constructor
    · rfl
    · exact .accepted _ ⟨snapshot.build, header, snapshot.username, snapshot.password,
        snapshot.remaining⟩ (.inr rfl) h (not_not.mp hid)

private theorem turn_decodePayload {type : LoginType} (htype : type = .lobby ∨ type = .game)
    (payload : List Byte) :
    PayloadTurn rsaPair s payload (ImpostorPayload rsaPair type s payload)
      (decodePayload rsaPair type s payload) := by
  rw [decodePayload]
  split
  next => exact turn_reject _
  next build header rest hread =>
    have hdecrypts := decrypts_of_readRequest hread
    rw [decodeFresh]
    split
    next => exact turn_reject _
    next name body hname =>
      split_ifs with hid
      · constructor
        · rfl
        · exact .impostor name _ ⟨build, header, rest, body, hread, hname, hid⟩
      · obtain rfl | rfl := htype
        · constructor
          · rfl
          · exact .accepted _ ⟨build, .fresh header, name, header.password, _⟩ (.inl rfl) hdecrypts
              (not_not.mp hid)
        · constructor
          · rfl
          · exact .accepted _ ⟨build, .fresh header, name, header.password, _⟩ (.inr rfl) hdecrypts
              (not_not.mp hid)
  next build header rest hread =>
    split_ifs
    · exact turn_reject _
    · split
      next => exact turn_reject _
      next => exact turn_decodeRecalled (decrypts_of_readRequest hread)

private theorem turn_decodeGameAltPayload (payload : List Byte) :
    PayloadTurn rsaPair s payload impostor (decodeGameAltPayload rsaPair s payload) := by
  rw [decodeGameAltPayload]
  split
  next hread _ => exact turn_decodeRecalled (decrypts_of_readGameAlt hread)
  next => exact turn_reject _

private theorem Turn.of_type {type : Option LoginType}
    (h : Turn rsaPair { s with loginType := type } received impostor username out) :
    Turn rsaPair s received impostor username out := by
  cases h with
  | refused _ hout => exact .refused out hout
  | accepted event request hevent hdecrypts hid => exact .accepted event request hevent hdecrypts hid
  | impostor name code hname => exact .impostor name code hname
  | continued name hname => exact .continued name hname

/-- What one call does to the channel and its input. -/
def CallTurn (rsaPair : RsaKeyPair) (s : LoginChannel) (buf : List Byte)
    (d : Decoded LoginChannel Byte LoginEvent) : Prop :=
  d.unread <:+ buf ∧ d.state.loginUniqueId = s.loginUniqueId ∧
    Turn rsaPair s buf (fun name => Impostor rsaPair s buf name) d.state.loginUsername d.out

private theorem turn_quiet {buf : List Byte} {d : Decoded LoginChannel Byte LoginEvent}
    (hunread : d.unread <:+ buf) (hid : d.state.loginUniqueId = s.loginUniqueId)
    (hname : d.state.loginUsername = s.loginUsername) (hout : d.out = []) :
    CallTurn rsaPair s buf d := by
  refine ⟨hunread, hid, ?_⟩
  rw [hname, hout]
  exact .refused [] (by simp)

private theorem turn_decodeFramed {buf framed : List Byte} (hframed : framed <:+ buf)
    (type : LoginType) (f : LoginChannel → List Byte → LoginChannel × List LoginEvent)
    (h : ∀ length rest, readUnsignedShort framed = some (length, rest) → length.toNat ≤ rest.length →
      PayloadTurn rsaPair { s with loginType := some type } (rest.take length.toNat)
        (fun name => Impostor rsaPair s buf name)
        (f { s with loginType := some type } (rest.take length.toNat))) :
    CallTurn rsaPair s buf (decodeFramed s buf type framed f) := by
  rw [decodeFramed]
  split
  next => exact turn_quiet List.suffix_rfl rfl rfl rfl
  next length rest hread =>
    split_ifs with hlen
    · exact turn_quiet List.suffix_rfl rfl rfl rfl
    · obtain ⟨hid, hturn⟩ := h length rest hread (not_lt.mp hlen)
      have hrest : rest <:+ buf := by
        rw [readUnsigned_rest hread]
        exact (List.drop_suffix ..).trans hframed
      refine ⟨(List.drop_suffix ..).trans hrest, hid, ?_⟩
      exact hturn.of_type.mono ((List.take_prefix ..).isInfix.trans hrest.isInfix) fun _ h => h

theorem turn_decode (rsaPair : RsaKeyPair) (s : LoginChannel) (buf : List Byte) :
    CallTurn rsaPair s buf (decode rsaPair s buf) := by
  rw [decode]
  split
  next => exact turn_quiet List.suffix_rfl rfl rfl rfl
  next id framed hread =>
    have hframed : framed <:+ buf := by
      rw [readUnsigned_rest hread]
      exact List.drop_suffix ..
    have hpayload : ∀ type, LoginType.fromId id = some type → (type = .lobby ∨ type = .game) →
        CallTurn rsaPair s buf (decodeFramed s buf type framed (decodePayload rsaPair type)) := by
      intro type hid htype
      apply turn_decodeFramed hframed
      intro length rest hlength hle
      obtain ⟨hsame, hturn⟩ := turn_decodePayload (s := { s with loginType := some type }) htype
        (rest.take length.toNat)
      refine ⟨hsame, hturn.mono List.infix_rfl fun name hname => ?_⟩
      exact ⟨id, framed, hread, type, hid, htype, length, rest, hlength, hle, hname⟩
    split
    next => exact turn_quiet (List.nil_suffix ..) rfl rfl rfl
    next =>
      split
      · exact turn_quiet (List.nil_suffix ..) rfl rfl rfl
      · split
        · exact turn_quiet hframed rfl rfl rfl
        · split
          next => exact turn_quiet hframed rfl rfl rfl
          next name hname =>
            refine ⟨hframed, rfl, ?_⟩
            show Turn _ _ _ _ s.loginUsername _
            rw [hname]
            exact .continued name hname
    next =>
      split
      next => exact turn_quiet List.suffix_rfl rfl rfl rfl
      next flag sized hflag =>
        apply turn_decodeFramed
        · rw [readUnsigned_rest hflag]
          exact (List.drop_suffix ..).trans hframed
        · intro length rest _ _
          exact turn_decodeGameAltPayload _
    next hid => exact hpayload .lobby hid (.inl rfl)
    next hid => exact hpayload .game hid (.inr rfl)

end LoginServerDecoder

end OpenNXT.Net
