import OpenNXT.Net.Login.LoginServerTurns

/-! The login decoder over the whole life of a channel: which requests it hands on and whose player
it adds. -/
namespace OpenNXT.Net
open Buffer Ext Decoding LoginRSAHeader LoginServerDecoder

/-- The bytes received on a channel and what its decoder made of them. A call sees what is unread,
and at any time bytes arrive, a lobby login is remembered for the host or the proxy takes the
channel over. The allowed calls are those of a run under an assumption. -/
inductive LoginRun (rsaPair : RsaKeyPair) (allowed : LoginChannel → List Byte → Prop)
    (uniqueId : Option Long) : List Byte → Config LoginChannel Byte LoginEvent → Prop
  | start : LoginRun rsaPair allowed uniqueId []
      { state := { loginUniqueId := uniqueId }, unread := [] }
  | receive {received : List Byte} {c : Config LoginChannel Byte LoginEvent} (chunk : List Byte)
      (h : LoginRun rsaPair allowed uniqueId received c) :
      LoginRun rsaPair allowed uniqueId (received ++ chunk) { c with unread := c.unread ++ chunk }
  | decode {received : List Byte} {c : Config LoginChannel Byte LoginEvent}
      (h : LoginRun rsaPair allowed uniqueId received c) (hunread : c.unread ≠ [])
      (hallowed : allowed c.state c.unread) :
      LoginRun rsaPair allowed uniqueId received
        ((LoginServerDecoder.decode rsaPair c.state c.unread).toConfig.emit c.out)
  | remember {received : List Byte} {c : Config LoginChannel Byte LoginEvent}
      (snapshot : Option LobbySnapshot) (h : LoginRun rsaPair allowed uniqueId received c) :
      LoginRun rsaPair allowed uniqueId received { c with state := { c.state with snapshot } }
  | passthrough {received : List Byte} {c : Config LoginChannel Byte LoginEvent}
      (passthroughChannel : Bool) (h : LoginRun rsaPair allowed uniqueId received c) :
      LoginRun rsaPair allowed uniqueId received
        { c with state := { c.state with passthroughChannel } }

namespace LoginRun
variable {rsaPair : RsaKeyPair} {allowed : LoginChannel → List Byte → Prop}
  {uniqueId : Option Long} {received : List Byte} {c : Config LoginChannel Byte LoginEvent}

/-- The loop over the input is made of such calls. -/
theorem callDecode (hallowed : ∀ s buf, allowed s buf)
    (h : LoginRun rsaPair allowed uniqueId received c) :
    LoginRun rsaPair allowed uniqueId received
      (((loginServerDecoder rsaPair).callDecode c.state c.unread).emit c.out) := by
  induction hn : c.unread.length using Nat.strongRecOn generalizing c with
  | _ n ih =>
    rw [Decoder.callDecode]
    by_cases hnil : c.unread = []
    · rw [if_pos hnil]
      have hsame : (Config.emit c.out ⟨c.state, [], []⟩ : Config LoginChannel Byte LoginEvent) = c := by
        apply Config.ext
        · rfl
        · exact hnil.symm
        · exact List.append_nil c.out
      rwa [hsame]
    · have hcall := h.decode hnil (hallowed _ _)
      have hle := (loginServerDecoder rsaPair).decode_le c.state c.unread
      rw [if_neg hnil]
      simp only
      split_ifs with hthrown hlen hout
      · exact hcall
      · exact hcall
      · exact hcall
      · have hlt : (LoginServerDecoder.decode rsaPair c.state c.unread).unread.length < n :=
          hn ▸ Nat.lt_of_le_of_ne hle hlen
        have hrest := ih _ hlt hcall rfl
        rwa [Config.out_emit, ← Config.emit_emit] at hrest

/-- Whatever the chunks, what the decoder is fed makes such a run. -/
theorem feed (hallowed : ∀ s buf, allowed s buf)
    (h : LoginRun rsaPair allowed uniqueId received c) (chunks : List (List Byte)) :
    ∃ more, LoginRun rsaPair allowed uniqueId (received ++ more)
      ((loginServerDecoder rsaPair).feed c chunks) ∧ more <+: chunks.flatten := by
  induction chunks generalizing received c with
  | nil => exact ⟨[], by rwa [List.append_nil], List.prefix_rfl⟩
  | cons chunk chunks ih =>
    cases hopen : c.state.isOpen with
    | false =>
      refine ⟨[], ?_, List.nil_prefix⟩
      rw [Decoder.feed_of_closed hopen, List.append_nil]
      exact h
    | true =>
      obtain ⟨more, hrun, hmore⟩ := ih (callDecode hallowed (h.receive chunk))
      refine ⟨chunk ++ more, ?_, ?_⟩
      · rw [← List.append_assoc, Decoder.feed, List.foldl_cons, Decoder.channelRead]
        rw [if_pos (by exact hopen)]
        exact hrun
      · rw [List.flatten_cons]
        exact List.prefix_append_right_inj chunk |>.mpr hmore

/-- What is unread was received, the unique id stays and every request is verified. -/
private structure Verified (rsaPair : RsaKeyPair) (uniqueId : Option Long) (received : List Byte)
    (c : Config LoginChannel Byte LoginEvent) : Prop where
  unread : c.unread <:+ received
  channel : c.state.loginUniqueId = uniqueId
  requests : ∀ event ∈ c.out, ∀ request, event.Requests request →
    Decrypts rsaPair received request.header ∧ uniqueId = some request.header.uniqueId

private theorem verified (h : LoginRun rsaPair allowed uniqueId received c) :
    Verified rsaPair uniqueId received c := by
  induction h with
  | start => exact ⟨List.suffix_rfl, rfl, by simp⟩
  | @receive received c chunk _ ih =>
    constructor
    · obtain ⟨before, hbefore⟩ := ih.unread
      exact ⟨before, by rw [← List.append_assoc, hbefore]⟩
    · exact ih.channel
    · intro event hevent request hrequest
      obtain ⟨hdecrypts, hid⟩ := ih.requests event hevent request hrequest
      exact ⟨hdecrypts.mono (List.prefix_append ..).isInfix, hid⟩
  | @decode received c _ _ _ ih =>
    obtain ⟨hunread, hsame, hturn⟩ := turn_decode rsaPair c.state c.unread
    constructor
    · exact hunread.trans ih.unread
    · exact hsame.trans ih.channel
    · intro event hevent request hrequest
      obtain hevent | hevent := List.mem_append.mp hevent
      · exact ih.requests event hevent request hrequest
      · obtain ⟨hdecrypts, hid⟩ := hturn.requests hevent hrequest
        exact ⟨hdecrypts.mono ih.unread.isInfix, ih.channel ▸ hid⟩
  | remember _ _ ih => exact ⟨ih.unread, ih.channel, ih.requests⟩
  | passthrough _ _ ih => exact ⟨ih.unread, ih.channel, ih.requests⟩

/-- Every request that is handed on was decrypted from what was received and has the unique id of
the channel. -/
theorem requests_verified (h : LoginRun rsaPair allowed uniqueId received c) {event : LoginEvent}
    (hevent : event ∈ c.out) {request : LoginRequest} (hrequest : event.Requests request) :
    Decrypts rsaPair received request.header ∧ uniqueId = some request.header.uniqueId :=
  h.verified.requests event hevent request hrequest

end LoginRun

/-- A request for the name was handed on. -/
def Requested (out : List LoginEvent) (name : List Char) : Prop :=
  ∃ event ∈ out, ∃ request, event.Requests request ∧ request.username = name

namespace LoginRun
variable {rsaPair : RsaKeyPair} {uniqueId : Option Long} {received : List Byte}
  {c : Config LoginChannel Byte LoginEvent}

private theorem Requested.append {out : List LoginEvent} {name : List Char}
    (h : Requested out name) (more : List LoginEvent) : Requested (out ++ more) name := by
  obtain ⟨event, hevent, hrequest⟩ := h
  exact ⟨event, List.mem_append_left _ hevent, hrequest⟩

/-- The name of the channel was requested, and so was that of every player that was added, before
it was. -/
private structure Named (c : Config LoginChannel Byte LoginEvent) : Prop where
  username : ∀ name, c.state.loginUsername = some name → Requested c.out name
  players : ∀ i name, c.out[i]? = some (.addPlayer name) → Requested (c.out.take i) name

private theorem Named.decode (hc : Named c)
    (hallowed : ∀ name, ¬ Impostor rsaPair c.state c.unread name) :
    Named ((LoginServerDecoder.decode rsaPair c.state c.unread).toConfig.emit c.out) := by
  obtain ⟨-, -, hturn⟩ := turn_decode rsaPair c.state c.unread
  constructor
  · intro name hname
    obtain hkept | hnew := hturn.requested hallowed hname
    · exact Requested.append (hc.username name hkept) _
    · obtain ⟨event, hevent, hrequest⟩ := hnew
      exact ⟨event, List.mem_append_right _ hevent, hrequest⟩
  · intro i name hi
    rw [Config.out_emit] at hi ⊢
    by_cases hlt : i < c.out.length
    · rw [List.getElem?_append_left hlt] at hi
      rw [List.take_append_of_le_length hlt.le]
      exact hc.players i name hi
    · rw [List.getElem?_append_right (not_lt.mp hlt)] at hi
      have hname := hturn.addPlayer (List.mem_of_getElem? hi)
      rw [List.take_append, List.take_of_length_le (not_lt.mp hlt)]
      exact Requested.append (hc.username name hname) _

private theorem named {allowed : LoginChannel → List Byte → Prop}
    (hallowed : ∀ s buf, allowed s buf → ∀ name, ¬ Impostor rsaPair s buf name)
    (h : LoginRun rsaPair allowed uniqueId received c) : Named c := by
  induction h with
  | start =>
    constructor
    · intro name hname
      cases hname
    · intro i name hi
      simp at hi
  | receive _ _ ih => exact ⟨ih.username, ih.players⟩
  | decode _ _ hstep ih => exact ih.decode (hallowed _ _ hstep)
  | remember _ _ ih => exact ⟨ih.username, ih.players⟩
  | passthrough _ _ ih => exact ⟨ih.username, ih.players⟩

/-- Where no login comes under a unique id that is not that of the channel, every player that is
added has the name of a request that was handed on before. -/
theorem addPlayer_requested
    (h : LoginRun rsaPair (fun s buf => ∀ name, ¬ Impostor rsaPair s buf name) uniqueId received c)
    {i : ℕ} {name : List Char} (hi : c.out[i]? = some (.addPlayer name)) :
    Requested (c.out.take i) name :=
  (named (fun _ _ h => h) h).players i name hi

end LoginRun

section Sample
open LoginEncoder

/-- The key under which the sample login was made. -/
private def sampleKey : RsaKeyPair := ⟨keyDecryption, keyModulus⟩

/-- The sample login as the decoder of that key reads it. -/
private def SamplePayload (payload : List Byte) : Prop :=
  payload.length < 2 ^ 16 ∧ readRequest sampleKey .lobby payload =
    some ((⟨919, 1⟩, .fresh lobbyHeader), encipherXtea lobbyHeader.seeds lobbyBody)

private theorem exists_samplePayload : ∃ payload, SamplePayload payload := by
  obtain ⟨payload, hlen, -, hread⟩ := readRequest_lobbyRequest
  exact ⟨payload, hlen, hread⟩

/-- The sample login, and the byte that continues it. -/
private def sampleBytes (payload : List Byte) : List Byte :=
  writeByte LoginType.lobby.id ++ (shortFramed payload ++ [26])

variable {payload : List Byte}

private theorem decode_sampleBytes (h : SamplePayload payload) (s : LoginChannel) :
    LoginServerDecoder.decode sampleKey s (sampleBytes payload) =
      { state := (decodeFresh .lobby { s with loginType := some .lobby } ⟨919, 1⟩ lobbyHeader
          lobbyBody).1
        unread := [26]
        out := (decodeFresh .lobby { s with loginType := some .lobby } ⟨919, 1⟩ lobbyHeader
          lobbyBody).2 } := by
  have hpayload : ∀ t, decodePayload sampleKey .lobby t payload =
      decodeFresh .lobby t ⟨919, 1⟩ lobbyHeader lobbyBody := by
    intro t
    rw [decodePayload, h.2]
    dsimp only
    rw [decipherXtea_encipherXtea]
  rw [sampleBytes, decode_lobby_append h.1, hpayload]

/-- The channel that was given this unique id, after the sample login. -/
private def sampleChannel (uniqueId : Long) (isOpen : Bool) : LoginChannel where
  loginUniqueId := some uniqueId
  loginType := some .lobby
  loginUsername := some ['a']
  isOpen := isOpen

private theorem decode_continue (uniqueId : Long) (isOpen : Bool) :
    LoginServerDecoder.decode sampleKey (sampleChannel uniqueId isOpen) [26] =
      { state := sampleChannel uniqueId isOpen, unread := [], out := [.addPlayer ['a']] } := by
  rfl

private theorem decodeFresh_refused :
    decodeFresh .lobby { loginUniqueId := some 78, loginType := some .lobby } ⟨919, 1⟩ lobbyHeader
      lobbyBody = (sampleChannel 78 false, [.response .malformedPacket]) := by
  rfl

private theorem decodeFresh_accepted :
    decodeFresh .lobby { loginUniqueId := some 77, loginType := some .lobby } ⟨919, 1⟩ lobbyHeader
      lobbyBody = (sampleChannel 77 true,
        [.packet (.lobbyLoginRequest { lobbyRequest with remaining := lobbyBody })]) := by
  rfl

private theorem length_sampleBytes : [26].length < (sampleBytes payload).length := by
  simp [sampleBytes, shortFramed]

/-- The loop reads the sample login and then the byte behind it. -/
private theorem callDecode_sampleBytes (h : SamplePayload payload) {uniqueId : Long} {isOpen : Bool}
    {event : LoginEvent}
    (hfresh : decodeFresh .lobby { loginUniqueId := some uniqueId, loginType := some .lobby }
      ⟨919, 1⟩ lobbyHeader lobbyBody = (sampleChannel uniqueId isOpen, [event])) :
    (loginServerDecoder sampleKey).callDecode { loginUniqueId := some uniqueId }
        (sampleBytes payload) =
      { state := sampleChannel uniqueId isOpen, unread := [],
        out := [event, .addPlayer ['a']] } := by
  have hfirst := decode_sampleBytes h { loginUniqueId := some uniqueId }
  rw [hfresh] at hfirst
  have hsecond : (loginServerDecoder sampleKey).callDecode (sampleChannel uniqueId isOpen) [26] =
      { state := sampleChannel uniqueId isOpen, unread := [], out := [.addPlayer ['a']] } := by
    rw [Decoder.callDecode_of_decode _ (decode_continue uniqueId isOpen) rfl (by simp),
      Decoder.callDecode_nil]
    rfl
  rw [Decoder.callDecode_of_decode _ hfirst rfl length_sampleBytes]
  exact congrArg (Config.emit [event]) hsecond

private theorem not_impostor_sample (h : SamplePayload payload) (name : List Char) :
    ¬ Impostor sampleKey { loginUniqueId := some 77 } (sampleBytes payload) name := by
  rintro ⟨id, framed, hid, type, htype, -, length, rest, hlength, -, hpayload⟩
  have hread : readUnsignedByte (sampleBytes payload) =
      some (LoginType.lobby.id, shortFramed payload ++ [26]) := reads_unsignedByte (by decide) _
  rw [hread] at hid
  cases hid
  have hlobby : LoginType.lobby = type := Option.some.inj htype
  rw [← hlobby] at hpayload
  have hshort : readUnsignedShort (shortFramed payload ++ [26]) =
      some (BitVec.ofNat 32 payload.length, payload ++ [26]) := by
    rw [shortFramed, List.append_assoc]
    apply reads_unsignedShort
    rw [BitVec.toNat_ofNat, Nat.mod_eq_of_lt (h.1.trans (by decide))]
    exact h.1
  rw [hshort] at hlength
  cases hlength
  have htake : (payload ++ [26]).take (BitVec.ofNat 32 payload.length).toNat = payload := by
    rw [BitVec.toNat_ofNat, Nat.mod_eq_of_lt (h.1.trans (by decide)), List.take_left]
  rw [htake] at hpayload
  obtain ⟨build, header, body, _, hrequest, -, hid⟩ := hpayload
  rw [h.2] at hrequest
  cases hrequest
  exact hid rfl

private theorem not_impostor_continue (s : LoginChannel) (name : List Char) :
    ¬ Impostor sampleKey s [26] name := by
  rintro ⟨id, framed, hid, type, htype, hkind, -⟩
  cases hid
  have hcontinue : LoginType.gameloginContinue = type := Option.some.inj htype
  rw [← hcontinue] at hkind
  obtain h | h := hkind <;> cases h

/-- A refused login names the player that is added. -/
theorem feed_sampleBytes_refused : ∃ bytes,
    (loginServerDecoder ⟨keyDecryption, keyModulus⟩).feed
        { state := { loginUniqueId := some 78 }, unread := [] } [bytes] =
      { state := sampleChannel 78 false, unread := [],
        out := [.response .malformedPacket, .addPlayer ['a']] } ∧
    ¬ Requested [.response .malformedPacket] ['a'] := by
  obtain ⟨payload, h⟩ := exists_samplePayload
  refine ⟨sampleBytes payload, callDecode_sampleBytes h decodeFresh_refused, ?_⟩
  rintro ⟨event, hevent, request, hrequest, -⟩
  obtain rfl := List.mem_singleton.mp hevent
  obtain h | h := hrequest <;> cases h

/-- The sample login on its own channel, and the byte that continues it. -/
private def sampleEvents : List LoginEvent :=
  [.packet (.lobbyLoginRequest { lobbyRequest with remaining := lobbyBody }), .addPlayer ['a']]

private theorem sampleRun (h : SamplePayload payload)
    {allowed : LoginChannel → List Byte → Prop}
    (hsample : allowed { loginUniqueId := some 77 } (sampleBytes payload))
    (hcontinue : allowed (sampleChannel 77 true) [26]) :
    LoginRun sampleKey allowed (some 77) (sampleBytes payload)
      { state := sampleChannel 77 true, unread := [], out := sampleEvents } := by
  have hstart : LoginRun sampleKey allowed (some 77) []
      { state := { loginUniqueId := some 77 }, unread := [] } := .start
  have hfirst := decode_sampleBytes h { loginUniqueId := some 77 }
  rw [decodeFresh_accepted] at hfirst
  have hlogin := (hstart.receive (sampleBytes payload)).decode (by simp [sampleBytes]) hsample
  dsimp only [List.nil_append] at hlogin
  rw [hfirst] at hlogin
  have hlast := hlogin.decode (by simp) hcontinue
  dsimp only [Config.unread_emit, Config.state_emit] at hlast
  rw [decode_continue] at hlast
  exact hlast

theorem requests_verified_sample : ∃ received,
    Decrypts ⟨keyDecryption, keyModulus⟩ received (.fresh lobbyHeader) ∧
      some 77 = some lobbyHeader.uniqueId := by
  obtain ⟨payload, h⟩ := exists_samplePayload
  have hrun : LoginRun sampleKey (fun _ _ => True) (some 77) (sampleBytes payload)
      { state := sampleChannel 77 true, unread := [], out := sampleEvents } :=
    sampleRun h trivial trivial
  exact ⟨_, hrun.requests_verified (List.mem_cons_self ..) (.inl rfl)⟩

theorem addPlayer_requested_sample : Requested (sampleEvents.take 1) ['a'] := by
  obtain ⟨payload, h⟩ := exists_samplePayload
  have hrun : LoginRun sampleKey (fun s buf => ∀ name, ¬ Impostor sampleKey s buf name) (some 77)
      (sampleBytes payload)
      { state := sampleChannel 77 true, unread := [], out := sampleEvents } :=
    sampleRun h (not_impostor_sample h) (not_impostor_continue _)
  exact hrun.addPlayer_requested rfl

end Sample

end OpenNXT.Net
