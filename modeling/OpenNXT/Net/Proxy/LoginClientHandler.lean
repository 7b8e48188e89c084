import OpenNXT.Buffer.Returns
import OpenNXT.Decoding.Retries
import OpenNXT.Net.Proxy.LoginClientDecoder

/-! The login state of a proxied channel as its handler moves it on, and the login conversations
that arrive in pieces. -/
namespace OpenNXT.Net.Proxy
open Buffer Ext Decoding

/-- A channel to the proxied server. It is listening while it is open with the login decoder in its
pipeline. -/
structure LoginClient where
  channel : ProxyChannel
  loginUniqueId : Option Long := none
  listening : Bool := true

namespace LoginClient

def setLoginState (s : LoginClient) (state : ProxyLoginState) : LoginClient :=
  { s with channel := { s.channel with loginState := state } }

end LoginClient

namespace LoginClientHandler

/-- What the handling of a message changes of the channel. -/
def channelRead0 (s : LoginClient) : LoginPacket → LoginClient
  | .loginResponse code =>
    match s.channel.loginState with
    | .handshake =>
      if code ≠ .successfulConnection then { s with listening := false }
      else s.setLoginState .uniqueId
    | .loginResponse =>
      if code = .successful then
        match s.channel.packet with
        | some (.lobbyLoginRequest _) => s.setLoginState .waitingLoginResponse
        | _ => s.setLoginState .waitingServerpermVarcs
      else s.setLoginState .finished
    | .waitingWorldloginResponse =>
      if code = .successful then s.setLoginState .waitingLoginResponse
      else s.setLoginState .finished
    | _ => s
  | .sendUniqueId id => { s.setLoginState .loginResponse with loginUniqueId := some id }
  | .lobbyLoginResponse _ => { s with listening := false }
  | .gameLoginResponse _ => { s with listening := false }
  | .serverpermVarcChunk chunk =>
    if chunk.finished then s.setLoginState .waitingWorldloginResponse else s
  | .lobbyLoginRequest _ => s
  | .gameLoginRequest _ => s

end LoginClientHandler

namespace LoginClient
open LoginClientDecoder LoginClientHandler LoginEncoder

/-- A call of `decode`, after which the handler gets what it has added. A removed decoder is not
called. -/
def decode (s : LoginClient) (buf : List Byte) : Decoded LoginClient Byte LoginPacket :=
  if s.listening then
    let d := LoginClientDecoder.decode s.channel buf
    { state := d.out.foldl channelRead0 { s with channel := d.state }, unread := d.unread,
      out := d.out, thrown := d.thrown }
  else { state := s, unread := buf }

private theorem decoder_decode_le (s : ProxyChannel) (buf : List Byte) :
    (LoginClientDecoder.decode s buf).unread.length ≤ buf.length := by
  have hresponse : (decodeResponse s buf).unread.length ≤ buf.length := by
    unfold decodeResponse
    split
    · exact le_rfl
    · rename_i responseId unread hread
      split
      · exact Shortens.unsigned 1 buf _ _ hread
      · exact Shortens.unsigned 1 buf _ _ hread
  unfold LoginClientDecoder.decode
  split
  · exact hresponse
  · exact hresponse
  · exact hresponse
  · split
    · exact le_rfl
    · rename_i id unread hread
      exact Shortens.word 8 buf _ _ hread
  · split
    · exact le_rfl
    · rename_i size rest hread
      have hrest := Shortens.unsigned 1 buf _ _ hread
      split_ifs
      · exact le_rfl
      · rw [unread_decodeLoginResponse, List.length_drop]
        exact (Nat.sub_le _ _).trans hrest
  · split
    · exact le_rfl
    · rename_i length rest hread
      have hrest := Shortens.unsigned 2 buf _ _ hread
      split_ifs
      · exact le_rfl
      · rw [unread_decodeServerpermVarcs, List.length_drop]
        exact (Nat.sub_le _ _).trans hrest
  · exact le_rfl

theorem decode_le (s : LoginClient) (buf : List Byte) :
    (s.decode buf).unread.length ≤ buf.length := by
  unfold decode
  split_ifs
  · exact decoder_decode_le s.channel buf
  · exact le_rfl

/-- The decoder with its handler. An exception is logged, and the channel stays as it is. -/
def decoder : Decoder LoginClient Byte LoginPacket where
  decode := decode
  exceptionCaught s := s
  isOpen := listening
  decode_le := decode_le

/-- The channel after a message was decoded and handled. -/
def receive (s : LoginClient) (msg : LoginPacket) : LoginClient :=
  match msg with
  | .gameLoginResponse response =>
    channelRead0 { s with channel := { s.channel with playerIndex := some response.playerIndex } } msg
  | _ => channelRead0 s msg

/-- A message as it is on the wire, in a state in which it is due. -/
inductive Due (s : ProxyChannel) : LoginPacket → List Byte → Prop
  | response {id : Word} {code : GenericResponse}
      (hs : s.loginState = .handshake ∨ s.loginState = .loginResponse ∨
        s.loginState = .waitingWorldloginResponse)
      (hid : id.toNat < 2 ^ 8) (hcode : GenericResponse.fromId id = some code) :
      Due s (.loginResponse code) (writeByte id)
  | uniqueId (hs : s.loginState = .uniqueId) (id : Long) : Due s (.sendUniqueId id) (writeLong id)
  | lobby {request : LoginRequest} {payload left : List Byte} {msg : LobbyLoginResponse}
      (hs : s.loginState = .waitingLoginResponse)
      (hpacket : s.packet = some (.lobbyLoginRequest request)) (hlen : payload.length < 2 ^ 8)
      (hread : readLobbyLoginResponse payload = some (msg, left)) :
      Due s (.lobbyLoginResponse msg) (byteFramed payload)
  | game {request : LoginRequest} {payload left : List Byte} {msg : GameLoginResponse}
      (hs : s.loginState = .waitingLoginResponse)
      (hpacket : s.packet = some (.gameLoginRequest request)) (hlen : payload.length < 2 ^ 8)
      (hread : readGameLoginResponse payload = some (msg, left)) :
      Due s (.gameLoginResponse msg) (byteFramed payload)
  | varcs {payload left : List Byte} {chunk : ServerpermVarcChunk}
      (hs : s.loginState = .waitingServerpermVarcs) (hlen : payload.length < 2 ^ 16)
      (hread : readServerpermVarcChunk payload.length payload = some (chunk, left)) :
      Due s (.serverpermVarcChunk chunk) (shortFramed payload)

/-- Messages and their bytes, each due in the state that the handling of those before it left. -/
inductive Conversation : LoginClient → List (LoginPacket × List Byte) → Prop
  | nil (s : LoginClient) : Conversation s []
  | cons {s : LoginClient} {msg : LoginPacket} {bytes : List Byte}
      {frames : List (LoginPacket × List Byte)} (listening : s.listening = true)
      (due : Due s.channel msg bytes) (tail : Conversation (s.receive msg) frames) :
      Conversation s ((msg, bytes) :: frames)

/-- Whether the decoder throws where so many bytes of the message have arrived: in a unique id, and
between the two bytes of the length of a chunk. -/
def torn : LoginPacket → ℕ → Bool
  | .sendUniqueId _, n => decide (0 < n)
  | .serverpermVarcChunk _, n => decide (n = 1)
  | _, _ => false

/-- A position in the stream is in a unique id, or between the bytes of such a length. -/
def TornAt (frames : List (LoginPacket × List Byte)) (n : ℕ) : Prop :=
  ∃ before frame after k, frames = before ++ frame :: after ∧ k < frame.2.length ∧
    n = (before.flatMap Prod.snd).length + k ∧ torn frame.1 k = true

section Frames

private theorem decode_of_listening {s : LoginClient} (h : s.listening = true) {buf : List Byte}
    {d : Decoded ProxyChannel Byte LoginPacket} (hd : LoginClientDecoder.decode s.channel buf = d) :
    s.decode buf =
      { state := d.out.foldl channelRead0 { s with channel := d.state }, unread := d.unread,
        out := d.out, thrown := d.thrown } := by
  rw [decode, if_pos h, hd]

private theorem exists_front {head payload p q : List Byte} (h : p ++ q = head ++ payload)
    (hq : q ≠ []) (hlen : head.length ≤ p.length) :
    ∃ front, p = head ++ front ∧ front.length < payload.length := by
  rcases List.append_eq_append_iff.mp h with ⟨mid, hhead, hpayload⟩ | ⟨mid, hp, hpayload⟩
  · have hmid : mid = [] := by
      rw [hhead, List.length_append] at hlen
      exact List.length_eq_zero_iff.mp (by omega)
    subst hmid
    rw [List.append_nil] at hhead
    rw [List.nil_append] at hpayload
    have hpos := List.length_pos_iff.mpr hq
    refine ⟨[], by rw [hhead, List.append_nil], ?_⟩
    rw [← hpayload, List.length_nil]
    exact hpos
  · have hpos := List.length_pos_iff.mpr hq
    refine ⟨mid, hp, ?_⟩
    rw [hpayload, List.length_append]
    omega

private theorem toNat_length {n k : ℕ} (h : n < 2 ^ k) (hk : k ≤ 32) :
    (BitVec.ofNat 32 n).toNat = n := by
  rw [BitVec.toNat_ofNat]
  exact Nat.mod_eq_of_lt (h.trans_le (Nat.pow_le_pow_right (by omega) hk))

private theorem waits_byteFramed {s : ProxyChannel} (hs : s.loginState = .waitingLoginResponse)
    {payload p q : List Byte} (hlen : payload.length < 2 ^ 8) (h : p ++ q = byteFramed payload)
    (hp : p ≠ []) (hq : q ≠ []) : LoginClientDecoder.decode s p = { state := s, unread := p } := by
  obtain ⟨front, rfl, hfront⟩ := exists_front h hq
    (by rw [length_writeByte]; exact List.length_pos_iff.mpr hp)
  have hsize := toNat_length hlen (by omega)
  have hread := reads_unsignedByte (by rwa [hsize]) front
  rw [LoginClientDecoder.decode, hs]
  dsimp only
  rw [hread]
  dsimp only
  rw [hsize, if_pos hfront]

private theorem front_shortFramed {s : ProxyChannel} (hs : s.loginState = .waitingServerpermVarcs)
    {payload p q : List Byte} (hlen : payload.length < 2 ^ 16) (h : p ++ q = shortFramed payload)
    (hp : p ≠ []) (hq : q ≠ []) :
    LoginClientDecoder.decode s p =
      { state := s, unread := p, thrown := decide (p.length = 1) } := by
  have hpos := List.length_pos_iff.mpr hp
  rw [LoginClientDecoder.decode, hs]
  dsimp only
  by_cases hone : p.length = 1
  · have hnone : readUnsignedShort p = none := readUnsigned_eq_none (by omega)
    rw [hnone]
    simp [hone]
  · obtain ⟨front, rfl, hfront⟩ := exists_front h hq (by rw [length_writeShort]; omega)
    have hsize := toNat_length hlen (by omega)
    have hread := reads_unsignedShort (by rwa [hsize]) front
    rw [hread]
    dsimp only
    rw [hsize, if_pos hfront, decide_eq_false hone]

/-- The packet of a message. -/
def packet (frame : LoginPacket × List Byte) : RetriedPacket Byte LoginPacket :=
  ⟨frame.2, [frame.1], torn frame.1⟩

private theorem proper_of_length_le_one {bytes p q : List Byte} (hlen : bytes.length ≤ 1)
    (h : p ++ q = bytes) (hp : p ≠ []) (hq : q ≠ []) : False := by
  have hsum := congrArg List.length h
  rw [List.length_append] at hsum
  have hp := List.length_pos_iff.mpr hp
  have hq := List.length_pos_iff.mpr hq
  omega

private theorem decode_of_due {s : ProxyChannel} {msg : LoginPacket} {bytes : List Byte}
    (h : Due s msg bytes) (rest : List Byte) :
    ∃ s', LoginClientDecoder.decode s (bytes ++ rest) =
        { state := s', unread := rest, out := [msg] } ∧
      ∀ client : LoginClient, client.channel = s →
        channelRead0 { client with channel := s' } msg = client.receive msg := by
  cases h with
  | @response id code hs hid hcode =>
    refine ⟨s, ?_, fun client hclient => by subst hclient; rfl⟩
    have hdecode : decodeResponse s (writeByte id ++ rest) =
        { state := s, unread := rest, out := [.loginResponse code] } := by
      rw [decodeResponse, reads_unsignedByte hid rest]
      dsimp only
      rw [hcode]
    rcases hs with hs | hs | hs <;>
    · rw [LoginClientDecoder.decode, hs]
      exact hdecode
  | uniqueId hs id =>
    refine ⟨s, ?_, fun client hclient => by subst hclient; rfl⟩
    rw [LoginClientDecoder.decode, hs]
    dsimp only
    rw [reads_long id rest]
  | @lobby request payload left msg hs hpacket hlen hread =>
    refine ⟨s, ?_, fun client hclient => by subst hclient; rfl⟩
    obtain ⟨htake, hdrop⟩ := take_drop_frame rest (show payload.length < 256 from hlen)
    rw [decode_byteFramed hs, htake, hdrop, decodeLoginResponse, hpacket]
    dsimp only
    rw [hread]
  | @game request payload left msg hs hpacket hlen hread =>
    refine ⟨{ s with playerIndex := some msg.playerIndex }, ?_,
      fun client hclient => by subst hclient; rfl⟩
    obtain ⟨htake, hdrop⟩ := take_drop_frame rest (show payload.length < 256 from hlen)
    rw [decode_byteFramed hs, htake, hdrop, decodeLoginResponse, hpacket]
    dsimp only
    rw [hread]
    rfl
  | @varcs payload left chunk hs hlen hread =>
    refine ⟨s, ?_, fun client hclient => by subst hclient; rfl⟩
    obtain ⟨htake, hdrop⟩ := take_drop_frame rest (show payload.length < 65536 from hlen)
    rw [decode_shortFramed hs, htake, hdrop, decodeServerpermVarcs, hread]

private theorem decode_front_of_due {s : ProxyChannel} {msg : LoginPacket} {bytes p q : List Byte}
    (h : Due s msg bytes) (hbytes : p ++ q = bytes) (hp : p ≠ []) (hq : q ≠ []) :
    LoginClientDecoder.decode s p = { state := s, unread := p, thrown := torn msg p.length } := by
  cases h with
  | response => exact (proper_of_length_le_one (length_writeByte _).le hbytes hp hq).elim
  | uniqueId hs id =>
    have hlen := congrArg List.length hbytes
    rw [List.length_append, length_writeLong] at hlen
    have hpos := List.length_pos_iff.mpr hp
    have hmore := List.length_pos_iff.mpr hq
    have hnone : readLong p = none := Reader.word_eq_none (by omega)
    rw [LoginClientDecoder.decode, hs]
    dsimp only
    rw [hnone, torn, decide_eq_true hpos]
  | lobby hs _ hlen => exact waits_byteFramed hs hlen hbytes hp hq
  | game hs _ hlen => exact waits_byteFramed hs hlen hbytes hp hq
  | varcs hs hlen => exact front_shortFramed hs hlen hbytes hp hq

private theorem bytes_ne_nil {s : ProxyChannel} {msg : LoginPacket} {bytes : List Byte}
    (h : Due s msg bytes) : bytes ≠ [] := by
  apply List.length_pos_iff.mp
  cases h with
  | response => rw [length_writeByte]; omega
  | uniqueId => rw [length_writeLong]; omega
  | lobby => rw [byteFramed, List.length_append, length_writeByte]; omega
  | game => rw [byteFramed, List.length_append, length_writeByte]; omega
  | varcs => rw [shortFramed, List.length_append, length_writeShort]; omega

private theorem torn_zero (msg : LoginPacket) : torn msg 0 = false := by
  cases msg <;> rfl

theorem retries_of_due {s : LoginClient} {msg : LoginPacket} {bytes : List Byte}
    (hlistening : s.listening = true) (h : Due s.channel msg bytes) :
    decoder.Retries s (packet (msg, bytes)) (s.receive msg) where
  nonempty := bytes_ne_nil h
  throws_zero := torn_zero msg
  front p q hbytes hp hq := decode_of_listening hlistening (decode_front_of_due h hbytes hp hq)
  whole rest := by
    obtain ⟨s', hdecode, hreceive⟩ := decode_of_due h rest
    have hwhole := decode_of_listening hlistening hdecode
    rw [List.foldl_cons, List.foldl_nil, hreceive s rfl] at hwhole
    exact hwhole

theorem Conversation.stream {s : LoginClient} {frames : List (LoginPacket × List Byte)}
    (h : Conversation s frames) : ∃ s', decoder.RetriedStream s (frames.map packet) s' := by
  induction h with
  | nil s => exact ⟨s, .nil s⟩
  | cons listening due _ ih =>
    obtain ⟨s', htail⟩ := ih
    exact ⟨s', .cons listening rfl (retries_of_due listening due) htail⟩

private theorem tornAt_iff {frames : List (LoginPacket × List Byte)} {n : ℕ} :
    RetriedPacket.throwsAt (frames.map packet) n = true ↔ TornAt frames n := by
  rw [RetriedPacket.throwsAt_iff]
  constructor
  · rintro ⟨before, other, after, k, hsplit, hk, hn, htorn⟩
    obtain ⟨before', rest, rfl, rfl, hrest⟩ := List.map_eq_append_iff.mp hsplit
    obtain ⟨frame, after', rfl, rfl, rfl⟩ := List.map_eq_cons_iff.mp hrest
    rw [List.flatMap_map] at hn
    exact ⟨before', frame, after', k, rfl, hk, hn, htorn⟩
  · rintro ⟨before, frame, after, k, rfl, hk, hn, htorn⟩
    refine ⟨before.map packet, packet frame, after.map packet, k, List.map_append, hk, ?_, htorn⟩
    rw [List.flatMap_map]
    exact hn

end Frames

section Fragmentation

/-- What became of the channel, and whether an exception was caught, when the chunks had arrived. -/
def received (s : LoginClient) (chunks : List (List Byte)) :
    Config (LoginClient × Bool) Byte LoginPacket :=
  decoder.tracked.feed { state := (s, false), unread := [] } chunks

/-- The messages are those of the uncut stream, and no call throws. -/
def Tolerates (s : LoginClient) (chunks : List (List Byte)) : Prop :=
  (received s chunks).out = (received s [chunks.flatten]).out ∧ (received s chunks).state.2 = false

variable {s : LoginClient} {frames : List (LoginPacket × List Byte)} {chunks : List (List Byte)}

theorem received_eq (h : Conversation s frames) (hchunks : chunks.flatten = frames.flatMap Prod.snd)
    (hne : ∀ chunk ∈ chunks, chunk ≠ []) :
    (received s chunks).out = frames.map Prod.fst ∧
      (received s chunks).state.2 =
        (cuts 0 chunks).any (RetriedPacket.throwsAt (frames.map packet)) := by
  obtain ⟨s', hstream⟩ := h.stream
  have hbytes : [] ++ chunks.flatten = (frames.map packet).flatMap RetriedPacket.bytes := by
    rw [List.flatMap_map, List.nil_append, hchunks]
    rfl
  have hfeed := hstream.feed false [] hbytes (fun _ => rfl) hne
  rw [received, hfeed]
  refine ⟨?_, Bool.false_or _⟩
  rw [List.nil_append, List.flatMap_map]
  exact List.flatMap_pure_eq_map Prod.fst frames

private theorem throwsAt_total (frames : List (LoginPacket × List Byte)) :
    ¬ TornAt frames (frames.flatMap Prod.snd).length := by
  rintro ⟨before, frame, after, k, rfl, hk, hn, -⟩
  rw [List.flatMap_append, List.flatMap_cons, List.length_append, List.length_append] at hn
  omega

/-- The uncut stream gives the messages. -/
theorem received_uncut (h : Conversation s frames) :
    (received s [frames.flatMap Prod.snd]).out = frames.map Prod.fst ∧
      (received s [frames.flatMap Prod.snd]).state.2 = false := by
  by_cases hnil : frames.flatMap Prod.snd = []
  · obtain ⟨s', hstream⟩ := h.stream
    have hframes : frames.map packet = [] := by
      refine (hstream.eq_nil_of_flatMap ?_).1
      rw [List.flatMap_map]
      exact hnil
    rw [List.map_eq_nil_iff] at hframes
    subst hframes
    simp [received, Decoder.feed, Decoder.channelRead]
  · have hwhole : [frames.flatMap Prod.snd].flatten = frames.flatMap Prod.snd := List.flatten_singleton
    obtain ⟨hout, hthrown⟩ := received_eq h hwhole (by simpa using hnil)
    refine ⟨hout, ?_⟩
    have htotal := throwsAt_total frames
    rw [← tornAt_iff, Bool.not_eq_true] at htotal
    rw [hthrown, cuts, cuts, Nat.zero_add, List.any_cons, htotal]
    rfl

/-- However the stream is cut, the messages are those of the uncut stream; an exception is thrown
exactly when a cut falls into a unique id or between the two bytes of the length of a chunk. -/
theorem tolerates_iff (h : Conversation s frames)
    (hchunks : chunks.flatten = frames.flatMap Prod.snd) (hne : ∀ chunk ∈ chunks, chunk ≠ []) :
    (Tolerates s chunks ↔ ∀ n ∈ cuts 0 chunks, ¬ TornAt frames n) ∧
      (received s chunks).out = frames.map Prod.fst ∧
      (received s [chunks.flatten]).out = frames.map Prod.fst ∧
      (received s [chunks.flatten]).state.2 = false := by
  obtain ⟨hout, hthrown⟩ := received_eq h hchunks hne
  obtain ⟨huncut, hquiet⟩ := received_uncut h
  rw [← hchunks] at huncut hquiet
  refine ⟨?_, hout, huncut, hquiet⟩
  rw [Tolerates, hout, huncut, hthrown, List.any_eq_false]
  simp only [true_and, tornAt_iff]

/-- A proxied game login whose connection was opened. -/
def gameClient : LoginClient where
  channel := {
    loginState := .handshake
    packet := some (.gameLoginRequest
      ⟨⟨919, 1⟩, .fresh ⟨Vector.replicate 4 0, 0, 0, 0, false, [], 0, 0⟩, [], [], []⟩) }

/-- Two permanent variables, the last there are. -/
def lastVarcs : ServerpermVarcChunk :=
  ⟨true, (VarcMap.empty.put 4 (.int 1)).put 9 (.int 2)⟩

def lastVarcsPayload : List Byte :=
  writeByte 1 ++ writeShort 4 ++ writeInt 1 ++ writeShort 9 ++ writeInt 2

/-- The connection is accepted under a unique id. -/
def accepted : List (LoginPacket × List Byte) :=
  [(.loginResponse .successfulConnection, writeByte 0), (.sendUniqueId 7, writeLong 7)]

/-- A whole login of a player without a name. -/
def login : List (LoginPacket × List Byte) :=
  accepted ++ [(.loginResponse .successful, writeByte 2),
    (.serverpermVarcChunk lastVarcs, shortFramed lastVarcsPayload),
    (.loginResponse .successful, writeByte 2),
    (.gameLoginResponse (greeting 0), byteFramed (greeting 0).payload)]

private theorem due_code {s : ProxyChannel} {code : GenericResponse} (id : Word)
    (hs : s.loginState = .handshake ∨ s.loginState = .loginResponse ∨
      s.loginState = .waitingWorldloginResponse)
    (hid : id.toNat < 2 ^ 8) (hcode : GenericResponse.fromId id = some code) :
    Due s (.loginResponse code) (writeByte id) := .response hs hid hcode

private theorem conversation_accepted {frames : List (LoginPacket × List Byte)}
    (h : Conversation ((gameClient.receive (.loginResponse .successfulConnection)).receive
      (.sendUniqueId 7)) frames) : Conversation gameClient (accepted ++ frames) :=
  .cons rfl (due_code 0 (.inl rfl) (by decide) rfl) (.cons rfl (.uniqueId rfl 7) h)

private theorem conversation_login : Conversation gameClient login := by
  refine conversation_accepted ?_
  refine .cons rfl (due_code 2 (.inr (.inl rfl)) (by decide) rfl) ?_
  refine .cons rfl (.varcs rfl (by decide) rfl) ?_
  refine .cons rfl (due_code 2 (.inr (.inr rfl)) (by decide) rfl) ?_
  have hread := (reads_gameLoginResponse (greeting_inRange 0)).run
  exact .cons rfl (.game rfl rfl (by decide) hread) (.nil _)

/-- The chunk of variables arrives in three pieces. -/
def loginChunks : List (List Byte) :=
  [writeByte 0 ++ writeLong 7, writeByte 2 ++ (shortFramed lastVarcsPayload).take 2,
    lastVarcsPayload.take 5, lastVarcsPayload.drop 5 ++ writeByte 2,
    byteFramed (greeting 0).payload]

theorem tolerates_loginChunks : Tolerates gameClient loginChunks := by
  have hchunks : loginChunks.flatten = login.flatMap Prod.snd := rfl
  refine (tolerates_iff conversation_login hchunks (by decide)).1.mpr fun n hn => ?_
  rw [← tornAt_iff, Bool.not_eq_true]
  revert n hn
  decide

/-- The unique id arrives in two pieces. -/
theorem not_tolerates_halves :
    Conversation gameClient accepted ∧
      [writeByte 0, (writeLong 7).take 4, (writeLong 7).drop 4].flatten =
        accepted.flatMap Prod.snd ∧
      (∀ chunk ∈ [writeByte 0, (writeLong 7).take 4, (writeLong 7).drop 4], chunk ≠ []) ∧
      ¬ Tolerates gameClient [writeByte 0, (writeLong 7).take 4, (writeLong 7).drop 4] := by
  have hconversation : Conversation gameClient accepted := conversation_accepted (.nil _)
  have hchunks : [writeByte 0, (writeLong 7).take 4, (writeLong 7).drop 4].flatten =
    accepted.flatMap Prod.snd := rfl
  have hne : ∀ chunk ∈ [writeByte 0, (writeLong 7).take 4, (writeLong 7).drop 4], chunk ≠ [] := by
    decide
  refine ⟨hconversation, hchunks, hne, fun htolerates => ?_⟩
  have hthrown := (received_eq hconversation hchunks hne).2
  rw [htolerates.2] at hthrown
  exact absurd hthrown (by decide)

end Fragmentation

end LoginClient

end OpenNXT.Net.Proxy
