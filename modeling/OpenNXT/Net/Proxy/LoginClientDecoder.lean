import OpenNXT.Decoding.Decoder
import OpenNXT.Net.Login.LoginEncoder

/-! The decoder of the login responses that a proxied server sends. -/
namespace OpenNXT.Net.Proxy
open Buffer Ext Decoding

inductive ProxyLoginState
  | handshake
  | uniqueId
  | loginResponse
  | waitingLoginResponse
  | finished
  | waitingServerpermVarcs
  | waitingWorldloginResponse
  deriving DecidableEq

/-- The attributes of the channel that the decoder uses. -/
structure ProxyChannel where
  loginState : ProxyLoginState
  packet : Option LoginPacket
  playerIndex : Option Word := none

namespace LoginClientDecoder

def readLobbyLoginResponse : Reader LobbyLoginResponse := do
  let byte0 ← readUnsignedByte
  let rights ← readUnsignedByte
  let byte2 ← readUnsignedByte
  let byte3 ← readUnsignedByte
  let medium4 ← readUnsignedMedium
  let byte5 ← readUnsignedByte
  let byte6 ← readUnsignedByte
  let byte7 ← readUnsignedByte
  let long8 ← readLong
  let int9 ← readInt
  let byte10 ← readUnsignedByte
  let byte11 ← readUnsignedByte
  let int12 ← readInt
  let int13 ← readInt
  let short14 ← readUnsignedShort
  let short15 ← readUnsignedShort
  let short16 ← readUnsignedShort
  let ip ← readInt
  let byte17 ← readUnsignedByte
  let short18 ← readUnsignedShort
  let short19 ← readUnsignedShort
  let byte20 ← readUnsignedByte
  let username ← readNullCircumfixedString
  let byte22 ← readUnsignedByte
  let int23 ← readInt
  let short24 ← readUnsignedShort
  let defaultWorld ← readNullCircumfixedString
  let defaultWorldPort1 ← readUnsignedShort
  let defaultWorldPort2 ← readUnsignedShort
  return { byte0, rights, byte2, byte3, medium4, byte5, byte6, byte7, long8, int9, byte10, byte11,
           int12, int13, short14, short15, short16, ip, byte17, short18, short19, byte20, username,
           byte22, int23, short24, defaultWorld, defaultWorldPort1, defaultWorldPort2 }

def readGameLoginResponse : Reader GameLoginResponse := do
  let byte0 ← readUnsignedByte
  let rights ← readUnsignedByte
  let byte2 ← readUnsignedByte
  let byte3 ← readUnsignedByte
  let byte4 ← readUnsignedByte
  let byte5 ← readUnsignedByte
  let byte6 ← readUnsignedByte
  let playerIndex ← readUnsignedShort
  let byte8 ← readUnsignedByte
  let medium9 ← readMedium
  let isMember ← readUnsignedByte
  let username ← readNullCircumfixedString
  let short12 ← readUnsignedShort
  let int13 ← readInt
  return { byte0, rights, byte2, byte3, byte4, byte5, byte6, playerIndex, byte8, medium9, isMember,
           username, short12, int13 }

def readVarc (varcs : VarcMap) : Reader VarcMap := do
  let k ← readUnsignedShort
  let v ← readInt
  return varcs.put k (.int v)

/-- Read while the payload is readable; as many rounds as it has bytes are enough. -/
def readVarcs : ℕ → VarcMap → Reader VarcMap
  | 0, varcs => return varcs
  | n + 1, varcs => fun bs =>
    if bs = [] then some (varcs, []) else (readVarc varcs bs).bind fun p => readVarcs n p.1 p.2

def readServerpermVarcChunk (length : ℕ) : Reader ServerpermVarcChunk := do
  let finished ← readUnsignedByte
  let varcs ← readVarcs length VarcMap.empty
  return ⟨finished = 1, varcs⟩

/-- What is left of a payload is logged with the class of the request, of which there must be one. -/
def decodeLoginResponse (s : ProxyChannel) (payload unread : List Byte) :
    Decoded ProxyChannel Byte LoginPacket :=
  match s.packet with
  | some (.lobbyLoginRequest _) =>
    match readLobbyLoginResponse payload with
    | none => { state := s, unread := unread, thrown := true }
    | some (response, _) =>
      { state := s, unread := unread, out := [.lobbyLoginResponse response] }
  | packet =>
    match readGameLoginResponse payload with
    | none => { state := s, unread := unread, thrown := true }
    | some (response, left) =>
      { state := { s with playerIndex := some response.playerIndex }, unread := unread,
        out := [.gameLoginResponse response], thrown := packet.isNone && !left.isEmpty }

def decodeServerpermVarcs (s : ProxyChannel) (payload unread : List Byte) :
    Decoded ProxyChannel Byte LoginPacket :=
  match readServerpermVarcChunk payload.length payload with
  | none => { state := s, unread := unread, thrown := true }
  | some (chunk, _) => { state := s, unread := unread, out := [.serverpermVarcChunk chunk] }

/-- A response code of its own. -/
def decodeResponse (s : ProxyChannel) (buf : List Byte) : Decoded ProxyChannel Byte LoginPacket :=
  match readUnsignedByte buf with
  | none => { state := s, unread := buf, thrown := true }
  | some (responseId, unread) =>
    match GenericResponse.fromId responseId with
    | none => { state := s, unread := unread, thrown := true }
    | some response => { state := s, unread := unread, out := [.loginResponse response] }

/-- Where a length cannot be read that is an exception; where a payload is not there yet the reader
index is reset. -/
def decode (s : ProxyChannel) (buf : List Byte) : Decoded ProxyChannel Byte LoginPacket :=
  match s.loginState with
  | .handshake => decodeResponse s buf
  | .loginResponse => decodeResponse s buf
  | .waitingWorldloginResponse => decodeResponse s buf
  | .uniqueId =>
    match readLong buf with
    | none => { state := s, unread := buf, thrown := true }
    | some (id, unread) => { state := s, unread := unread, out := [.sendUniqueId id] }
  | .waitingLoginResponse =>
    match readUnsignedByte buf with
    | none => { state := s, unread := buf, thrown := true }
    | some (size, rest) =>
      if rest.length < size.toNat then { state := s, unread := buf }
      else decodeLoginResponse s (rest.take size.toNat) (rest.drop size.toNat)
  | .waitingServerpermVarcs =>
    match readUnsignedShort buf with
    | none => { state := s, unread := buf, thrown := true }
    | some (length, rest) =>
      if rest.length < length.toNat then { state := s, unread := buf }
      else decodeServerpermVarcs s (rest.take length.toNat) (rest.drop length.toNat)
  | .finished => { state := s, unread := buf, thrown := true }

end LoginClientDecoder

section Payloads
open LoginClientDecoder

/-- What a string comes back as. -/
def wireString (s : List Char) : List Char := Windows1252.decode (Windows1252.encode s)

theorem reads_lobbyLoginResponse {msg : LobbyLoginResponse} (h : msg.InRange) :
    Reads readLobbyLoginResponse msg.payload
      { msg with
        username := wireString msg.username, defaultWorld := wireString msg.defaultWorld } := by
  have hbyte := fun v hv => reads_unsignedByte (h.bytes v hv)
  have hshort := fun v hv => reads_unsignedShort (h.shorts v hv)
  refine Reads.bind (hbyte msg.byte0 (by simp)) ?_
  refine Reads.bind (hbyte msg.rights (by simp)) ?_
  refine Reads.bind (hbyte msg.byte2 (by simp)) ?_
  refine Reads.bind (hbyte msg.byte3 (by simp)) ?_
  refine Reads.bind (reads_unsignedMedium h.medium4) ?_
  refine Reads.bind (hbyte msg.byte5 (by simp)) ?_
  refine Reads.bind (hbyte msg.byte6 (by simp)) ?_
  refine Reads.bind (hbyte msg.byte7 (by simp)) ?_
  refine Reads.bind (reads_long msg.long8) ?_
  refine Reads.bind (reads_int msg.int9) ?_
  refine Reads.bind (hbyte msg.byte10 (by simp)) ?_
  refine Reads.bind (hbyte msg.byte11 (by simp)) ?_
  refine Reads.bind (reads_int msg.int12) ?_
  refine Reads.bind (reads_int msg.int13) ?_
  refine Reads.bind (hshort msg.short14 (by simp)) ?_
  refine Reads.bind (hshort msg.short15 (by simp)) ?_
  refine Reads.bind (hshort msg.short16 (by simp)) ?_
  refine Reads.bind (reads_int msg.ip) ?_
  refine Reads.bind (hbyte msg.byte17 (by simp)) ?_
  refine Reads.bind (hshort msg.short18 (by simp)) ?_
  refine Reads.bind (hshort msg.short19 (by simp)) ?_
  refine Reads.bind (hbyte msg.byte20 (by simp)) ?_
  refine Reads.bind (reads_nullCircumfixedString h.username) ?_
  refine Reads.bind (hbyte msg.byte22 (by simp)) ?_
  refine Reads.bind (reads_int msg.int23) ?_
  refine Reads.bind (hshort msg.short24 (by simp)) ?_
  refine Reads.bind (reads_nullCircumfixedString h.defaultWorld) ?_
  refine Reads.bind (hshort msg.defaultWorldPort1 (by simp)) ?_
  exact Reads.map _ (hshort msg.defaultWorldPort2 (by simp))

theorem reads_gameLoginResponse {msg : GameLoginResponse} (h : msg.InRange) :
    Reads readGameLoginResponse msg.payload { msg with username := wireString msg.username } := by
  have hbyte := fun v hv => reads_unsignedByte (h.bytes v hv)
  refine Reads.bind (hbyte msg.byte0 (by simp)) ?_
  refine Reads.bind (hbyte msg.rights (by simp)) ?_
  refine Reads.bind (hbyte msg.byte2 (by simp)) ?_
  refine Reads.bind (hbyte msg.byte3 (by simp)) ?_
  refine Reads.bind (hbyte msg.byte4 (by simp)) ?_
  refine Reads.bind (hbyte msg.byte5 (by simp)) ?_
  refine Reads.bind (hbyte msg.byte6 (by simp)) ?_
  refine Reads.bind (reads_unsignedShort h.playerIndex) ?_
  refine Reads.bind (hbyte msg.byte8 (by simp)) ?_
  refine Reads.bind (reads_medium h.medium9) ?_
  refine Reads.bind (hbyte msg.isMember (by simp)) ?_
  refine Reads.bind (reads_nullCircumfixedString h.username) ?_
  refine Reads.bind (reads_unsignedShort h.short12) ?_
  exact Reads.map _ (reads_int msg.int13)

theorem length_lobbyPayload (msg : LobbyLoginResponse) :
    msg.payload.length = 63 + msg.username.length + msg.defaultWorld.length := by
  simp only [LobbyLoginResponse.payload, List.length_append, length_writeByte, length_writeShort,
    length_writeMedium, length_writeInt, length_writeLong, length_writeNullCircumfixedString]
  omega

theorem length_gamePayload (msg : GameLoginResponse) :
    msg.payload.length = 22 + msg.username.length := by
  simp only [GameLoginResponse.payload, List.length_append, length_writeByte, length_writeShort,
    length_writeMedium, length_writeInt, length_writeNullCircumfixedString]
  omega

end Payloads

section Varcs
open LoginClientDecoder ServerpermVarcChunk

/-- A key as two bytes carry it. -/
private def lowKey (k : Word) : Word := (k.setWidth (8 * 2)).setWidth 32

private theorem lowKey_lt (k : Word) : (lowKey k).toNat < 2 ^ 16 := by
  have hlt := (k.setWidth (8 * 2)).isLt
  rw [lowKey, BitVec.toNat_setWidth]
  exact (Nat.mod_le _ _).trans_lt hlt

private theorem lowKey_of_lt {k : Word} (h : k.toNat < 2 ^ 16) : lowKey k = k := by
  have hread := reads_unsignedShort h []
  have hlow := reads_unsigned_low 2 k []
  exact congrArg Prod.fst (Option.some.inj (hlow.symm.trans hread))

private def putLow (varcs : VarcMap) (entry : Word × FieldValue) : VarcMap :=
  varcs.put (lowKey entry.1) entry.2

private theorem mapM_cons_eq_some {entry : Word × FieldValue} {entries : List (Word × FieldValue)}
    {written : List (List Byte)} (h : (entry :: entries).mapM writeVarc = some written) :
    ∃ v written', entry.2 = .int v ∧ entries.mapM writeVarc = some written' ∧
      written = (writeShort entry.1 ++ writeInt v) :: written' := by
  rw [List.mapM_cons] at h
  obtain ⟨bs, hbs, hrest⟩ := Option.bind_eq_some_iff.mp h
  obtain ⟨written', hwritten, hcons⟩ := Option.bind_eq_some_iff.mp hrest
  cases hcons
  obtain ⟨k, v⟩ := entry
  cases v with
  | string s => cases hbs
  | long v => cases hbs
  | int v =>
    cases hbs
    exact ⟨v, written', rfl, hwritten, rfl⟩

private theorem readVarcs_succ (n : ℕ) (varcs : VarcMap) (bs : List Byte) :
    readVarcs (n + 1) varcs bs =
      if bs = [] then some (varcs, [])
      else (readVarc varcs bs).bind fun p => readVarcs n p.1 p.2 := rfl

private theorem readVarcs_step (n : ℕ) (varcs : VarcMap) (k v : Word) (rest : List Byte) :
    readVarcs (n + 1) varcs ((writeShort k ++ writeInt v) ++ rest) =
      readVarcs n (putLow varcs (k, .int v)) rest := by
  have hread : Reads (readVarc varcs) (writeShort k ++ writeInt v) (putLow varcs (k, .int v)) :=
    Reads.bind (reads_unsigned_low 2 k) ((reads_int v).map fun v => varcs.put _ (.int v))
  have hne : (writeShort k ++ writeInt v) ++ rest ≠ [] := by
    intro hnil
    have hlen := congrArg List.length hnil
    simp at hlen
  rw [readVarcs_succ, if_neg hne, hread, Option.bind_some]

private theorem readVarcs_written {entries : List (Word × FieldValue)} {written : List (List Byte)}
    (h : entries.mapM writeVarc = some written) (varcs : VarcMap) {n : ℕ} (hn : entries.length ≤ n) :
    readVarcs n varcs written.flatten = some (entries.foldl putLow varcs, []) := by
  induction entries generalizing written varcs n with
  | nil =>
    cases h
    cases n with
    | zero => rfl
    | succ n => rfl
  | cons entry entries ih =>
    obtain ⟨v, written', hv, hwritten, rfl⟩ := mapM_cons_eq_some h
    cases n with
    | zero => cases hn
    | succ n =>
      have hentry : (entry.1, FieldValue.int v) = entry := Prod.ext rfl hv.symm
      rw [List.flatten_cons, readVarcs_step, hentry, List.foldl_cons]
      exact ih hwritten _ (Nat.le_of_succ_le_succ hn)

private theorem length_written {entries : List (Word × FieldValue)} {written : List (List Byte)}
    (h : entries.mapM writeVarc = some written) : written.flatten.length = 6 * entries.length := by
  induction entries generalizing written with
  | nil =>
    cases h
    rfl
  | cons entry entries ih =>
    obtain ⟨v, written', -, hwritten, rfl⟩ := mapM_cons_eq_some h
    rw [List.flatten_cons, List.length_append, ih hwritten, List.length_append, length_writeShort,
      length_writeInt, List.length_cons]
    ring

private theorem entries_putLow {varcs : VarcMap} {entry : Word × FieldValue}
    (hlt : entry.1.toNat < 2 ^ 16) (hnew : entry.1 ∉ varcs.entries.map Prod.fst) :
    (putLow varcs entry).entries = varcs.entries ++ [entry] := by
  have hkeep : varcs.entries.filter (fun e => e.1 ≠ entry.1) = varcs.entries := by
    rw [List.filter_eq_self]
    intro e he
    have hne : e.1 ≠ entry.1 := fun heq => hnew (heq ▸ List.mem_map_of_mem he)
    simpa using hne
  show varcs.entries.filter (fun e => e.1 ≠ lowKey entry.1) ++ [(lowKey entry.1, entry.2)] = _
  rw [lowKey_of_lt hlt, hkeep]

/-- Distinct keys of two bytes are put one behind the other. -/
private theorem foldl_putLow {entries : List (Word × FieldValue)} {varcs : VarcMap}
    (hlt : ∀ entry ∈ entries, entry.1.toNat < 2 ^ 16)
    (hnodup : ((varcs.entries ++ entries).map Prod.fst).Nodup) :
    (entries.foldl putLow varcs).entries = varcs.entries ++ entries := by
  induction entries generalizing varcs with
  | nil => simp
  | cons entry entries ih =>
    have hnew : entry.1 ∉ varcs.entries.map Prod.fst := by
      rw [List.map_append, List.map_cons, List.nodup_append] at hnodup
      exact fun hmem => hnodup.2.2 _ hmem _ List.mem_cons_self rfl
    have hput := entries_putLow (hlt entry List.mem_cons_self) hnew
    have hsplit : varcs.entries ++ entry :: entries =
        (putLow varcs entry).entries ++ entries := by
      rw [hput, List.append_assoc]
      rfl
    rw [hsplit] at hnodup ⊢
    exact ih (fun e he => hlt e (List.mem_cons_of_mem _ he)) hnodup

/-- Nothing else than a key of two bytes is put. -/
private theorem lt_of_mem_foldl (entries : List (Word × FieldValue)) {varcs : VarcMap}
    (hvarcs : ∀ entry ∈ varcs.entries, entry.1.toNat < 2 ^ 16) :
    ∀ entry ∈ (entries.foldl putLow varcs).entries, entry.1.toNat < 2 ^ 16 := by
  induction entries generalizing varcs with
  | nil => exact hvarcs
  | cons entry entries ih =>
    apply ih
    intro e he
    rcases List.mem_append.mp he with he | he
    · exact hvarcs e (List.mem_filter.mp he).1
    · rw [List.mem_singleton.mp he]
      exact lowKey_lt entry.1

end Varcs

section Framing
open LoginClientDecoder LoginEncoder

private theorem toNat_low {n m : ℕ} (hn : n ≤ 2) :
    (((BitVec.ofNat 32 m).setWidth (8 * n)).setWidth 32).toNat = m % 2 ^ (8 * n) := by
  have hpow : 2 ^ (8 * n) ∣ 2 ^ 32 := Nat.pow_dvd_pow 2 (by omega)
  have hlt : m % 2 ^ (8 * n) < 2 ^ (8 * n) := Nat.mod_lt _ (by positivity)
  have hle := Nat.le_of_dvd (by positivity) hpow
  rw [BitVec.toNat_setWidth, BitVec.toNat_setWidth, BitVec.toNat_ofNat, Nat.mod_mod_of_dvd _ hpow]
  exact Nat.mod_eq_of_lt (hlt.trans_le hle)

/-- One byte carries the length of a payload modulo 256. -/
theorem decode_byteFramed {s : ProxyChannel} (hs : s.loginState = .waitingLoginResponse)
    (payload rest : List Byte) :
    decode s (byteFramed payload ++ rest) =
      decodeLoginResponse s ((payload ++ rest).take (payload.length % 256))
        ((payload ++ rest).drop (payload.length % 256)) := by
  have hread := reads_unsigned_low 1 (BitVec.ofNat 32 payload.length) (payload ++ rest)
  have hsize : (((BitVec.ofNat 32 payload.length).setWidth (8 * 1)).setWidth 32).toNat =
      payload.length % 256 := toNat_low (by omega)
  have hle : ¬ (payload ++ rest).length < payload.length % 256 := by
    rw [List.length_append]
    omega
  rw [decode, hs]
  dsimp only
  rw [byteFramed, List.append_assoc, readUnsignedByte, writeByte, hread]
  dsimp only
  rw [hsize, if_neg hle]

theorem decode_shortFramed {s : ProxyChannel} (hs : s.loginState = .waitingServerpermVarcs)
    (payload rest : List Byte) :
    decode s (shortFramed payload ++ rest) =
      decodeServerpermVarcs s ((payload ++ rest).take (payload.length % 65536))
        ((payload ++ rest).drop (payload.length % 65536)) := by
  have hread := reads_unsigned_low 2 (BitVec.ofNat 32 payload.length) (payload ++ rest)
  have hsize : (((BitVec.ofNat 32 payload.length).setWidth (8 * 2)).setWidth 32).toNat =
      payload.length % 65536 := toNat_low (by omega)
  have hle : ¬ (payload ++ rest).length < payload.length % 65536 := by
    rw [List.length_append]
    omega
  rw [decode, hs]
  dsimp only
  rw [shortFramed, List.append_assoc, readUnsignedShort, writeShort, hread]
  dsimp only
  rw [hsize, if_neg hle]

theorem unread_decodeLoginResponse (s : ProxyChannel) (payload unread : List Byte) :
    (decodeLoginResponse s payload unread).unread = unread := by
  unfold decodeLoginResponse
  split <;> split <;> rfl

theorem unread_decodeServerpermVarcs (s : ProxyChannel) (payload unread : List Byte) :
    (decodeServerpermVarcs s payload unread).unread = unread := by
  unfold decodeServerpermVarcs
  split <;> rfl

end Framing

section Hop
open LoginClientDecoder LoginEncoder

/-- Equal messages; maps are equal when they have the same entries. -/
def SameMessage : LoginPacket → LoginPacket → Prop
  | .serverpermVarcChunk a, .serverpermVarcChunk b =>
    a.finished = b.finished ∧ a.varcs.entries.Perm b.varcs.entries
  | a, b => a = b

/-- The state of the decoder in which the message is due. -/
def Awaits (s : ProxyChannel) : LoginPacket → Prop
  | .lobbyLoginResponse _ =>
    s.loginState = .waitingLoginResponse ∧ ∃ request, s.packet = some (.lobbyLoginRequest request)
  | .gameLoginResponse _ =>
    s.loginState = .waitingLoginResponse ∧ ∃ request, s.packet = some (.gameLoginRequest request)
  | .serverpermVarcChunk _ => s.loginState = .waitingServerpermVarcs
  | _ => False

def InWireRange : LoginPacket → Prop
  | .lobbyLoginResponse msg => msg.InRange
  | .gameLoginResponse msg => msg.InRange
  | _ => True

/-- The written bytes, in front of any others, are decoded to an equal message and consumed. -/
def Survives (s : ProxyChannel) (msg : LoginPacket) (bytes : List Byte) : Prop :=
  ∀ rest, ∃ s' read, decode s (bytes ++ rest) = { state := s', unread := rest, out := [read] } ∧
    SameMessage read msg

/-- The payload fits its length, and what it carries comes back. -/
def FitsWire : LoginPacket → Prop
  | .lobbyLoginResponse msg =>
    msg.username.length + msg.defaultWorld.length ≤ 192 ∧
      ∀ c ∈ msg.username ++ msg.defaultWorld, Windows1252.Encodable c
  | .gameLoginResponse msg =>
    msg.username.length ≤ 233 ∧ ∀ c ∈ msg.username, Windows1252.Encodable c
  | .serverpermVarcChunk msg =>
    msg.varcs.entries.length ≤ 10922 ∧ ∀ entry ∈ msg.varcs.entries, entry.1.toNat < 2 ^ 16
  | _ => True

private theorem wireString_eq_iff {s : List Char} :
    wireString s = s ↔ ∀ c ∈ s, Windows1252.Encodable c := Windows1252.decode_encode_iff

/-- A response whose length wraps is not consumed whole. -/
private theorem le_of_survives {s : ProxyChannel} (hs : s.loginState = .waitingLoginResponse)
    {msg : LoginPacket} {payload : List Byte} (h : Survives s msg (byteFramed payload)) :
    payload.length ≤ 255 := by
  obtain ⟨s', read, hdecode, -⟩ := h []
  rw [decode_byteFramed hs] at hdecode
  have hunread := congrArg (fun d => d.unread.length) hdecode
  simp only [unread_decodeLoginResponse, List.append_nil, List.length_drop,
    List.length_nil] at hunread
  omega

theorem take_drop_frame {payload : List Byte} (rest : List Byte) {n : ℕ} (h : payload.length < n) :
    (payload ++ rest).take (payload.length % n) = payload ∧
      (payload ++ rest).drop (payload.length % n) = rest := by
  rw [Nat.mod_eq_of_lt h]
  exact ⟨List.take_left, List.drop_left⟩

private theorem decode_lobby {s : ProxyChannel} {msg : LobbyLoginResponse}
    (hs : Awaits s (.lobbyLoginResponse msg)) (h : msg.InRange)
    (hlen : msg.payload.length ≤ 255) (rest : List Byte) :
    decode s (byteFramed msg.payload ++ rest) =
      { state := s, unread := rest,
        out := [.lobbyLoginResponse { msg with
          username := wireString msg.username, defaultWorld := wireString msg.defaultWorld }] } := by
  obtain ⟨hstate, request, hpacket⟩ := hs
  obtain ⟨htake, hdrop⟩ := take_drop_frame rest (show msg.payload.length < 256 by omega)
  rw [decode_byteFramed hstate, htake, hdrop, decodeLoginResponse, hpacket]
  dsimp only
  rw [(reads_lobbyLoginResponse h).run]

private theorem decode_game {s : ProxyChannel} {msg : GameLoginResponse}
    (hs : Awaits s (.gameLoginResponse msg)) (h : msg.InRange)
    (hlen : msg.payload.length ≤ 255) (rest : List Byte) :
    decode s (byteFramed msg.payload ++ rest) =
      { state := { s with playerIndex := some msg.playerIndex }, unread := rest,
        out := [.gameLoginResponse { msg with username := wireString msg.username }] } := by
  obtain ⟨hstate, request, hpacket⟩ := hs
  obtain ⟨htake, hdrop⟩ := take_drop_frame rest (show msg.payload.length < 256 by omega)
  rw [decode_byteFramed hstate, htake, hdrop, decodeLoginResponse, hpacket]
  dsimp only
  rw [(reads_gameLoginResponse h).run]
  rfl

theorem survives_lobby_iff {s : ProxyChannel} {msg : LobbyLoginResponse}
    (hs : Awaits s (.lobbyLoginResponse msg)) (h : msg.InRange) :
    Survives s (.lobbyLoginResponse msg) (byteFramed msg.payload) ↔
      FitsWire (.lobbyLoginResponse msg) := by
  have hpayload := length_lobbyPayload msg
  constructor
  · intro hsurvives
    have hlen := le_of_survives hs.1 hsurvives
    obtain ⟨s', read, hdecode, hsame⟩ := hsurvives []
    rw [decode_lobby hs h hlen] at hdecode
    cases hdecode
    have hmsg := LoginPacket.lobbyLoginResponse.inj hsame
    have huser := wireString_eq_iff.mp (congrArg LobbyLoginResponse.username hmsg)
    have hworld := wireString_eq_iff.mp (congrArg LobbyLoginResponse.defaultWorld hmsg)
    refine ⟨by omega, fun c hc => ?_⟩
    exact (List.mem_append.mp hc).elim (huser c) (hworld c)
  · rintro ⟨hlen, hchars⟩ rest
    have huser : wireString msg.username = msg.username :=
      wireString_eq_iff.mpr fun c hc => hchars c (List.mem_append_left _ hc)
    have hworld : wireString msg.defaultWorld = msg.defaultWorld :=
      wireString_eq_iff.mpr fun c hc => hchars c (List.mem_append_right _ hc)
    have hdecode := decode_lobby hs h (by omega) rest
    rw [huser, hworld] at hdecode
    exact ⟨s, .lobbyLoginResponse msg, hdecode, rfl⟩

theorem survives_game_iff {s : ProxyChannel} {msg : GameLoginResponse}
    (hs : Awaits s (.gameLoginResponse msg)) (h : msg.InRange) :
    Survives s (.gameLoginResponse msg) (byteFramed msg.payload) ↔
      FitsWire (.gameLoginResponse msg) := by
  have hpayload := length_gamePayload msg
  constructor
  · intro hsurvives
    have hlen := le_of_survives hs.1 hsurvives
    obtain ⟨s', read, hdecode, hsame⟩ := hsurvives []
    rw [decode_game hs h hlen] at hdecode
    cases hdecode
    have hmsg := LoginPacket.gameLoginResponse.inj hsame
    exact ⟨by omega, wireString_eq_iff.mp (congrArg GameLoginResponse.username hmsg)⟩
  · rintro ⟨hlen, hchars⟩ rest
    have hdecode := decode_game hs h (by omega) rest
    rw [wireString_eq_iff.mpr hchars] at hdecode
    exact ⟨_, .gameLoginResponse msg, hdecode, rfl⟩

private theorem payload_eq_some {msg : ServerpermVarcChunk} {payload : List Byte}
    (h : msg.payload = some payload) :
    ∃ written, msg.varcs.entries.mapM ServerpermVarcChunk.writeVarc = some written ∧
      payload = writeByte (if msg.finished then 1 else 0) ++ written.flatten := by
  obtain ⟨written, hwritten, hpayload⟩ := Option.bind_eq_some_iff.mp h
  cases hpayload
  exact ⟨written, hwritten, rfl⟩

/-- The chunk as it comes back: keys cut to two bytes, put one after the other. -/
private def received (msg : ServerpermVarcChunk) : ServerpermVarcChunk :=
  ⟨msg.finished, msg.varcs.entries.foldl putLow VarcMap.empty⟩

private theorem read_varcs {msg : ServerpermVarcChunk} {payload : List Byte}
    (h : msg.payload = some payload) :
    readServerpermVarcChunk payload.length payload = some (received msg, []) := by
  obtain ⟨written, hwritten, rfl⟩ := payload_eq_some h
  have hlen := length_written hwritten
  have hsmall : (if msg.finished then 1 else 0 : Word).toNat < 2 ^ 8 := by
    cases msg.finished <;> decide
  have hflag : decide ((if msg.finished then 1 else 0 : Word) = 1) = msg.finished := by
    cases msg.finished <;> rfl
  have hread := reads_unsignedByte hsmall written.flatten
  have hvarcs := readVarcs_written hwritten VarcMap.empty
    (n := (writeByte (if msg.finished then 1 else 0) ++ written.flatten).length)
    (by rw [List.length_append, hlen]; omega)
  rw [readServerpermVarcChunk, Reader.bind_apply, hread, Option.bind_some, Reader.bind_apply, hvarcs,
    Option.bind_some, Reader.pure_apply, hflag]
  rfl

private theorem decode_varcs {s : ProxyChannel} {msg : ServerpermVarcChunk} {payload : List Byte}
    (hs : s.loginState = .waitingServerpermVarcs) (h : msg.payload = some payload)
    (hlen : payload.length ≤ 65535) (rest : List Byte) :
    decode s (shortFramed payload ++ rest) =
      { state := s, unread := rest, out := [.serverpermVarcChunk (received msg)] } := by
  obtain ⟨htake, hdrop⟩ := take_drop_frame rest (show payload.length < 65536 by omega)
  rw [decode_shortFramed hs, htake, hdrop, decodeServerpermVarcs, read_varcs h]

theorem survives_varcs_iff {s : ProxyChannel} {msg : ServerpermVarcChunk} {payload : List Byte}
    (hs : s.loginState = .waitingServerpermVarcs) (h : msg.payload = some payload) :
    Survives s (.serverpermVarcChunk msg) (shortFramed payload) ↔
      FitsWire (.serverpermVarcChunk msg) := by
  obtain ⟨written, hwritten, hpayload⟩ := payload_eq_some h
  have hlen : payload.length = 1 + 6 * msg.varcs.entries.length := by
    rw [hpayload, List.length_append, length_writeByte, length_written hwritten]
  constructor
  · intro hsurvives
    obtain ⟨s', read, hdecode, hsame⟩ := hsurvives []
    have hshort : payload.length ≤ 65535 := by
      have hunread := hdecode
      rw [decode_shortFramed hs] at hunread
      replace hunread := congrArg (fun d => d.unread.length) hunread
      simp only [unread_decodeServerpermVarcs, List.append_nil, List.length_drop,
        List.length_nil] at hunread
      omega
    rw [decode_varcs hs h hshort] at hdecode
    cases hdecode
    refine ⟨by omega, fun entry hentry => ?_⟩
    have hempty : ∀ entry ∈ VarcMap.empty.entries, entry.1.toNat < 2 ^ 16 :=
      fun e he => absurd he List.not_mem_nil
    have hkeys := lt_of_mem_foldl msg.varcs.entries hempty
    exact hkeys entry (hsame.2.symm.subset hentry)
  · rintro ⟨hcount, hkeys⟩ rest
    have hentries : (msg.varcs.entries.foldl putLow VarcMap.empty).entries =
      VarcMap.empty.entries ++ msg.varcs.entries := foldl_putLow hkeys msg.varcs.nodup
    refine ⟨s, _, decode_varcs hs h (by omega) rest, rfl, ?_⟩
    exact List.Perm.of_eq hentries

/-- A message written without an exception survives the hop exactly when it fits. -/
theorem survives_encode_iff {exponent modulus : ℤ} {s : ProxyChannel} {msg : LoginPacket}
    {bytes : List Byte} (hs : Awaits s msg) (h : InWireRange msg)
    (hwritten : encode exponent modulus msg = some bytes) : Survives s msg bytes ↔ FitsWire msg := by
  cases msg with
  | lobbyLoginResponse msg =>
    cases hwritten
    exact survives_lobby_iff hs h
  | gameLoginResponse msg =>
    cases hwritten
    exact survives_game_iff hs h
  | serverpermVarcChunk msg =>
    obtain ⟨payload, hpayload, hbytes⟩ := Option.map_eq_some_iff.mp hwritten
    rw [← hbytes]
    exact survives_varcs_iff hs hpayload
  | sendUniqueId | lobbyLoginRequest | gameLoginRequest | loginResponse => exact hs.elim

/-- A response to a game login under a name of some length. -/
def greeting (n : ℕ) : GameLoginResponse where
  byte0 := 0
  rights := 2
  byte2 := 0
  byte3 := 0
  byte4 := 0
  byte5 := 0
  byte6 := 1
  playerIndex := 1
  byte8 := 1
  medium9 := -1
  isMember := 1
  username := List.replicate n 'a'
  short12 := 0
  int13 := 0

theorem greeting_inRange (n : ℕ) : (greeting n).InRange where
  bytes := by simp [greeting]
  playerIndex := by simp [greeting]
  medium9 := by simp [greeting]
  short12 := by simp [greeting]
  username := fun h => absurd (List.eq_of_mem_replicate h) (by decide)

/-- The channel of a proxied game login. -/
def gameLogin : ProxyChannel where
  loginState := .waitingLoginResponse
  packet := some (.gameLoginRequest
    ⟨⟨919, 1⟩, .reconnecting ⟨Vector.replicate 4 0, 0, Vector.replicate 4 0⟩, [], [], []⟩)

theorem survives_greeting_twelve :
    Survives gameLogin (.gameLoginResponse (greeting 12)) (byteFramed (greeting 12).payload) := by
  have hawaits : Awaits gameLogin (.gameLoginResponse (greeting 12)) := ⟨rfl, _, rfl⟩
  have hwritten : encode 17 3233 (.gameLoginResponse (greeting 12)) =
    some (byteFramed (greeting 12).payload) := rfl
  apply (survives_encode_iff hawaits (greeting_inRange 12) hwritten).mpr
  refine ⟨by decide, fun c hc => ?_⟩
  rw [List.eq_of_mem_replicate hc]
  exact Windows1252.encodable_of_decodeByte 0x61 (by decide) (by decide)

/-- With a name of 234 letters the payload has 256 bytes, and its length is written as zero. -/
theorem not_survives_greeting_234 :
    Awaits gameLogin (.gameLoginResponse (greeting 234)) ∧
      InWireRange (.gameLoginResponse (greeting 234)) ∧
      encode 17 3233 (.gameLoginResponse (greeting 234)) =
        some (byteFramed (greeting 234).payload) ∧
      ¬ Survives gameLogin (.gameLoginResponse (greeting 234))
        (byteFramed (greeting 234).payload) := by
  refine ⟨⟨rfl, _, rfl⟩, greeting_inRange 234, rfl, fun hsurvives => ?_⟩
  have hlen := le_of_survives rfl hsurvives
  have hname : (greeting 234).username.length = 234 := List.length_replicate
  rw [length_gamePayload, hname] at hlen
  omega

end Hop

end OpenNXT.Net.Proxy
