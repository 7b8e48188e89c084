import OpenNXT.Decoding.Conversation
import OpenNXT.Net.Js5Packet

/-! The server's decoder of a JS5 connection. -/
namespace OpenNXT.Net
open Buffer Ext Decoding Js5PacketCodec

/-- What a call of `decode` does with the bytes: a packet for the session, or a relay to the retail
server. -/
inductive Js5Event
  | packet (packet : Js5Packet)
  | forwarded (bytes : List Byte)
  deriving DecidableEq

/-- The decoder, and what it uses of its session and its channel. -/
structure Js5Connection where
  handshakeDecoded : Bool := false
  retailLoggedOutProxy : Bool := false
  initialized : Bool := false
  closed : Bool := false
  deriving DecidableEq

namespace Js5Connection

/-- The session closes its channel. -/
def close (s : Js5Connection) : Js5Connection :=
  { s with initialized := false, retailLoggedOutProxy := false, closed := true }

/-- A session that is initialized twice is terminated. -/
def initializeSession (s : Js5Connection) : Js5Connection :=
  if s.initialized then s.close else { s with initialized := true }

end Js5Connection

namespace Js5Decoder

def readHandshake : Reader Js5Packet := do
  let build ← readBuild
  let token ← readString
  let language ← readUnsignedByte
  return .handshake build.major build.minor token language

/-- A handshake is read once as many bytes as it declares are there. An underflow has read all there
was. -/
def decodeHandshake (s : Js5Connection) (buf : List Byte) : Decoded Js5Connection Byte Js5Event :=
  match readUnsignedByte buf with
  | none => { state := s, unread := buf, thrown := true }
  | some (size, rest) =>
    if size.toNat ≤ 10 then { state := { s with closed := true }, unread := [] }
    else if rest.length < size.toNat then { state := s, unread := buf }
    else
      match readHandshake rest with
      | none => { state := s, unread := [], thrown := true }
      | some (packet, unread) =>
        { state := { s with handshakeDecoded := true }, unread := unread, out := [.packet packet] }

/-- The reader of a packet; an unknown opcode has none. -/
def codec (opcode : Word) : Option (Reader Js5Packet) :=
  if opcode ∈ RequestFile.opcodes then some (RequestFile.decode opcode)
  else if opcode = ConnectionInitialized.opcode then some ConnectionInitialized.decode
  else if opcode = RequestTermination.opcode then some RequestTermination.decode
  else if opcode = XorRequest.opcode then some XorRequest.decode
  else if opcode = LoggedIn.opcode then some LoggedIn.decode
  else if opcode = LoggedOut.opcode then some LoggedOut.decode
  else none

/-- The session is told of a packet. A user who is logged out may be handed on to the retail server,
with the bytes that have come after. -/
def received (activates : Word → Bool) (s : Js5Connection) (packet : Js5Packet)
    (unread : List Byte) : Decoded Js5Connection Byte Js5Event :=
  match packet with
  | .connectionInitialized _ _ =>
    { state := s.initializeSession, unread := unread, out := [.packet packet] }
  | .requestTermination _ => { state := s.close, unread := unread, out := [.packet packet] }
  | .loggedOut build =>
    if activates build then
      { state := { s with retailLoggedOutProxy := true }, unread := [],
        out := .packet packet :: if unread = [] then [] else [.forwarded unread] }
    else { state := s, unread := unread, out := [.packet packet] }
  | _ => { state := s, unread := unread, out := [.packet packet] }

/-- Every packet after the handshake has ten bytes. -/
def decodePacket (activates : Word → Bool) (s : Js5Connection) (buf : List Byte) :
    Decoded Js5Connection Byte Js5Event :=
  if buf.length < 10 then { state := s, unread := buf }
  else
    match readUnsignedByte buf with
    | none => { state := s, unread := buf, thrown := true }
    | some (opcode, rest) =>
      match codec opcode with
      | none => { state := s, unread := rest.drop (min 9 rest.length) }
      | some read =>
        match read rest with
        | none => { state := s, unread := [], thrown := true }
        | some (packet, unread) => received activates s packet unread

/-- `activates` says of a build whether a user who is logged out goes to the retail server. -/
def decode (activates : Word → Bool) (s : Js5Connection) (buf : List Byte) :
    Decoded Js5Connection Byte Js5Event :=
  if s.retailLoggedOutProxy then { state := s, unread := [], out := [.forwarded buf] }
  else if s.handshakeDecoded then decodePacket activates s buf
  else decodeHandshake s buf

theorem shortens_string : Shortens readString := by
  refine Shortens.bind ?_ fun _ => .pure _
  intro bs v rest h
  rw [readUntilZero_eq] at h
  split_ifs at h
  cases h
  rw [List.length_drop]
  omega

theorem shortens_handshake : Shortens readHandshake :=
  ((Shortens.word 4).bind fun _ => (Shortens.word 4).bind fun _ => .pure _).bind fun _ =>
    shortens_string.bind fun _ => (Shortens.unsigned 1).bind fun _ => .pure _

theorem shortens_codec {opcode : Word} {read : Reader Js5Packet} (h : codec opcode = some read) :
    Shortens read := by
  unfold codec at h
  split_ifs at h <;> cases h
  · exact shortens_requestFile opcode
  · exact shortens_connectionInitialized
  · exact shortens_build _
  · exact shortens_xorRequest
  · exact shortens_build _
  · exact shortens_build _

theorem length_received (activates : Word → Bool) (s : Js5Connection) (packet : Js5Packet)
    (unread : List Byte) : (received activates s packet unread).unread.length ≤ unread.length := by
  cases packet with
  | loggedOut build =>
    rw [received]
    by_cases h : activates build = true
    · rw [if_pos h]
      exact Nat.zero_le _
    · rw [if_neg h]
  | _ => exact Nat.le_refl unread.length

theorem length_decode (activates : Word → Bool) (s : Js5Connection) (buf : List Byte) :
    (decode activates s buf).unread.length ≤ buf.length := by
  unfold decode
  split_ifs
  · exact Nat.zero_le _
  · unfold decodePacket
    split_ifs
    · exact le_rfl
    · cases hopcode : readUnsignedByte buf with
      | none => exact le_rfl
      | some p =>
        have hone := length_readUnsigned hopcode
        cases hcodec : codec p.1 with
        | none =>
          simp only [hcodec, List.length_drop]
          omega
        | some read =>
          cases hread : read p.2 with
          | none =>
            simp only [hcodec, hread]
            exact Nat.zero_le _
          | some q =>
            have hrest := shortens_codec hcodec _ _ _ hread
            have hreceived := length_received activates s q.1 q.2
            simp only [hcodec, hread]
            omega
  · unfold decodeHandshake
    cases hsize : readUnsignedByte buf with
    | none => exact le_rfl
    | some p =>
      have hone := length_readUnsigned hsize
      simp only
      split_ifs
      · exact Nat.zero_le _
      · exact le_rfl
      · cases hread : readHandshake p.2 with
        | none => exact Nat.zero_le _
        | some q =>
          have hrest := shortens_handshake _ _ _ hread
          simp only
          omega

end Js5Decoder

/-- What is thrown is logged. -/
def js5Decoder (activates : Word → Bool) : Decoder Js5Connection Byte Js5Event where
  decode := Js5Decoder.decode activates
  exceptionCaught s := s
  isOpen s := !s.closed
  decode_le := Js5Decoder.length_decode activates

section Stream
open Js5Decoder

/-- A packet that may follow the handshake, with fields as wide as they are on the wire. -/
def Js5Packet.Follows : Js5Packet → Prop
  | .connectionInitialized value build =>
    (-2 ^ 23 ≤ value.toInt ∧ value.toInt < 2 ^ 23) ∧ build.toNat < 2 ^ 16
  | .loggedIn build => build.toNat < 2 ^ 16
  | .loggedOut build => build.toNat < 2 ^ 16
  | .requestFile _ index _ build _ => index.toNat < 2 ^ 8 ∧ build.toNat < 2 ^ 16
  | _ => False

def Js5Packet.isConnectionInitialized : Js5Packet → Bool
  | .connectionInitialized _ _ => true
  | _ => false

/-- A packet tells the session no more than that it is initialized. -/
def Js5Connection.after (s : Js5Connection) (p : Js5Packet) : Js5Connection :=
  if p.isConnectionInitialized then s.initializeSession else s

variable {activates : Word → Bool} {s : Js5Connection}

/-- The opcode and the nine bytes of a packet. -/
private theorem encode_follows {p : Js5Packet} (hp : p.Follows) :
    ∃ opcode read fields, opcode.toNat < 2 ^ 8 ∧
      Js5ClientEncoder.encode p = some (writeByte opcode ++ fields) ∧ fields.length = 9 ∧
      codec opcode = some read ∧ Reads read fields p := by
  cases p with
  | connectionInitialized value build =>
    exact ⟨6, _, _, by decide, rfl, by simp [ConnectionInitialized.encode], rfl,
      reads_connectionInitialized hp.1 hp.2⟩
  | loggedIn build =>
    exact ⟨2, _, _, by decide, rfl, by simp [LoggedIn.encode, encodeBuild], rfl, reads_build _ hp⟩
  | loggedOut build =>
    exact ⟨3, _, _, by decide, rfl, by simp [LoggedOut.encode, encodeBuild], rfl, reads_build _ hp⟩
  | requestFile priority index archive build nxt =>
    have hfields : (RequestFile.encode index archive build).length = 9 := by
      simp [RequestFile.encode]
    cases priority <;> cases nxt
    · exact ⟨0, _, _, by decide, rfl, hfields, rfl, reads_requestFile 0 archive hp.1 hp.2⟩
    · exact ⟨32, _, _, by decide, rfl, hfields, rfl, reads_requestFile 32 archive hp.1 hp.2⟩
    · exact ⟨1, _, _, by decide, rfl, hfields, rfl, reads_requestFile 1 archive hp.1 hp.2⟩
    · exact ⟨33, _, _, by decide, rfl, hfields, rfl, reads_requestFile 33 archive hp.1 hp.2⟩
  | requestTermination _ => exact hp.elim
  | handshake _ _ _ _ => exact hp.elim
  | xorRequest _ => exact hp.elim

theorem takes_follows {p : Js5Packet} (hp : p.Follows) (hs : s.handshakeDecoded = true)
    (hproxy : s.retailLoggedOutProxy = false)
    (hactivates : ∀ build, p = .loggedOut build → activates build = false) :
    ∃ bytes, Js5ClientEncoder.encode p = some bytes ∧
      (js5Decoder activates).Takes s bytes (s.after p) [.packet p] := by
  obtain ⟨opcode, read, fields, hopcode, hencode, hfields, hcodec, hread⟩ := encode_follows hp
  have hlen : (writeByte opcode ++ fields).length = 10 := by simp [hfields]
  have hdecode : ∀ buf, (js5Decoder activates).decode s buf = decodePacket activates s buf := by
    intro buf
    change decode activates s buf = _
    rw [decode, hproxy, if_neg Bool.false_ne_true, if_pos hs]
  refine ⟨_, hencode, ?_, ?_, ?_⟩
  · intro hnil
    rw [hnil] at hlen
    cases hlen
  · intro front back happend _ hback
    have hpos := List.length_pos_iff.mpr hback
    have hsum := congrArg List.length happend
    rw [List.length_append, hlen] at hsum
    rw [hdecode, decodePacket, if_pos (by omega)]
  · intro rest
    have hfirst := reads_unsignedByte hopcode (fields ++ rest)
    rw [hdecode, decodePacket, if_neg (by rw [List.length_append, hlen]; omega), List.append_assoc,
      hfirst]
    simp only [hcodec, hread rest]
    cases p with
    | loggedOut build =>
      rw [received, if_neg (by simp [hactivates build rfl])]
      rfl
    | requestTermination _ => exact hp.elim
    | handshake _ _ _ _ => exact hp.elim
    | xorRequest _ => exact hp.elim
    | _ => rfl

/-- The build, the token with its zero byte, and the language. -/
private theorem reads_handshake (major minor : Word) {token : List Char} {language : Word}
    (htoken : token.all Windows1252.isAscii) (hlanguage : language.toNat < 2 ^ 8) :
    Reads readHandshake
      (writeInt major ++ (writeInt minor ++
        (Windows1252.encodeAscii token ++ (writeByte 0 ++ writeByte language))))
      (.handshake major minor token language) := by
  have hbuild : Reads readBuild (writeInt major ++ writeInt minor) ⟨major, minor⟩ :=
    Reads.bind (reads_int major) ((reads_int minor).map (Build.mk major))
  have hstring : Reads readString (Windows1252.encodeAscii token ++ [0]) token := by
    have hread := (reads_untilZero (Windows1252.zero_notMem_encodeAscii htoken)).map
      Windows1252.decode
    rwa [Windows1252.decode_encodeAscii htoken] at hread
  have hread : Reads readHandshake ((writeInt major ++ writeInt minor) ++
      ((Windows1252.encodeAscii token ++ [0]) ++ writeByte language))
      (.handshake major minor token language) :=
    hbuild.bind <| hstring.bind <|
      (reads_unsignedByte hlanguage).map fun language =>
        Js5Packet.handshake major minor token language
  rw [List.append_assoc, List.append_assoc] at hread
  exact hread

theorem takes_handshake (major minor : Word) {token : List Char} {language : Word}
    (hs : s.handshakeDecoded = false) (hproxy : s.retailLoggedOutProxy = false)
    (htoken : token.all Windows1252.isAscii) (hpos : 1 ≤ token.length)
    (hmax : token.length ≤ 245) (hlanguage : language.toNat < 2 ^ 8) :
    (js5Decoder activates).Takes s (Handshake.encode major minor token language)
      { s with handshakeDecoded := true } [.packet (.handshake major minor token language)] := by
  have hread := reads_handshake major minor htoken hlanguage
  have hdecode : ∀ buf, (js5Decoder activates).decode s buf = decodeHandshake s buf := by
    intro buf
    change decode activates s buf = _
    rw [decode, hproxy, hs, if_neg Bool.false_ne_true, if_neg Bool.false_ne_true]
  simp only [Handshake.encode, Windows1252.length_encodeAscii]
  generalize hbody : writeInt major ++ (writeInt minor ++
    (Windows1252.encodeAscii token ++ (writeByte 0 ++ writeByte language))) = body at hread ⊢
  have hlen : body.length = token.length + 10 := by
    rw [← hbody]
    simp
    omega
  generalize hsize : BitVec.ofNat 32 (4 + 4 + token.length + 1 + 1) = size
  have hnat : size.toNat = token.length + 10 := by
    rw [← hsize, BitVec.toNat_ofNat]
    omega
  have hfirst : ∀ rest, readUnsignedByte (writeByte size ++ rest) = some (size, rest) :=
    reads_unsignedByte (by omega)
  refine ⟨?_, ?_, ?_⟩
  · intro hnil
    have hzero := congrArg List.length hnil
    simp at hzero
  · intro front back happend hfront hback
    -- The size has arrived, and not all it declares.
    obtain ⟨more, rfl, hmore⟩ : ∃ more, front = writeByte size ++ more ∧ more ++ back = body := by
      rcases List.append_eq_append_iff.mp happend with ⟨q, hq, hrest⟩ | ⟨q, hq, hrest⟩
      · have hone := congrArg List.length hq
        have hge := List.length_pos_iff.mpr hfront
        rw [length_writeByte, List.length_append] at hone
        have hnil : q = [] := List.length_eq_zero_iff.mp (by omega)
        subst hnil
        exact ⟨[], by rw [List.append_nil, hq, List.append_nil], hrest⟩
      · exact ⟨q, hq, hrest.symm⟩
    have hge := List.length_pos_iff.mpr hback
    have hsum := congrArg List.length hmore
    rw [List.length_append] at hsum
    rw [hdecode, decodeHandshake, hfirst]
    simp only
    rw [if_neg (by omega), if_pos (by omega)]
  · intro rest
    rw [hdecode, decodeHandshake, List.append_assoc, hfirst]
    simp only
    rw [if_neg (by omega), if_neg (by rw [List.length_append]; omega), hread rest]

theorem handshakeDecoded_after (p : Js5Packet) :
    (s.after p).handshakeDecoded = s.handshakeDecoded := by
  unfold Js5Connection.after Js5Connection.initializeSession
  split_ifs <;> rfl

theorem retailLoggedOutProxy_after (p : Js5Packet) (h : s.retailLoggedOutProxy = false) :
    (s.after p).retailLoggedOutProxy = false := by
  unfold Js5Connection.after Js5Connection.initializeSession
  split_ifs
  · rfl
  · exact h
  · exact h

/-- The packets after a handshake. The channel stays open where the session is initialized once. -/
theorem conversation_follows (once : Prop) (ps : List Js5Packet)
    (hps : ∀ p ∈ ps, p.Follows) (hactivates : ∀ build, .loggedOut build ∈ ps → activates build = false)
    (hs : s.handshakeDecoded = true) (hproxy : s.retailLoggedOutProxy = false)
    (hopen : once → s.closed = false)
    (hcount : once → ps.countP (·.isConnectionInitialized) + s.initialized.toNat ≤ 1) :
    ∃ bytes s', Js5ClientEncoder.encodeAll ps = some bytes ∧
      (js5Decoder activates).Conversation (fun s => once → s.closed = false) s bytes s'
        (ps.map .packet) := by
  induction ps generalizing s with
  | nil => exact ⟨[], s, rfl, .nil s⟩
  | cons p ps ih =>
    obtain ⟨bytes, hencode, htakes⟩ := takes_follows (hps p (List.mem_cons_self ..)) hs hproxy
      fun build hp => hactivates build (hp ▸ List.mem_cons_self ..)
    have hafter : once → (s.after p).closed = false ∧
        ps.countP (·.isConnectionInitialized) + (s.after p).initialized.toNat ≤ 1 := by
      intro honce
      have hclosed := hopen honce
      have htotal := hcount honce
      rw [List.countP_cons] at htotal
      unfold Js5Connection.after Js5Connection.initializeSession
      cases hinit : s.initialized <;> cases hp : p.isConnectionInitialized <;>
        simp_all
    obtain ⟨rest, s', hrest, hconv⟩ := ih (fun q hq => hps q (List.mem_cons_of_mem p hq))
      (fun build hq => hactivates build (List.mem_cons_of_mem p hq))
      ((handshakeDecoded_after p).trans hs) (retailLoggedOutProxy_after p hproxy)
      (fun honce => (hafter honce).1) fun honce => (hafter honce).2
    exact ⟨bytes ++ rest, s', Js5ClientEncoder.encodeAll_cons hencode hrest,
      .cons hopen htakes hconv⟩

/-- A client's stream is decoded to its packets in whatever chunks it arrives. -/
theorem hand_encodeAll (activates : Word → Bool) (major minor language : Word) (token : List Char)
    (ps : List Js5Packet) (htoken : token.all Windows1252.isAscii)
    (hlength : 1 ≤ token.length ∧ token.length ≤ 245) (hlanguage : language.toNat < 2 ^ 8)
    (hps : ∀ p ∈ ps, p.Follows)
    (hactivates : ∀ build, .loggedOut build ∈ ps → activates build = false) :
    ∃ bytes, Js5ClientEncoder.encodeAll (.handshake major minor token language :: ps) =
        some (writeByte HandshakeType.js5 ++ bytes) ∧
      ∀ chunks : List (List Byte), chunks.flatten = bytes →
        (∃ s, (js5Decoder activates).hand { state := {}, unread := [] } chunks =
          { state := s, unread := [],
            out := (.handshake major minor token language :: ps).map .packet }) ∧
        (ps.countP (·.isConnectionInitialized) ≤ 1 →
          (js5Decoder activates).feed { state := {}, unread := [] } chunks =
            (js5Decoder activates).hand { state := {}, unread := [] } chunks) := by
  let start : Js5Connection := { handshakeDecoded := true }
  obtain ⟨rest, s, hrest, hconv⟩ :=
    conversation_follows (s := start) (ps.countP (·.isConnectionInitialized) ≤ 1) ps hps hactivates
      rfl rfl (fun _ => rfl) id
  have htakes : (js5Decoder activates).Takes {} (Handshake.encode major minor token language) start
      [.packet (.handshake major minor token language)] :=
    takes_handshake major minor rfl rfl htoken hlength.1 hlength.2 hlanguage
  have hall := Decoder.Conversation.cons (fun _ => rfl) htakes hconv
  refine ⟨Handshake.encode major minor token language ++ rest, ?_, ?_⟩
  · rw [← List.append_assoc]
    exact Js5ClientEncoder.encodeAll_cons rfl hrest
  · intro chunks hchunks
    have hstream := hall
    rw [← hchunks, ← List.nil_append chunks.flatten] at hstream
    refine ⟨⟨s, ?_⟩, ?_⟩
    · exact hstream.hand_append fun _ => rfl
    · intro honce
      exact (hstream.mono fun t ht => by simp [js5Decoder, ht honce]).feed_eq_hand

end Stream

/-- A stream with a short token and a request. -/
theorem hand_encodeAll_request :
    ∃ bytes, Js5ClientEncoder.encodeAll
        [.handshake 947 1 ['t'] 0, .connectionInitialized 5 947, .requestFile true 255 255 947 true] =
        some (writeByte HandshakeType.js5 ++ bytes) ∧
      ∀ chunks : List (List Byte), chunks.flatten = bytes →
        (∃ s, (js5Decoder fun _ => false).hand { state := {}, unread := [] } chunks =
          { state := s, unread := [],
            out := [.packet (.handshake 947 1 ['t'] 0), .packet (.connectionInitialized 5 947),
              .packet (.requestFile true 255 255 947 true)] }) ∧
        (1 ≤ 1 → (js5Decoder fun _ => false).feed { state := {}, unread := [] } chunks =
          (js5Decoder fun _ => false).hand { state := {}, unread := [] } chunks) := by
  apply hand_encodeAll (fun _ => false) 947 1 0 ['t']
    [.connectionInitialized 5 947, .requestFile true 255 255 947 true] rfl ⟨le_rfl, by decide⟩
    (by decide)
  · intro p hp
    rcases List.mem_cons.mp hp with rfl | hp
    · exact ⟨by decide, by decide⟩
    · rw [List.mem_singleton.mp hp]
      exact ⟨by decide, by decide⟩
  · exact fun _ _ => rfl

section HandshakeSize
open Js5Decoder

/-- The bytes of a handshake end one after the first zero byte of its token. -/
private theorem readHandshake_eq (bs : List Byte) (h : 8 ≤ bs.length) :
    ((bs.drop 8).idxOf 0 + 10 ≤ bs.length → ∃ major minor token language, readHandshake bs =
      some (.handshake major minor token language, bs.drop ((bs.drop 8).idxOf 0 + 10))) ∧
    (¬ (bs.drop 8).idxOf 0 + 10 ≤ bs.length → readHandshake bs = none) := by
  have hbuild : ∃ build, readBuild bs = some (build, bs.drop 8) := by
    refine ⟨⟨BitVec.ofNat 32 (ofBytes (bs.take 4)),
      BitVec.ofNat 32 (ofBytes ((bs.drop 4).take 4))⟩, ?_⟩
    rw [readBuild, Reader.bind_apply, readInt, Reader.word_eq (by omega), Option.bind_some,
      Reader.bind_apply, Reader.word_eq (by rw [List.length_drop]; omega), List.drop_drop]
    rfl
  obtain ⟨build, hbuild⟩ := hbuild
  have hlen : (bs.drop 8).length = bs.length - 8 := List.length_drop
  generalize hk : (bs.drop 8).idxOf 0 = k
  have hmem : (0 : Byte) ∈ bs.drop 8 ↔ k < bs.length - 8 := by
    rw [← hk, ← hlen, List.idxOf_lt_length_iff]
  rw [readHandshake, Reader.bind_apply, hbuild, Option.bind_some, Reader.bind_apply, readString,
    Reader.bind_apply, readUntilZero_eq, hk]
  constructor
  · intro hle
    rw [if_pos (hmem.mpr (by omega)), Option.bind_some, Reader.pure_apply, Option.bind_some,
      List.drop_drop, Reader.bind_apply, readUnsignedByte, readUnsigned, Reader.bind_apply,
      Reader.word_eq (by rw [List.length_drop]; omega), List.drop_drop]
    rw [show 8 + (k + 1) + 1 = k + 10 by omega]
    exact ⟨build.major, build.minor, Windows1252.decode ((bs.drop 8).take k),
      (BitVec.ofNat 8 (ofBytes ((bs.drop (8 + (k + 1))).take 1))).setWidth 32, rfl⟩
  · intro hgt
    by_cases hzero : (0 : Byte) ∈ bs.drop 8
    · have hnone : readUnsignedByte (bs.drop (8 + (k + 1))) = none :=
        readUnsigned_eq_none (by rw [List.length_drop]; have := hmem.mp hzero; omega)
      rw [if_pos hzero, Option.bind_some, Reader.pure_apply, Option.bind_some, List.drop_drop,
        Reader.bind_apply, hnone]
      rfl
    · rw [if_neg hzero]
      rfl

/-- The connection is rejected, or exactly the declared bytes are read for one handshake. -/
def HonoursSize (activates : Word → Bool) (s : Js5Connection) (size : Byte) (rest : List Byte) :
    Prop :=
  (decode activates s (size :: rest)).state.closed = true ∨
    ((decode activates s (size :: rest)).thrown = false ∧
      (decode activates s (size :: rest)).unread = rest.drop size.toNat ∧
      ∃ major minor token language, (decode activates s (size :: rest)).out =
        [.packet (.handshake major minor token language)])

/-- The size is honoured just where the first zero byte after the build stands before the last
declared byte. -/
theorem honoursSize_iff (activates : Word → Bool) (s : Js5Connection) (size : Byte)
    (rest : List Byte) (hs : s.handshakeDecoded = false) (hproxy : s.retailLoggedOutProxy = false)
    (hopen : s.closed = false) (hsize : 10 < size.toNat) (hrest : size.toNat ≤ rest.length) :
    HonoursSize activates s size rest ↔ (rest.drop 8).idxOf 0 = size.toNat - 10 := by
  have hnat : (size.setWidth 32).toNat = size.toNat := by
    have := size.isLt
    rw [BitVec.toNat_setWidth]
    omega
  have hfirst : readUnsignedByte (size :: rest) = some (size.setWidth 32, rest) :=
    (Reads.byte size).map (BitVec.setWidth 32) rest
  have hdecode : decode activates s (size :: rest) = decodeHandshake s (size :: rest) := by
    rw [decode, if_neg (by simp [hproxy]), if_neg (by simp [hs])]
  rw [decodeHandshake, hfirst] at hdecode
  simp only [hnat] at hdecode
  rw [if_neg (by omega), if_neg (by omega)] at hdecode
  obtain ⟨hsome, hnone⟩ := readHandshake_eq rest (by omega)
  unfold HonoursSize
  by_cases hend : (rest.drop 8).idxOf 0 + 10 ≤ rest.length
  · obtain ⟨major, minor, token, language, hread⟩ := hsome hend
    rw [hread] at hdecode
    simp only [hdecode]
    constructor
    · rintro (hclosed | ⟨-, hunread, -⟩)
      · rw [hopen] at hclosed
        cases hclosed
      · have hlen := congrArg List.length hunread
        rw [List.length_drop, List.length_drop] at hlen
        omega
    · intro hzero
      refine .inr ⟨trivial, ?_, major, minor, token, language, rfl⟩
      rw [hzero, Nat.sub_add_cancel hsize.le]
  · rw [hnone hend] at hdecode
    simp only [hdecode]
    constructor
    · rintro (hclosed | ⟨hthrown, -⟩)
      · rw [hopen] at hclosed
        cases hclosed
      · cases hthrown
    · intro hzero
      omega

/-- A token that is closed inside the declared bytes, by the byte before the language. -/
theorem honoursSize_short : HonoursSize (fun _ => false) {} 11 [0, 0, 3, 179, 0, 0, 0, 1, 116, 0, 0] :=
  (honoursSize_iff (fun _ => false) {} 11 [0, 0, 3, 179, 0, 0, 0, 1, 116, 0, 0] rfl rfl rfl
    (by decide) (by decide)).mpr (by decide)

/-- Eleven bytes are declared and there, and none of them ends the token: `decode` throws. -/
theorem not_honoursSize_unterminated :
    ¬ HonoursSize (fun _ => false) {} 11 [0, 0, 3, 179, 0, 0, 0, 1, 116, 116, 116] := by
  rintro (hclosed | ⟨hthrown, -⟩)
  · revert hclosed
    decide
  · revert hthrown
    decide

end HandshakeSize

end OpenNXT.Net
