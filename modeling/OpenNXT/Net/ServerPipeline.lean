import OpenNXT.Data.Latin1
import OpenNXT.Data.Lines
import OpenNXT.Net.Js5Decoder
import OpenNXT.Net.Login.LoginServerDecoder
import OpenNXT.Net.TransportSniffer.TlsClientHello

/-! A connection to the server from its first byte on: plain or behind TLS, then a handshake that
puts the decoder of its kind in place of its own. -/
namespace OpenNXT.Net.ServerPipeline
open Buffer Ext Decoding Data TransportSniffer

inductive HandshakeType
  | login
  | loginAlt
  | js5
  deriving DecidableEq

namespace HandshakeType

def id : HandshakeType → ℕ
  | login => 14
  | loginAlt => 22
  | js5 => 15

def values : List HandshakeType := [login, loginAlt, js5]

def fromId (id : ℕ) : Option HandshakeType := values.find? fun type => type.id = id

end HandshakeType

inductive ServerEvent
  /-- A ClientHello is logged. -/
  | clientHello (hello : Option TlsClientHelloInfo)
  | js5 (event : Js5Event)
  | login (event : LoginEvent)
  | written (bytes : List Byte)
  /-- A report is kept. -/
  | clientErrorReport (httpText : List Byte)
  /-- A request is handed to the thread that asks the content server. -/
  | proxied (httpText : List Byte)

/-- The handlers behind the transport, with what is unread in the decoder among them. -/
inductive Phase
  | handshaking
  | js5 (state : Js5Connection) (unread : List Byte)
  | login (state : LoginChannel) (unread : List Byte)

structure Served where
  phase : Phase := .handshaking
  /-- Closed before a decoder was chosen. -/
  closed : Bool := false
  out : List ServerEvent := []

def Served.isOpen (s : Served) : Bool :=
  !s.closed &&
    match s.phase with
    | .handshaking => true
    | .js5 state _ => !state.closed
    | .login state _ => state.isOpen

/-- What the server knows of the remote side: the unique id of its host, and what the last lobby
login of the host left. -/
structure Remote where
  uniqueId : Long
  snapshot : Option LobbySnapshot := none

/-- What a pipeline is set up with. -/
structure Setup where
  activates : Word → Bool
  rsaConfig : RsaKeyPair
  remote : Remote

namespace HandshakeHandler

def buildSuccessfulLoginHandshakeBytes (uniqueId : Long) : List Byte :=
  writeByte GenericResponse.successfulConnection.id ++ writeLong uniqueId

/-- The decoders are replaced, and the new one reads what the old one left. A login is answered
behind that, unless its channel has been closed by then. -/
def channelRead0 (cfg : Setup) (s : Served) (type : HandshakeType) (rest : List Byte) : Served :=
  match type with
  | .js5 =>
    let c := (js5Decoder cfg.activates).channelRead { state := {}, unread := [] } rest
    { s with phase := .js5 c.state c.unread, out := s.out ++ c.out.map .js5 }
  | .login | .loginAlt =>
    let start : LoginChannel :=
      { loginUniqueId := some cfg.remote.uniqueId, snapshot := cfg.remote.snapshot }
    let c := (loginServerDecoder cfg.rsaConfig).channelRead { state := start, unread := [] } rest
    let answer :=
      if c.state.isOpen then
        [ServerEvent.written (buildSuccessfulLoginHandshakeBytes cfg.remote.uniqueId)]
      else []
    { s with phase := .login c.state c.unread, out := s.out ++ (c.out.map .login ++ answer) }

end HandshakeHandler

namespace HandshakeDecoder

/-- The blanks of `trim` among the first 256 code points. -/
def isWhitespace (b : Byte) : Bool :=
  let n := b.toNat
  (0x09 ≤ n && n ≤ 0x0d) || (0x1c ≤ n && n ≤ 0x20) || n = 0xa0

def trim (line : List Byte) : List Byte :=
  ((line.dropWhile isWhitespace).reverse.dropWhile isWhitespace).reverse

/-- The second part of the first line. -/
def extractHttpRequestTarget (httpText : List Byte) : Option (List Byte) :=
  let requestLine := trim (httpText.takeWhile fun b => b ≠ 0x0d ∧ b ≠ 0x0a)
  if requestLine = [] then none
  else
    match requestLine.dropWhile (· ≠ 0x20) with
    | [] => none
    | _ :: rest => some (rest.takeWhile (· ≠ 0x20))

def shouldProxyMsHttpRequest (httpText : List Byte) : Bool :=
  match extractHttpRequestTarget httpText with
  | none => false
  | some target => (Latin1.bytes ['/', 'm', 's', '?']).isPrefixOf target

def isHttp (methodPrefix : List Byte) : Bool :=
  (Latin1.bytes ['P', 'O', 'S', 'T', ' ']).isPrefixOf methodPrefix ||
    (Latin1.bytes ['G', 'E', 'T', ' ']).isPrefixOf methodPrefix ||
    (Latin1.bytes ['H', 'T', 'T', 'P', '/']).isPrefixOf methodPrefix

def clientErrorPath : List Byte :=
  Latin1.bytes ['/', 'n', 'x', 't', 'c', 'l', 'i', 'e', 'n', 't', 'e', 'r', 'r', 'o', 'r', '.', 'w',
    's']

/-- `sendRawNoContent` -/
def noContent : List Byte :=
  Latin1.bytes (['H', 'T', 'T', 'P', '/', '1', '.', '1', ' ', '2', '0', '4', ' ', 'N', 'o', ' ',
    'C', 'o', 'n', 't', 'e', 'n', 't', '\r', '\n', 'C', 'o', 'n', 'n', 'e', 'c', 't', 'i', 'o', 'n',
    ':', ' ', 'c', 'l', 'o', 's', 'e', '\r', '\n', 'C', 'o', 'n', 't', 'e', 'n', 't', '-', 'L', 'e',
    'n', 'g', 't', 'h', ':', ' ', '0', '\r', '\n', '\r', '\n'])

/-- All that has come with an unknown id is skipped. The channel stays open for the answer of the
content server. -/
def unknownId (s : Served) (id : Byte) (rest : List Byte) : Served :=
  let httpText := (id :: rest).take 4096
  if isHttp (id :: rest.take 32) then
    if findSub clientErrorPath httpText ≠ none then
      { s with
        closed := true
        out := s.out ++ [.clientErrorReport httpText, .written noContent] }
    else if shouldProxyMsHttpRequest httpText then { s with out := s.out ++ [.proxied httpText] }
    else { s with closed := true }
  else { s with closed := true }

/-- One call, for one id; nothing is unread behind it. -/
def channelRead (cfg : Setup) (s : Served) : List Byte → Served
  | [] => s
  | id :: rest =>
    match HandshakeType.fromId id.toNat with
    | some type => HandshakeHandler.channelRead0 cfg s type rest
    | none => unknownId s id rest

end HandshakeDecoder

/-- Plain bytes reach the handlers behind the transport. -/
def Served.deliver (cfg : Setup) (s : Served) (chunk : List Byte) : Served :=
  if s.isOpen then
    match s.phase with
    | .handshaking => HandshakeDecoder.channelRead cfg s chunk
    | .js5 state unread =>
      let c := (js5Decoder cfg.activates).channelRead { state := state, unread := unread } chunk
      { s with phase := .js5 c.state c.unread, out := s.out ++ c.out.map .js5 }
    | .login state unread =>
      let c := (loginServerDecoder cfg.rsaConfig).channelRead
        { state := state, unread := unread } chunk
      { s with phase := .login c.state c.unread, out := s.out ++ c.out.map .login }
  else s

/-- The handler of the TLS context: a chunk of records is decrypted to chunks of the plain stream. -/
structure TlsHandler (τ : Type) where
  start : τ
  unwrap : τ → List Byte → τ × List (List Byte)

inductive Transport (τ : Type)
  | sniffing (cumulation : List Byte)
  | plain
  | tls (state : τ)

structure Connection (τ : Type) where
  transport : Transport τ := .sniffing []
  served : Served := {}

/-- Bytes that arrive, and what the memory of the cumulation holds behind them. -/
structure Arrival where
  bytes : List Byte
  stale : List Byte := []

inductive Sniffed
  | waits
  | plaintext
  | tls
  deriving DecidableEq

/-- Three bytes decide where the first may be that of a TLS record. -/
def sniff : List Byte → Sniffed
  | [] => .waits
  | contentType :: rest =>
    if contentType = 0x16 then
      match rest with
      | major :: minor :: _ => if major = 0x03 ∧ minor.toNat ≤ 0x04 then .tls else .plaintext
      | _ => .waits
    else .plaintext

namespace Connection
variable {τ : Type} (tls : TlsHandler τ) (cfg : Setup)

/-- Bytes that the sniffer has handed on. -/
def receive (c : Connection τ) (chunk : List Byte) : Connection τ :=
  match c.transport with
  | .sniffing _ => c
  | .plain => { c with served := c.served.deliver cfg chunk }
  | .tls state =>
    let (state', plain) := tls.unwrap state chunk
    { transport := .tls state', served := plain.foldl (Served.deliver cfg) c.served }

/-- The decision of the sniffer. What it throws closes the channel. -/
def decide (c : Connection τ) (buf : Cumulation) : Connection τ :=
  match sniff buf.readable with
  | .waits => { c with transport := .sniffing buf.readable }
  | .plaintext => receive tls cfg { c with transport := .plain } buf.readable
  | .tls =>
    match parseTlsClientHello buf with
    | .error _ =>
      { transport := .sniffing buf.readable, served := { c.served with closed := true } }
    | .ok hello =>
      receive tls cfg
        { transport := .tls tls.start
          served := { c.served with out := c.served.out ++ [.clientHello hello] } }
        buf.readable

/-- A closed channel delivers nothing. -/
def channelRead (c : Connection τ) (a : Arrival) : Connection τ :=
  if c.served.isOpen then
    match c.transport with
    | .sniffing unread => decide tls cfg c ⟨unread ++ a.bytes, a.stale⟩
    | _ => receive tls cfg c a.bytes
  else c

def run (c : Connection τ) (arrivals : List Arrival) : Connection τ :=
  arrivals.foldl (channelRead tls cfg) c

end Connection

section Deliver
variable {cfg : Setup}

theorem deliver_of_closed {s : Served} (h : s.isOpen = false) (chunk : List Byte) :
    s.deliver cfg chunk = s := by
  rw [Served.deliver, if_neg (by simp [h])]

theorem foldl_deliver_of_closed {s : Served} (h : s.isOpen = false) (chunks : List (List Byte)) :
    chunks.foldl (Served.deliver cfg) s = s := by
  induction chunks with
  | nil => rfl
  | cons chunk chunks ih => rw [List.foldl_cons, deliver_of_closed h, ih]

end Deliver

end OpenNXT.Net.ServerPipeline
