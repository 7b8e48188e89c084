import Mathlib.Logic.Function.Basic
import OpenNXT.Net.ServerStream

/-! All connections of the server, whose bytes arrive in any order, and the unique ids of their
hosts. -/
namespace OpenNXT.Net.ServerPipeline
open Buffer Ext Decoding TransportSniffer

def Served.isLogin (s : Served) : Bool :=
  match s.phase with
  | .login _ _ => true
  | _ => false

/-- The same pipeline for another remote side. -/
def Setup.remotely (cfg : Setup) (remote : Remote) : Setup := { cfg with remote := remote }

section Remote
variable {cfg : Setup} {s : Served}

theorem isLogin_deliver (h : s.isLogin = true) (chunk : List Byte) :
    (s.deliver cfg chunk).isLogin = true := by
  unfold Served.isLogin at h
  rw [Served.deliver]
  split_ifs
  · cases hphase : s.phase with
    | handshaking => rw [hphase] at h; cases h
    | js5 state unread => rw [hphase] at h; cases h
    | login state unread => rfl
  · exact h

theorem isLogin_foldl_deliver (h : s.isLogin = true) (chunks : List (List Byte)) :
    (chunks.foldl (Served.deliver cfg) s).isLogin = true := by
  induction chunks generalizing s with
  | nil => exact h
  | cons chunk chunks ih => exact ih (isLogin_deliver h chunk)

theorem channelRead_remotely (remote : Remote) {chunk : List Byte}
    (h : (HandshakeDecoder.channelRead cfg s chunk).isLogin = false) :
    HandshakeDecoder.channelRead (cfg.remotely remote) s chunk =
      HandshakeDecoder.channelRead cfg s chunk := by
  cases chunk with
  | nil => rfl
  | cons id rest =>
    rw [HandshakeDecoder.channelRead] at h ⊢
    cases htype : HandshakeType.fromId id.toNat with
    | none =>
      rw [HandshakeDecoder.channelRead, htype]
    | some type =>
      rw [htype] at h
      rw [HandshakeDecoder.channelRead, htype]
      cases type with
      | login => cases h
      | loginAlt => cases h
      | js5 => rfl

/-- The remote side matters in the step that makes a connection a login, and in no other. -/
theorem deliver_remotely (remote : Remote) {chunk : List Byte}
    (h : s.isLogin = true ∨ (s.deliver cfg chunk).isLogin = false) :
    s.deliver (cfg.remotely remote) chunk = s.deliver cfg chunk := by
  rw [Served.deliver, Served.deliver]
  rw [Served.deliver] at h
  split_ifs at h ⊢ with hopen
  · cases hphase : s.phase with
    | handshaking =>
      rw [hphase] at h
      have hnot : s.isLogin = false := by rw [Served.isLogin, hphase]
      rw [hnot] at h
      exact channelRead_remotely remote (h.resolve_left Bool.false_ne_true)
    | js5 state unread => rfl
    | login state unread => rfl
  · rfl

theorem foldl_deliver_remotely (remote : Remote) {chunks : List (List Byte)}
    (h : s.isLogin = true ∨ (chunks.foldl (Served.deliver cfg) s).isLogin = false) :
    chunks.foldl (Served.deliver (cfg.remotely remote)) s =
      chunks.foldl (Served.deliver cfg) s := by
  induction chunks generalizing s with
  | nil => rfl
  | cons chunk chunks ih =>
    rw [List.foldl_cons] at h
    have hfirst : s.isLogin = true ∨ (s.deliver cfg chunk).isLogin = false := by
      rcases h with hlogin | hlast
      · exact .inl hlogin
      · right
        by_contra hlogin
        have hlater := @isLogin_foldl_deliver cfg _ (Bool.not_eq_false _ ▸ hlogin) chunks
        rw [hlast] at hlater
        cases hlater
    rw [List.foldl_cons, List.foldl_cons, deliver_remotely remote hfirst]
    apply ih
    rcases h with hlogin | hlast
    · exact .inl (isLogin_deliver hlogin chunk)
    · exact .inr hlast

end Remote

namespace Connection
variable {τ : Type} {tls : TlsHandler τ} {cfg : Setup} {c : Connection τ}

theorem receive_remotely (remote : Remote) {chunk : List Byte}
    (h : c.served.isLogin = true ∨ (receive tls cfg c chunk).served.isLogin = false) :
    receive tls (cfg.remotely remote) c chunk = receive tls cfg c chunk := by
  unfold receive at h ⊢
  cases htransport : c.transport with
  | sniffing unread => rfl
  | plain =>
    rw [htransport] at h
    exact congrArg (fun s : Served => Connection.mk .plain s) (deliver_remotely remote h)
  | tls state =>
    rw [htransport] at h
    exact congrArg (fun s : Served => Connection.mk (.tls (tls.unwrap state chunk).1) s)
      (foldl_deliver_remotely remote h)

theorem decide_remotely (remote : Remote) {buf : Cumulation}
    (h : c.served.isLogin = true ∨ (decide tls cfg c buf).served.isLogin = false) :
    decide tls (cfg.remotely remote) c buf = decide tls cfg c buf := by
  unfold decide at h ⊢
  cases hsniff : sniff buf.readable with
  | waits => rfl
  | plaintext =>
    rw [hsniff] at h
    exact receive_remotely remote h
  | tls =>
    rw [hsniff] at h
    dsimp only at h ⊢
    cases hparse : parseTlsClientHello buf with
    | error thrown => rfl
    | ok hello =>
      rw [hparse] at h
      exact receive_remotely remote h

theorem channelRead_remotely (remote : Remote) {a : Arrival}
    (h : c.served.isLogin = true ∨ (channelRead tls cfg c a).served.isLogin = false) :
    channelRead tls (cfg.remotely remote) c a = channelRead tls cfg c a := by
  unfold channelRead at h ⊢
  split_ifs at h ⊢ with hopen
  · cases htransport : c.transport with
    | sniffing unread =>
      rw [htransport] at h
      exact decide_remotely remote h
    | plain =>
      rw [htransport] at h
      exact receive_remotely remote h
    | tls state =>
      rw [htransport] at h
      exact receive_remotely remote h
  · rfl

theorem isLogin_receive (h : c.served.isLogin = true) (chunk : List Byte) :
    (receive tls cfg c chunk).served.isLogin = true := by
  unfold receive
  cases c.transport with
  | sniffing unread => exact h
  | plain => exact isLogin_deliver h chunk
  | tls state => exact isLogin_foldl_deliver h _

theorem isLogin_channelRead (h : c.served.isLogin = true) (a : Arrival) :
    (channelRead tls cfg c a).served.isLogin = true := by
  unfold channelRead
  split_ifs
  · cases c.transport with
    | sniffing unread =>
      simp only
      unfold decide
      cases sniff (Cumulation.mk (unread ++ a.bytes) a.stale).readable with
      | waits => exact h
      | plaintext =>
        apply isLogin_receive
        exact h
      | tls =>
        simp only
        cases parseTlsClientHello ⟨unread ++ a.bytes, a.stale⟩ with
        | error thrown => exact h
        | ok hello =>
          apply isLogin_receive
          exact h
    | plain => exact isLogin_receive h _
    | tls state => exact isLogin_receive h _
  · exact h

end Connection

section Alone
variable {τ Host : Type} {tls : TlsHandler τ} {cfg : Setup}

/-- A connection does what it does alone, with the unique id that its host has. Before it is a login
the id does not matter. -/
structure Alone (tls : TlsHandler τ) (cfg : Setup) (host : Option Host)
    (latestByHost : Host → Option Long) (arrivals : List Arrival) (c : Connection τ) : Prop where
  waiting : c.served.isLogin = false →
    ∀ remote, c = Connection.run tls (cfg.remotely remote) {} arrivals
  login : c.served.isLogin = true → ∃ remote,
    c = Connection.run tls (cfg.remotely remote) {} arrivals ∧
      ∀ h, host = some h → latestByHost h = some remote.uniqueId

namespace Alone
variable {host : Option Host} {latestByHost : Host → Option Long} {arrivals : List Arrival}
  {c : Connection τ}

theorem start : Alone tls cfg host latestByHost [] ({} : Connection τ) where
  waiting _ _ := rfl
  login h := by cases h

theorem mono (h : Alone tls cfg host latestByHost arrivals c) {later : Host → Option Long}
    (hlater : ∀ host uniqueId, latestByHost host = some uniqueId → later host = some uniqueId) :
    Alone tls cfg host later arrivals c where
  waiting := h.waiting
  login hlogin := by
    obtain ⟨remote, hrun, hid⟩ := h.login hlogin
    exact ⟨remote, hrun, fun host hhost => hlater host _ (hid host hhost)⟩

theorem run_concat (remote : Remote) (a : Arrival)
    (hrun : c = Connection.run tls (cfg.remotely remote) {} arrivals) :
    c.channelRead tls (cfg.remotely remote) a =
      Connection.run tls (cfg.remotely remote) {} (arrivals ++ [a]) := by
  subst hrun
  rw [Connection.run, Connection.run, List.foldl_append]
  rfl

/-- A login stays with the id it has; what is not yet one has taken none. -/
theorem channelRead (h : Alone tls cfg host latestByHost arrivals c) {remote : Remote}
    {a : Arrival} {later : Host → Option Long}
    (hlater : ∀ host uniqueId, latestByHost host = some uniqueId → later host = some uniqueId)
    (hgiven : c.served.isLogin = false →
      (c.channelRead tls (cfg.remotely remote) a).served.isLogin = true →
      ∀ h, host = some h → later h = some remote.uniqueId) :
    Alone tls cfg host later (arrivals ++ [a]) (c.channelRead tls (cfg.remotely remote) a) where
  waiting hwaiting other := by
    have hbefore : c.served.isLogin = false := by
      by_contra hlogin
      have hstays := @Connection.isLogin_channelRead τ tls (cfg.remotely remote) c
        (Bool.not_eq_false _ ▸ hlogin) a
      rw [hwaiting] at hstays
      cases hstays
    rw [← run_concat other a (h.waiting hbefore other)]
    exact (Connection.channelRead_remotely other (.inr hwaiting)).symm
  login hlogin := by
    cases hbefore : c.served.isLogin with
    | true =>
      obtain ⟨own, hrun, hid⟩ := h.login hbefore
      refine ⟨own, ?_, fun host hhost => hlater host _ (hid host hhost)⟩
      rw [← run_concat own a hrun]
      exact (Connection.channelRead_remotely own (.inl hbefore)).symm
    | false =>
      refine ⟨remote, ?_, hgiven hbefore hlogin⟩
      exact run_concat remote a (h.waiting hbefore remote)

end Alone

end Alone

section Server
variable {τ Host : Type} [DecidableEq Host]

/-- `LoginUniqueIdStore.getOrCreate`: the id, and the store behind the call. -/
def getOrCreate (latestByHost : Host → Option Long) (key : Option Host) (generated : Long) :
    Long × (Host → Option Long) :=
  match key with
  | none => (generated, latestByHost)
  | some host =>
    match latestByHost host with
    | some uniqueId => (uniqueId, latestByHost)
    | none => (generated, Function.update latestByHost host (some generated))

/-- The store of the ids, and the connections by their channels. -/
structure Server (τ Host : Type) where
  latestByHost : Host → Option Long := fun _ => none
  connection : ℕ → Connection τ := fun _ => {}

/-- Bytes that arrive on a channel, with what the generator would give and what is recalled of the
host at that time. -/
structure Delivery where
  channel : ℕ
  arrival : Arrival
  generated : Long
  snapshot : Option LobbySnapshot := none

variable (tls : TlsHandler τ) (cfg : Setup) (hostKey : ℕ → Option Host)

/-- An id is asked for in the step that makes a connection a login. -/
def Server.deliver (s : Server τ Host) (d : Delivery) : Server τ Host :=
  let before := s.connection d.channel
  let id := getOrCreate s.latestByHost (hostKey d.channel) d.generated
  let after := before.channelRead tls (cfg.remotely ⟨id.1, d.snapshot⟩) d.arrival
  { latestByHost :=
      if !before.served.isLogin && after.served.isLogin then id.2 else s.latestByHost
    connection := Function.update s.connection d.channel after }

def Server.run (s : Server τ Host) (ds : List Delivery) : Server τ Host :=
  ds.foldl (Server.deliver tls cfg hostKey) s

variable {tls cfg hostKey}

section GetOrCreate

end GetOrCreate

end Server

end OpenNXT.Net.ServerPipeline
