import OpenNXT.Net.Js5Packet

/-! The stream of a logged-out client, mirrored to the retail server and back. Two threads work on
it: the one of the client, and the event loop of the remote channel, to which the first leaves its
writes. -/
namespace OpenNXT.Net
open Buffer Ext

/-- Where the event loop is in `decode`, with the bytes that it has left. -/
inductive BridgeStage
  | idle
  | greeting (rest : List Byte)
  | flushing (rest : List Byte)
  | relaying (rest : List Byte)

inductive BridgeWrite
  | packet (p : Js5Packet)
  | client (data : List Byte)

structure RetailLoggedOutJs5Proxy where
  major : Word
  minor : Word
  token : List Char
  language : Word
  remoteChannel : Bool := false
  remoteActive : Bool := false
  remoteReady : Bool := false
  awaitingHandshakeResponse : Bool := true
  closed : Bool := false
  localActive : Bool := true
  pendingClientWrites : List (List Byte) := []
  /-- The writes that the thread of the client has left to the event loop. -/
  leftWrites : List (List Byte) := []
  stage : BridgeStage := .idle
  toRemote : List BridgeWrite := []
  toLocal : List (List Byte) := []

/-- A step of one of the threads, or of a channel. -/
inductive BridgeEvent
  | channelActive
  /-- `forwardClientBytes` where it has the lock; it may have found the proxy open before. -/
  | forward (data : List Byte)
  | receive (bytes : List Byte)
  /-- The event loop goes on in `decode`. -/
  | resume
  | write
  | remoteInactive
  | localInactive
  | close
  /-- The rest of `close`, where it has the lock. -/
  | clear

namespace RetailLoggedOutJs5Proxy
variable (s : RetailLoggedOutJs5Proxy)

def handshake : BridgeWrite := .packet (.handshake s.major s.minor s.token s.language)

def greetings : List BridgeWrite :=
  [.packet (.connectionInitialized 5 s.major), .packet (.loggedOut s.major)]

/-- A write on a channel that is inactive fails. -/
def send (ws : List BridgeWrite) : RetailLoggedOutJs5Proxy :=
  { s with toRemote := s.toRemote ++ if s.remoteActive then ws else [] }

def forwardClientBytes (data : List Byte) : RetailLoggedOutJs5Proxy :=
  if s.remoteReady && s.remoteChannel && s.remoteActive then
    { s with leftWrites := s.leftWrites ++ [data] }
  else { s with pendingClientWrites := s.pendingClientWrites ++ [data] }

/-- The decoder is called as long as there are bytes: a code that is not zero closes the channel,
and the byte behind it is taken for the next one. -/
def decodeResponse (s : RetailLoggedOutJs5Proxy) : List Byte → RetailLoggedOutJs5Proxy
  | [] => s
  | code :: rest =>
    if code = 0 then
      { s with
        awaitingHandshakeResponse := false
        remoteReady := true
        stage := .greeting rest }
    else decodeResponse { s with remoteActive := false } rest

def flushPendingClientWrites : RetailLoggedOutJs5Proxy :=
  if s.remoteReady && s.remoteChannel && s.remoteActive then
    { s with
      toRemote := s.toRemote ++ s.pendingClientWrites.map .client
      pendingClientWrites := [] }
  else s

def relay (rest : List Byte) : RetailLoggedOutJs5Proxy :=
  if rest ≠ [] ∧ s.localActive then { s with toLocal := s.toLocal ++ [rest] } else s

/-- The state after an event; `none` where it cannot happen. -/
def step : BridgeEvent → Option RetailLoggedOutJs5Proxy
  | .channelActive =>
    if s.remoteChannel then none
    else some (send { s with remoteChannel := true, remoteActive := true } [s.handshake])
  | .forward data => some (s.forwardClientBytes data)
  | .receive bytes =>
    match s.stage with
    | .idle =>
      if s.remoteChannel && s.remoteActive then
        some (if s.awaitingHandshakeResponse then s.decodeResponse bytes
          else { s with stage := .relaying bytes })
      else none
    | _ => none
  | .resume =>
    match s.stage with
    | .idle => none
    | .greeting rest => some { s.send s.greetings with stage := .flushing rest }
    | .flushing rest => some { s.flushPendingClientWrites with stage := .relaying rest }
    | .relaying rest => some { s.relay rest with stage := .idle }
  | .write =>
    match s.stage, s.leftWrites with
    | .idle, data :: rest => some { s.send [.client data] with leftWrites := rest }
    | _, _ => none
  | .remoteInactive =>
    match s.stage with
    | .idle => some { s with remoteActive := false }
    | _ => none
  | .localInactive => some { s with localActive := false }
  | .close => some { s with closed := true }
  | .clear => if s.closed then some { s with pendingClientWrites := [] } else none

def run (s : RetailLoggedOutJs5Proxy) : List BridgeEvent → Option RetailLoggedOutJs5Proxy
  | [] => some s
  | e :: es => (s.step e).bind fun t => run t es

end RetailLoggedOutJs5Proxy

namespace BridgeEvent

/-- The bytes of the client that an event brings. -/
def forwarded : BridgeEvent → Option (List Byte)
  | .forward data => some data
  | _ => none

/-- The bytes of the server that an event brings. -/
def received : BridgeEvent → List Byte
  | .receive bytes => bytes
  | _ => []

end BridgeEvent

namespace RetailLoggedOutJs5Proxy

/-- All of the chunks `fs` but those that `close` dropped. -/
def Kept (s : RetailLoggedOutJs5Proxy) {α : Type} (xs fs : List α) : Prop :=
  xs.Sublist fs ∧ (s.closed = false → xs = fs)

/-- What the server is to get. -/
def mirrored (s : RetailLoggedOutJs5Proxy) (fs : List (List Byte)) : List BridgeWrite :=
  s.handshake :: (s.greetings ++ fs.map .client)

/-- Where the chunks are that came so far, by how far the handshake with the server is. -/
inductive Accounts (s : RetailLoggedOutJs5Proxy) (fs : List (List Byte)) : Prop
  | waiting (hready : s.remoteReady = false) (hawaiting : s.awaitingHandshakeResponse = true)
      (hstage : s.stage = .idle) (hleft : s.leftWrites = [])
      (hsent : s.toRemote = if s.remoteChannel then [s.handshake] else [])
      (hkept : s.Kept s.pendingClientWrites fs)
  | greeting (rest : List Byte) (hready : s.remoteReady = true) (hchannel : s.remoteChannel = true)
      (hawaiting : s.awaitingHandshakeResponse = false) (hstage : s.stage = .greeting rest)
      (hsent : s.toRemote = [s.handshake]) (hleft : s.remoteActive = false → s.leftWrites = [])
      (hkept : s.Kept (s.pendingClientWrites ++ s.leftWrites) fs)
  | flushing (rest : List Byte) (hready : s.remoteReady = true) (hchannel : s.remoteChannel = true)
      (hawaiting : s.awaitingHandshakeResponse = false) (hstage : s.stage = .flushing rest)
      (hsent : s.toRemote = s.handshake :: if s.remoteActive then s.greetings else [])
      (hleft : s.remoteActive = false → s.leftWrites = [])
      (hkept : s.Kept (s.pendingClientWrites ++ s.leftWrites) fs)
  | open (sent : List (List Byte)) (hready : s.remoteReady = true)
      (hchannel : s.remoteChannel = true) (hawaiting : s.awaitingHandshakeResponse = false)
      (hstage : s.stage = .idle ∨ ∃ rest, s.stage = .relaying rest) (hactive : s.remoteActive = true)
      (hpending : s.pendingClientWrites = []) (hsent : s.toRemote = s.mirrored sent)
      (hkept : s.Kept (sent ++ s.leftWrites) fs)
  | shut (hready : s.remoteReady = true) (hchannel : s.remoteChannel = true)
      (hawaiting : s.awaitingHandshakeResponse = false)
      (hstage : s.stage = .idle ∨ ∃ rest, s.stage = .relaying rest)
      (hactive : s.remoteActive = false) (hsublist : s.toRemote.Sublist (s.mirrored fs))
      (hpre : s.closed = false → s.toRemote <+: s.mirrored fs)

section Steps
variable {s : RetailLoggedOutJs5Proxy} {fs : List (List Byte)}

theorem Kept.concat {α : Type} {xs ys : List α} (h : s.Kept xs ys) (x : α) :
    s.Kept (xs ++ [x]) (ys ++ [x]) :=
  ⟨h.1.append_right [x], fun hopen => by rw [h.2 hopen]⟩

theorem mirrored_concat (fs : List (List Byte)) (data : List Byte) :
    s.mirrored (fs ++ [data]) = s.mirrored fs ++ [.client data] := by
  rw [mirrored, mirrored, List.map_append, ← List.append_assoc, List.cons_append, List.map_singleton]

theorem mirrored_sublist {xs ys : List (List Byte)} (h : xs.Sublist ys) :
    (s.mirrored xs).Sublist (s.mirrored ys) :=
  ((h.map BridgeWrite.client).append_left s.greetings).cons_cons s.handshake

theorem prefix_mirrored {xs ys : List (List Byte)} (h : xs <+: ys) :
    s.mirrored xs <+: s.mirrored ys := by
  obtain ⟨zs, rfl⟩ := h
  rw [mirrored, mirrored, List.map_append, ← List.append_assoc, ← List.cons_append]
  exact List.prefix_append _ _

theorem accounts_channelActive (h : s.Accounts fs) (hchannel : s.remoteChannel = false) :
    (send { s with remoteChannel := true, remoteActive := true } [s.handshake]).Accounts fs := by
  cases h with
  | waiting hready hawaiting hstage hleft hsent hkept =>
    refine .waiting hready hawaiting hstage hleft ?_ hkept
    rw [send, hsent, hchannel]
    rfl
  | greeting rest hready hchannel' => rw [hchannel] at hchannel'; cases hchannel'
  | flushing rest hready hchannel' => rw [hchannel] at hchannel'; cases hchannel'
  | «open» sent hready hchannel' => rw [hchannel] at hchannel'; cases hchannel'
  | shut hready hchannel' => rw [hchannel] at hchannel'; cases hchannel'

theorem forwardClientBytes_of_active (hready : s.remoteReady = true)
    (hchannel : s.remoteChannel = true) (hactive : s.remoteActive = true) (data : List Byte) :
    s.forwardClientBytes data = { s with leftWrites := s.leftWrites ++ [data] } :=
  if_pos (by rw [hready, hchannel, hactive]; rfl)

theorem forwardClientBytes_of_inactive (hactive : s.remoteReady = false ∨ s.remoteActive = false)
    (data : List Byte) :
    s.forwardClientBytes data = { s with pendingClientWrites := s.pendingClientWrites ++ [data] } := by
  refine if_neg ?_
  rcases hactive with hready | hactive
  · rw [hready]
    exact Bool.false_ne_true
  · rw [hactive, Bool.and_false]
    exact Bool.false_ne_true

/-- A chunk goes behind the others, wherever these are. -/
theorem Kept.forward (h : s.Kept (s.pendingClientWrites ++ s.leftWrites) fs)
    (hready : s.remoteReady = true) (hchannel : s.remoteChannel = true)
    (hleft : s.remoteActive = false → s.leftWrites = []) (data : List Byte) :
    (s.forwardClientBytes data).Kept
      ((s.forwardClientBytes data).pendingClientWrites ++ (s.forwardClientBytes data).leftWrites)
      (fs ++ [data]) := by
  have hkept := h.concat data
  cases hactive : s.remoteActive with
  | true =>
    rw [List.append_assoc] at hkept
    rw [forwardClientBytes_of_active hready hchannel hactive]
    exact hkept
  | false =>
    rw [hleft hactive, List.append_nil] at hkept
    rw [forwardClientBytes_of_inactive (Or.inr hactive)]
    change s.Kept (s.pendingClientWrites ++ [data] ++ s.leftWrites) (fs ++ [data])
    rw [hleft hactive, List.append_nil]
    exact hkept

/-- What a chunk of the client leaves as it is. -/
theorem forwardClientBytes_frame (data : List Byte) :
    ∃ pending left, s.forwardClientBytes data =
      { s with pendingClientWrites := pending, leftWrites := left } ∧
      (s.remoteActive = false → left = s.leftWrites) := by
  rw [forwardClientBytes]
  split_ifs with hready
  · refine ⟨_, _, rfl, fun hactive => ?_⟩
    rw [hactive, Bool.and_false] at hready
    cases hready
  · exact ⟨_, _, rfl, fun _ => rfl⟩

theorem accounts_forward (h : s.Accounts fs) (data : List Byte) :
    (s.forwardClientBytes data).Accounts (fs ++ [data]) := by
  cases h with
  | waiting hready hawaiting hstage hleft hsent hkept =>
    rw [forwardClientBytes_of_inactive (Or.inl hready)]
    exact .waiting hready hawaiting hstage hleft hsent (hkept.concat data)
  | greeting rest hready hchannel hawaiting hstage hsent hleft hkept =>
    have hforward := hkept.forward hready hchannel hleft data
    obtain ⟨pending, left, heq, hsame⟩ := forwardClientBytes_frame (s := s) data
    rw [heq] at hforward ⊢
    exact .greeting rest hready hchannel hawaiting hstage hsent
      (fun hinactive => (hsame hinactive).trans (hleft hinactive)) hforward
  | flushing rest hready hchannel hawaiting hstage hsent hleft hkept =>
    have hforward := hkept.forward hready hchannel hleft data
    obtain ⟨pending, left, heq, hsame⟩ := forwardClientBytes_frame (s := s) data
    rw [heq] at hforward ⊢
    exact .flushing rest hready hchannel hawaiting hstage hsent
      (fun hinactive => (hsame hinactive).trans (hleft hinactive)) hforward
  | «open» sent hready hchannel hawaiting hstage hactive hpending hsent hkept =>
    have hkept' := hkept.concat data
    rw [List.append_assoc] at hkept'
    rw [forwardClientBytes_of_active hready hchannel hactive]
    exact .open sent hready hchannel hawaiting hstage hactive hpending hsent hkept'
  | shut hready hchannel hawaiting hstage hactive hsublist hpre =>
    rw [forwardClientBytes_of_inactive (Or.inr hactive)]
    refine .shut hready hchannel hawaiting hstage hactive ?_ fun hopen => ?_
    · exact hsublist.trans (mirrored_sublist (List.sublist_append_left fs [data]))
    · exact (hpre hopen).trans (prefix_mirrored (List.prefix_append fs [data]))

/-- Codes that are refused, and the one that is not. -/
theorem decodeResponse_cases (s : RetailLoggedOutJs5Proxy) (bytes : List Byte) :
    (s.decodeResponse bytes = s ∨ s.decodeResponse bytes = { s with remoteActive := false }) ∧
      bytes.dropWhile (· ≠ 0) = [] ∨
    ∃ rest active, bytes.dropWhile (· ≠ 0) = 0 :: rest ∧ (active = true → s.remoteActive = true) ∧
      s.decodeResponse bytes =
        { s with
          remoteActive := active
          awaitingHandshakeResponse := false
          remoteReady := true
          stage := .greeting rest } := by
  induction bytes generalizing s with
  | nil => exact Or.inl ⟨Or.inl rfl, rfl⟩
  | cons code rest ih =>
    rw [decodeResponse]
    split_ifs with hcode
    · subst hcode
      exact Or.inr ⟨rest, s.remoteActive, rfl, id, rfl⟩
    · rw [List.dropWhile_cons_of_pos (by simpa using hcode)]
      rcases ih { s with remoteActive := false } with ⟨hsame, hdrop⟩ | ⟨rest', active, hdrop, hactive, heq⟩
      · refine Or.inl ⟨Or.inr ?_, hdrop⟩
        rcases hsame with hsame | hsame
        · exact hsame
        · exact hsame
      · refine Or.inr ⟨rest', active, hdrop, fun htrue => ?_, heq⟩
        cases hactive htrue

/-- A change that the accounts do not look at. -/
theorem Accounts.frame {t : RetailLoggedOutJs5Proxy} (h : s.Accounts fs)
    (heq : t = { s with toLocal := t.toLocal, localActive := t.localActive }) : t.Accounts fs := by
  rw [heq]
  cases h with
  | waiting hready hawaiting hstage hleft hsent hkept =>
    exact .waiting hready hawaiting hstage hleft hsent hkept
  | greeting rest hready hchannel hawaiting hstage hsent hleft hkept =>
    exact .greeting rest hready hchannel hawaiting hstage hsent hleft hkept
  | flushing rest hready hchannel hawaiting hstage hsent hleft hkept =>
    exact .flushing rest hready hchannel hawaiting hstage hsent hleft hkept
  | «open» sent hready hchannel hawaiting hstage hactive hpending hsent hkept =>
    exact .open sent hready hchannel hawaiting hstage hactive hpending hsent hkept
  | shut hready hchannel hawaiting hstage hactive hsublist hpre =>
    exact .shut hready hchannel hawaiting hstage hactive hsublist hpre

theorem accounts_decodeResponse (h : s.Accounts fs) (hawaiting : s.awaitingHandshakeResponse = true)
    (hchannel : s.remoteChannel = true) (bytes : List Byte) :
    (s.decodeResponse bytes).Accounts fs := by
  cases h with
  | waiting hready _ hstage hleft hsent hkept =>
    rcases s.decodeResponse_cases bytes with ⟨heq | heq, -⟩ | ⟨rest, active, -, hactive, heq⟩
    · rw [heq]
      exact .waiting hready hawaiting hstage hleft hsent hkept
    · rw [heq]
      exact .waiting hready hawaiting hstage hleft hsent hkept
    · rw [heq]
      refine .greeting rest rfl hchannel rfl rfl ?_ (fun _ => hleft) ?_
      · exact hsent.trans (if_pos hchannel)
      · change s.Kept (s.pendingClientWrites ++ s.leftWrites) fs
        rw [hleft, List.append_nil]
        exact hkept
  | greeting rest hready _ hdone => rw [hawaiting] at hdone; cases hdone
  | flushing rest hready _ hdone => rw [hawaiting] at hdone; cases hdone
  | «open» sent hready _ hdone => rw [hawaiting] at hdone; cases hdone
  | shut hready _ hdone => rw [hawaiting] at hdone; cases hdone

theorem accounts_startRelay (h : s.Accounts fs) (hawaiting : s.awaitingHandshakeResponse = false)
    (hidle : s.stage = .idle) (bytes : List Byte) :
    Accounts { s with stage := .relaying bytes } fs := by
  cases h with
  | waiting hready hwaiting => rw [hawaiting] at hwaiting; cases hwaiting
  | greeting rest hready hchannel _ hstage => rw [hidle] at hstage; cases hstage
  | flushing rest hready hchannel _ hstage => rw [hidle] at hstage; cases hstage
  | «open» sent hready hchannel _ hstage hactive hpending hsent hkept =>
    exact .open sent hready hchannel hawaiting (Or.inr ⟨bytes, rfl⟩) hactive hpending hsent hkept
  | shut hready hchannel _ hstage hactive hsublist hpre =>
    exact .shut hready hchannel hawaiting (Or.inr ⟨bytes, rfl⟩) hactive hsublist hpre

theorem accounts_greet (h : s.Accounts fs) {rest : List Byte} (hstage : s.stage = .greeting rest) :
    Accounts { s.send s.greetings with stage := .flushing rest } fs := by
  cases h with
  | waiting _ _ hother => rw [hstage] at hother; cases hother
  | greeting rest' hready hchannel hawaiting _ hsent hleft hkept =>
    refine .flushing rest hready hchannel hawaiting rfl ?_ hleft hkept
    change s.toRemote ++ _ = _
    rw [hsent]
    rfl
  | flushing rest' _ _ _ hother => rw [hstage] at hother; cases hother
  | «open» sent _ _ _ hother =>
    rw [hstage] at hother
    rcases hother with hother | ⟨_, hother⟩ <;> cases hother
  | shut _ _ _ hother =>
    rw [hstage] at hother
    rcases hother with hother | ⟨_, hother⟩ <;> cases hother

theorem accounts_flush (h : s.Accounts fs) {rest : List Byte} (hstage : s.stage = .flushing rest) :
    Accounts { s.flushPendingClientWrites with stage := .relaying rest } fs := by
  cases h with
  | waiting _ _ hother => rw [hstage] at hother; cases hother
  | greeting rest' _ _ _ hother => rw [hstage] at hother; cases hother
  | flushing rest' hready hchannel hawaiting _ hsent hleft hkept =>
    cases hactive : s.remoteActive with
    | true =>
      have heq : s.flushPendingClientWrites = { s with
          toRemote := s.toRemote ++ s.pendingClientWrites.map .client
          pendingClientWrites := [] } :=
        if_pos (by rw [hready, hchannel, hactive]; rfl)
      rw [heq]
      refine .open s.pendingClientWrites hready hchannel hawaiting (Or.inr ⟨rest, rfl⟩) hactive rfl ?_
        hkept
      change s.toRemote ++ _ = s.mirrored _
      rw [hsent, hactive, if_pos rfl, mirrored, List.cons_append]
    | false =>
      have heq : s.flushPendingClientWrites = s := by
        refine if_neg ?_
        rw [hactive, Bool.and_false]
        exact Bool.false_ne_true
      rw [hactive, if_neg Bool.false_ne_true] at hsent
      rw [heq]
      refine .shut hready hchannel hawaiting (Or.inr ⟨rest, rfl⟩) hactive ?_ fun _ => ?_
      · change s.toRemote.Sublist (s.mirrored fs)
        rw [hsent]
        exact (List.nil_sublist _).cons_cons s.handshake
      · change s.toRemote <+: s.mirrored fs
        rw [hsent]
        exact ⟨_, rfl⟩
  | «open» sent _ _ _ hother =>
    rw [hstage] at hother
    rcases hother with hother | ⟨_, hother⟩ <;> cases hother
  | shut _ _ _ hother =>
    rw [hstage] at hother
    rcases hother with hother | ⟨_, hother⟩ <;> cases hother

theorem accounts_endRelay (h : s.Accounts fs) {rest : List Byte} (hstage : s.stage = .relaying rest) :
    Accounts { s with stage := .idle } fs := by
  cases h with
  | waiting _ _ hother => rw [hstage] at hother; cases hother
  | greeting rest' _ _ _ hother => rw [hstage] at hother; cases hother
  | flushing rest' _ _ _ hother => rw [hstage] at hother; cases hother
  | «open» sent hready hchannel hawaiting _ hactive hpending hsent hkept =>
    exact .open sent hready hchannel hawaiting (Or.inl rfl) hactive hpending hsent hkept
  | shut hready hchannel hawaiting _ hactive hsublist hpre =>
    exact .shut hready hchannel hawaiting (Or.inl rfl) hactive hsublist hpre

theorem accounts_write (h : s.Accounts fs) (hidle : s.stage = .idle) {data : List Byte}
    {rest : List (List Byte)} (hwrites : s.leftWrites = data :: rest) :
    Accounts { s.send [.client data] with leftWrites := rest } fs := by
  cases h with
  | waiting _ _ _ hleft => rw [hwrites] at hleft; cases hleft
  | greeting rest' _ _ _ hother => rw [hidle] at hother; cases hother
  | flushing rest' _ _ _ hother => rw [hidle] at hother; cases hother
  | «open» sent hready hchannel hawaiting _ hactive hpending hsent hkept =>
    refine .open (sent ++ [data]) hready hchannel hawaiting (Or.inl hidle) hactive hpending ?_ ?_
    · change s.toRemote ++ _ = s.mirrored _
      rw [hactive, if_pos rfl, hsent, mirrored_concat]
    · rw [hwrites] at hkept
      change s.Kept (sent ++ [data] ++ rest) fs
      rw [List.append_assoc]
      exact hkept
  | shut hready hchannel hawaiting _ hactive hsublist hpre =>
    have hsame : (s.send [.client data]).toRemote = s.toRemote := by
      rw [send, hactive, if_neg Bool.false_ne_true, List.append_nil]
    refine .shut hready hchannel hawaiting (Or.inl hidle) hactive ?_ fun hopen => ?_
    · change (s.send _).toRemote.Sublist (s.mirrored fs)
      rw [hsame]
      exact hsublist
    · change (s.send _).toRemote <+: s.mirrored fs
      rw [hsame]
      exact hpre hopen

theorem accounts_remoteInactive (h : s.Accounts fs) (hidle : s.stage = .idle) :
    Accounts { s with remoteActive := false } fs := by
  cases h with
  | waiting hready hawaiting hstage hleft hsent hkept =>
    exact .waiting hready hawaiting hstage hleft hsent hkept
  | greeting rest _ _ _ hother => rw [hidle] at hother; cases hother
  | flushing rest _ _ _ hother => rw [hidle] at hother; cases hother
  | «open» sent hready hchannel hawaiting hstage hactive hpending hsent hkept =>
    refine .shut hready hchannel hawaiting hstage rfl ?_ fun hopen => ?_
    · change s.toRemote.Sublist (s.mirrored fs)
      rw [hsent]
      exact mirrored_sublist ((List.sublist_append_left sent _).trans hkept.1)
    · change s.toRemote <+: s.mirrored fs
      rw [hsent, ← hkept.2 hopen]
      exact prefix_mirrored (List.prefix_append sent _)
  | shut hready hchannel hawaiting hstage hactive hsublist hpre =>
    exact .shut hready hchannel hawaiting hstage rfl hsublist hpre

/-- Once the proxy is closed, chunks may be missing. -/
theorem accounts_close (h : s.Accounts fs) : Accounts { s with closed := true } fs := by
  have hkept : ∀ {xs : List (List Byte)}, s.Kept xs fs → Kept { s with closed := true } xs fs :=
    fun hxs => ⟨hxs.1, fun hopen => nomatch hopen⟩
  cases h with
  | waiting hready hawaiting hstage hleft hsent h =>
    exact .waiting hready hawaiting hstage hleft hsent (hkept h)
  | greeting rest hready hchannel hawaiting hstage hsent hleft h =>
    exact .greeting rest hready hchannel hawaiting hstage hsent hleft (hkept h)
  | flushing rest hready hchannel hawaiting hstage hsent hleft h =>
    exact .flushing rest hready hchannel hawaiting hstage hsent hleft (hkept h)
  | «open» sent hready hchannel hawaiting hstage hactive hpending hsent h =>
    exact .open sent hready hchannel hawaiting hstage hactive hpending hsent (hkept h)
  | shut hready hchannel hawaiting hstage hactive hsublist =>
    exact .shut hready hchannel hawaiting hstage hactive hsublist fun hopen => nomatch hopen

theorem accounts_clear (h : s.Accounts fs) (hclosed : s.closed = true) :
    Accounts { s with pendingClientWrites := [] } fs := by
  have hkept : ∀ {xs : List (List Byte)}, xs.Sublist fs → s.Kept xs fs := fun hxs =>
    ⟨hxs, fun hopen => by rw [hclosed] at hopen; cases hopen⟩
  cases h with
  | waiting hready hawaiting hstage hleft hsent h =>
    exact .waiting hready hawaiting hstage hleft hsent (hkept (List.nil_sublist fs))
  | greeting rest hready hchannel hawaiting hstage hsent hleft h =>
    exact .greeting rest hready hchannel hawaiting hstage hsent hleft
      (hkept ((List.sublist_append_right _ _).trans h.1))
  | flushing rest hready hchannel hawaiting hstage hsent hleft h =>
    exact .flushing rest hready hchannel hawaiting hstage hsent hleft
      (hkept ((List.sublist_append_right _ _).trans h.1))
  | «open» sent hready hchannel hawaiting hstage hactive hpending hsent h =>
    exact .open sent hready hchannel hawaiting hstage hactive rfl hsent h
  | shut hready hchannel hawaiting hstage hactive hsublist hpre =>
    exact .shut hready hchannel hawaiting hstage hactive hsublist hpre

theorem accounts_step {t : RetailLoggedOutJs5Proxy} {e : BridgeEvent} (h : s.Accounts fs)
    (hstep : s.step e = some t) : t.Accounts (fs ++ e.forwarded.toList) := by
  cases e with
  | forward data =>
    cases hstep
    exact accounts_forward h data
  | channelActive =>
    simp only [step] at hstep
    split_ifs at hstep with hchannel
    cases hstep
    simp only [BridgeEvent.forwarded, Option.toList_none, List.append_nil]
    exact accounts_channelActive h (Bool.eq_false_of_not_eq_true hchannel)
  | receive bytes =>
    simp only [BridgeEvent.forwarded, Option.toList_none, List.append_nil]
    simp only [step] at hstep
    split at hstep
    · next hidle =>
      split_ifs at hstep with hchannel hawaiting
      · cases hstep
        rw [Bool.and_eq_true] at hchannel
        exact accounts_decodeResponse h hawaiting hchannel.1 bytes
      · cases hstep
        exact accounts_startRelay h (Bool.eq_false_of_not_eq_true hawaiting) hidle bytes
    · cases hstep
  | resume =>
    simp only [BridgeEvent.forwarded, Option.toList_none, List.append_nil]
    simp only [step] at hstep
    split at hstep
    · cases hstep
    · next rest hstage =>
      cases hstep
      exact accounts_greet h hstage
    · next rest hstage =>
      cases hstep
      exact accounts_flush h hstage
    · next rest hstage =>
      cases hstep
      refine (accounts_endRelay h hstage).frame ?_
      rw [relay]
      split_ifs <;> rfl
  | write =>
    simp only [BridgeEvent.forwarded, Option.toList_none, List.append_nil]
    simp only [step] at hstep
    split at hstep
    · next data rest hidle hwrites =>
      cases hstep
      exact accounts_write h hidle hwrites
    · cases hstep
  | remoteInactive =>
    simp only [BridgeEvent.forwarded, Option.toList_none, List.append_nil]
    simp only [step] at hstep
    split at hstep
    · next hidle =>
      cases hstep
      exact accounts_remoteInactive h hidle
    · cases hstep
  | localInactive =>
    cases hstep
    simp only [BridgeEvent.forwarded, Option.toList_none, List.append_nil]
    exact h.frame rfl
  | close =>
    cases hstep
    simp only [BridgeEvent.forwarded, Option.toList_none, List.append_nil]
    exact accounts_close h
  | clear =>
    simp only [BridgeEvent.forwarded, Option.toList_none, List.append_nil]
    simp only [step] at hstep
    split_ifs at hstep with hclosed
    cases hstep
    exact accounts_clear h hclosed

/-- The chunks of the client in a run, in order. -/
def forwarded (es : List BridgeEvent) : List (List Byte) := es.filterMap BridgeEvent.forwarded

theorem accounts_run (es : List BridgeEvent) {t : RetailLoggedOutJs5Proxy} (h : s.Accounts fs)
    (hrun : s.run es = some t) : t.Accounts (fs ++ forwarded es) := by
  induction es generalizing s fs with
  | nil =>
    cases hrun
    rw [forwarded, List.filterMap_nil, List.append_nil]
    exact h
  | cons e es ih =>
    obtain ⟨u, hstep, hrest⟩ := Option.bind_eq_some_iff.mp hrun
    have hlater := ih (accounts_step h hstep) hrest
    rw [List.append_assoc] at hlater
    rw [forwarded, List.filterMap_cons]
    cases hdata : e.forwarded with
    | none =>
      rw [hdata, Option.toList_none, List.nil_append] at hlater
      exact hlater
    | some data =>
      rw [hdata] at hlater
      exact hlater

/-- The chunks go on in order, each once, behind what the proxy itself sends; none is left out
before the proxy is closed, and none left over once the event loop has nothing to do. -/
theorem forwards_in_order (major minor : Word) (token : List Char) (language : Word)
    (es : List BridgeEvent) {s : RetailLoggedOutJs5Proxy}
    (hrun : run { major, minor, token, language } es = some s) :
    s.toRemote.Sublist (s.mirrored (forwarded es)) ∧
      (s.closed = false → s.toRemote <+: s.mirrored (forwarded es)) ∧
      (s.closed = false → s.awaitingHandshakeResponse = false → s.remoteActive = true →
        s.stage = .idle → s.leftWrites = [] →
        s.toRemote = s.mirrored (forwarded es) ∧ s.pendingClientWrites = []) := by
  have hstart : Accounts { major, minor, token, language } [] :=
    .waiting rfl rfl rfl rfl rfl ⟨List.Sublist.refl [], fun _ => rfl⟩
  have h := accounts_run es hstart hrun
  rw [List.nil_append] at h
  cases h with
  | waiting hready hawaiting hstage hleft hsent hkept =>
    have hpre : s.toRemote <+: s.mirrored (forwarded es) := by
      rw [hsent]
      split_ifs
      · exact ⟨_, rfl⟩
      · exact List.nil_prefix
    refine ⟨hpre.sublist, fun _ => hpre, fun _ hdone => ?_⟩
    rw [hawaiting] at hdone
    cases hdone
  | greeting rest hready hchannel hawaiting hstage hsent hleft hkept =>
    have hpre : s.toRemote <+: s.mirrored (forwarded es) := by
      rw [hsent]
      exact ⟨_, rfl⟩
    refine ⟨hpre.sublist, fun _ => hpre, fun _ _ _ hidle => ?_⟩
    rw [hstage] at hidle
    cases hidle
  | flushing rest hready hchannel hawaiting hstage hsent hleft hkept =>
    have hpre : s.toRemote <+: s.mirrored (forwarded es) := by
      rw [hsent]
      split_ifs
      · exact ⟨_, rfl⟩
      · exact ⟨_, rfl⟩
    refine ⟨hpre.sublist, fun _ => hpre, fun _ _ _ hidle => ?_⟩
    rw [hstage] at hidle
    cases hidle
  | «open» sent hready hchannel hawaiting hstage hactive hpending hsent hkept =>
    have hsub := (List.sublist_append_left sent s.leftWrites).trans hkept.1
    refine ⟨hsent ▸ mirrored_sublist hsub, fun hopen => ?_, fun hopen _ _ _ hleft => ?_⟩
    · rw [hsent, ← hkept.2 hopen]
      exact prefix_mirrored (List.prefix_append sent s.leftWrites)
    · have hall := hkept.2 hopen
      rw [hleft, List.append_nil] at hall
      exact ⟨hall ▸ hsent, hpending⟩
  | shut hready hchannel hawaiting hstage hactive hsublist hpre =>
    refine ⟨hsublist, hpre, fun _ _ hactive' => ?_⟩
    rw [hactive] at hactive'
    cases hactive'

/-- A chunk that comes before the answer of the server, and one that comes within it. -/
def flushedRun : List BridgeEvent :=
  [.forward [1, 2], .channelActive, .receive [0, 9], .forward [3], .resume, .resume, .resume, .write]

theorem forwards_in_order_flushedRun :
    ∃ s, run { major := 947, minor := 1, token := ['t'], language := 0 } flushedRun = some s ∧
      s.toRemote = s.mirrored [[1, 2], [3]] :=
  ⟨_, rfl, ((forwards_in_order 947 1 ['t'] 0 flushedRun rfl).2.2 rfl rfl rfl rfl rfl).1⟩

end Steps

section Answers
variable {s t : RetailLoggedOutJs5Proxy} {bytes : List Byte}

/-- What the client is to get of the bytes of the server: all behind the first zero. -/
def answered (bytes : List Byte) : List Byte := (bytes.dropWhile (· ≠ 0)).tail

/-- The bytes that the event loop has left. -/
def left (s : RetailLoggedOutJs5Proxy) : List Byte :=
  match s.stage with
  | .idle => []
  | .greeting rest | .flushing rest | .relaying rest => rest

/-- What reached the client so far. -/
structure Relays (s : RetailLoggedOutJs5Proxy) (bytes : List Byte) : Prop where
  awaiting : s.awaitingHandshakeResponse = true → bytes.dropWhile (· ≠ 0) = []
  accepted : s.awaitingHandshakeResponse = false → bytes.dropWhile (· ≠ 0) ≠ []
  sent : s.toLocal.flatten <+: answered bytes
  all : s.localActive = true → s.toLocal.flatten ++ s.left = answered bytes

theorem answered_append (h : bytes.dropWhile (· ≠ 0) ≠ []) (more : List Byte) :
    answered (bytes ++ more) = answered bytes ++ more := by
  rw [answered, List.dropWhile_append, if_neg (by rwa [List.isEmpty_iff]), answered,
    List.tail_append_of_ne_nil h]

theorem answered_append_of_awaiting (h : bytes.dropWhile (· ≠ 0) = []) (more : List Byte) :
    (bytes ++ more).dropWhile (· ≠ 0) = more.dropWhile (· ≠ 0) := by
  rw [List.dropWhile_append, if_pos (by rw [h]; rfl)]

/-- A change that the answers do not look at. -/
theorem Relays.frame (h : s.Relays bytes)
    (hawaiting : t.awaitingHandshakeResponse = s.awaitingHandshakeResponse)
    (hleft : t.left = s.left) (hlocal : t.localActive = true → s.localActive = true)
    (hsent : t.toLocal = s.toLocal) : t.Relays bytes where
  awaiting htrue := h.awaiting (hawaiting ▸ htrue)
  accepted hfalse := h.accepted (hawaiting ▸ hfalse)
  sent := hsent ▸ h.sent
  all hactive := by rw [hsent, hleft, h.all (hlocal hactive)]

theorem relays_decodeResponse (h : s.Relays bytes) (hidle : s.stage = .idle)
    (hawaiting : s.awaitingHandshakeResponse = true) (more : List Byte) :
    (s.decodeResponse more).Relays (bytes ++ more) := by
  have hnone := h.awaiting hawaiting
  have hdrop := answered_append_of_awaiting hnone more
  have hlocal : s.toLocal.flatten = [] := by
    have hsent := h.sent
    rw [answered, hnone] at hsent
    exact List.prefix_nil.mp hsent
  have hleft : s.left = [] := by rw [left, hidle]
  rcases s.decodeResponse_cases more with ⟨hsame, hmore⟩ | ⟨rest, active, hmore, -, heq⟩
  · have hanswered : answered (bytes ++ more) = [] := by
      rw [answered, hdrop, hmore]
      rfl
    have hrelays : s.Relays (bytes ++ more) := by
      refine ⟨fun _ => hdrop.trans hmore, fun hdone => ?_, ?_, fun _ => ?_⟩
      · rw [hawaiting] at hdone
        cases hdone
      · rw [hlocal]
        exact List.nil_prefix
      · rw [hlocal, hleft, hanswered]
        rfl
    rcases hsame with heq | heq
    · rw [heq]
      exact hrelays
    · rw [heq]
      exact hrelays.frame rfl rfl id rfl
  · have hanswered : answered (bytes ++ more) = rest := by
      rw [answered, hdrop, hmore]
      rfl
    rw [heq]
    refine ⟨(fun hwaiting => nomatch hwaiting), fun _ => ?_, ?_, fun _ => ?_⟩
    · rw [hdrop, hmore]
      exact List.cons_ne_nil 0 rest
    · change s.toLocal.flatten <+: _
      rw [hlocal]
      exact List.nil_prefix
    · change s.toLocal.flatten ++ rest = _
      rw [hlocal, hanswered]
      rfl

theorem relays_startRelay (h : s.Relays bytes) (hidle : s.stage = .idle)
    (hawaiting : s.awaitingHandshakeResponse = false) (more : List Byte) :
    Relays { s with stage := .relaying more } (bytes ++ more) := by
  have haccepted := h.accepted hawaiting
  have hanswered := answered_append haccepted more
  refine ⟨fun hwaiting => ?_, fun _ => ?_, ?_, fun hactive => ?_⟩
  · rw [hawaiting] at hwaiting
    cases hwaiting
  · rw [List.dropWhile_append, if_neg (by rwa [List.isEmpty_iff])]
    exact List.append_ne_nil_of_left_ne_nil haccepted more
  · rw [hanswered]
    exact h.sent.trans (List.prefix_append _ _)
  · have hall := h.all hactive
    rw [left, hidle, List.append_nil] at hall
    rw [hanswered, ← hall]
    rfl

theorem relays_relay (h : s.Relays bytes) {rest : List Byte} (hstage : s.stage = .relaying rest) :
    Relays { s.relay rest with stage := .idle } bytes := by
  have hleft : s.left = rest := by rw [left, hstage]
  by_cases hsend : rest ≠ [] ∧ s.localActive = true
  · have heq : s.relay rest = { s with toLocal := s.toLocal ++ [rest] } := if_pos hsend
    have hall := h.all hsend.2
    have hflat : (s.toLocal ++ [rest]).flatten = answered bytes := by
      rw [List.flatten_append, List.flatten_singleton, ← hleft, hall]
    rw [heq]
    refine ⟨h.awaiting, h.accepted, ?_, fun _ => ?_⟩
    · change (s.toLocal ++ [rest]).flatten <+: _
      exact hflat ▸ List.prefix_rfl
    · exact (List.append_nil _).trans hflat
  · have heq : s.relay rest = s := if_neg hsend
    rw [heq]
    refine ⟨h.awaiting, h.accepted, h.sent, fun hactive => ?_⟩
    have hnil : rest = [] := by
      by_contra hne
      exact hsend ⟨hne, hactive⟩
    have hall := h.all hactive
    rw [hleft, hnil] at hall
    exact hall

theorem relays_step {e : BridgeEvent} (h : s.Relays bytes) (hstep : s.step e = some t) :
    t.Relays (bytes ++ e.received) := by
  cases e with
  | receive more =>
    simp only [step] at hstep
    split at hstep
    · next hidle =>
      split_ifs at hstep with hchannel hawaiting
      · cases hstep
        exact relays_decodeResponse h hidle hawaiting more
      · cases hstep
        exact relays_startRelay h hidle (Bool.eq_false_of_not_eq_true hawaiting) more
    · cases hstep
  | resume =>
    simp only [BridgeEvent.received, List.append_nil]
    simp only [step] at hstep
    split at hstep
    · cases hstep
    · next rest hstage =>
      cases hstep
      refine h.frame rfl ?_ id rfl
      rw [left, left, hstage]
    · next rest hstage =>
      cases hstep
      have hleft : s.left = rest := by rw [left, hstage]
      rw [flushPendingClientWrites]
      split_ifs
      · exact h.frame rfl hleft.symm id rfl
      · exact h.frame rfl hleft.symm id rfl
    · next rest hstage =>
      cases hstep
      exact relays_relay h hstage
  | forward data =>
    cases hstep
    obtain ⟨pending, left, heq, -⟩ := forwardClientBytes_frame (s := s) data
    simp only [BridgeEvent.received, List.append_nil]
    rw [heq]
    exact h.frame rfl rfl id rfl
  | channelActive =>
    simp only [step] at hstep
    split_ifs at hstep
    cases hstep
    simp only [BridgeEvent.received, List.append_nil]
    exact h.frame rfl rfl id rfl
  | write =>
    simp only [BridgeEvent.received, List.append_nil]
    simp only [step] at hstep
    split at hstep
    · cases hstep
      exact h.frame rfl rfl id rfl
    · cases hstep
  | remoteInactive =>
    simp only [BridgeEvent.received, List.append_nil]
    simp only [step] at hstep
    split at hstep
    · cases hstep
      exact h.frame rfl rfl id rfl
    · cases hstep
  | localInactive =>
    cases hstep
    simp only [BridgeEvent.received, List.append_nil]
    exact h.frame rfl rfl (fun hactive => nomatch hactive) rfl
  | close =>
    cases hstep
    simp only [BridgeEvent.received, List.append_nil]
    exact h.frame rfl rfl id rfl
  | clear =>
    simp only [step] at hstep
    split_ifs at hstep
    cases hstep
    simp only [BridgeEvent.received, List.append_nil]
    exact h.frame rfl rfl id rfl

theorem relays_run (es : List BridgeEvent) (h : s.Relays bytes) (hrun : s.run es = some t) :
    t.Relays (bytes ++ es.flatMap BridgeEvent.received) := by
  induction es generalizing s bytes with
  | nil =>
    cases hrun
    rw [List.flatMap_nil, List.append_nil]
    exact h
  | cons e es ih =>
    obtain ⟨u, hstep, hrest⟩ := Option.bind_eq_some_iff.mp hrun
    rw [List.flatMap_cons, ← List.append_assoc]
    exact ih (relays_step h hstep) hrest

/-- The client gets the bytes behind the first zero of the server, in order and each once, and as
long as it is there all of them but those that the event loop still has. -/
theorem relays_answers (major minor : Word) (token : List Char) (language : Word)
    (es : List BridgeEvent) {s : RetailLoggedOutJs5Proxy}
    (hrun : run { major, minor, token, language } es = some s) :
    s.toLocal.flatten <+: answered (es.flatMap BridgeEvent.received) ∧
      (s.localActive = true →
        s.toLocal.flatten ++ s.left = answered (es.flatMap BridgeEvent.received)) := by
  have hstart : Relays { major, minor, token, language } [] :=
    ⟨fun _ => rfl, (fun hdone => nomatch hdone), List.nil_prefix, fun _ => rfl⟩
  have h := relays_run es hstart hrun
  exact ⟨h.sent, h.all⟩

theorem relays_answers_flushedRun :
    ∃ s, run { major := 947, minor := 1, token := ['t'], language := 0 } flushedRun = some s ∧
      s.toLocal.flatten ++ s.left = [9] :=
  ⟨_, rfl, (relays_answers 947 1 ['t'] 0 flushedRun rfl).2 rfl⟩

end Answers

end RetailLoggedOutJs5Proxy

end OpenNXT.Net
