import Mathlib.Data.List.Infix
import OpenNXT.Buffer.BigEndian

/-! Where the first bytes after a TLS handshake are sent. -/
namespace OpenNXT.Tools.TlsTerminateProxy
open Buffer

def ascii (s : List Char) : List Byte := s.map fun c => BitVec.ofNat 8 c.toNat

def httpMethodPrefixes : List (List Byte) :=
  [ascii ['G', 'E', 'T', ' '], ascii ['P', 'O', 'S', 'T', ' '], ascii ['H', 'E', 'A', 'D', ' '],
    ascii ['O', 'P', 'T', 'I', 'O', 'N', 'S', ' '], ascii ['P', 'U', 'T', ' '],
    ascii ['D', 'E', 'L', 'E', 'T', 'E', ' '], ascii ['P', 'A', 'T', 'C', 'H', ' ']]

def js5HandshakePrefix : List Byte := [0x0f]

inductive Route
  | tlsHttpContent | tlsSecureGame
  deriving DecidableEq

inductive Source
  | clientHttp | clientNonhttp | clientJs5 | clientJs5Retail | backend | timeout | eof
  deriving DecidableEq

def looksLikeHttpRequest (data : List Byte) : Bool :=
  httpMethodPrefixes.any fun method => method.isPrefixOf data

def looksLikeJs5HandshakePrefix (data : List Byte) : Bool :=
  !data.isEmpty && js5HandshakePrefix.isPrefixOf data

/-- Without a decision where the bytes may yet become a method. -/
def classifyTlsClientPrefixRoute (data : List Byte) : Option Route :=
  if data.isEmpty then none
  else if looksLikeHttpRequest data then some .tlsHttpContent
  else if httpMethodPrefixes.any fun method => data.isPrefixOf method then none
  else some .tlsSecureGame

/-- Payloads are left out where they are empty. -/
def decideTlsFirstAppdataRoute (clientData backendData : List Byte) (timedOut eof : Bool) :
    Route × Source :=
  if !clientData.isEmpty then
    if looksLikeHttpRequest clientData then (.tlsHttpContent, .clientHttp)
    else (.tlsSecureGame, .clientNonhttp)
  else if !backendData.isEmpty then (.tlsSecureGame, .backend)
  else if timedOut then (.tlsSecureGame, .timeout)
  else if eof then (.tlsSecureGame, .eof)
  else (.tlsSecureGame, .timeout)

/-- What `recv_ready_data` returns: nothing yet, or bytes, which are empty at the end. -/
abbrev Received := Option (List Byte)

/-- One turn at `select`: the time is up, or the streams that are ready are read. -/
inductive Poll
  | timedOut
  | ready (client backend : Option Received)

/-- What a function hands on, and the turns that it leaves to others. -/
structure Decision where
  route : Route
  source : Source
  clientPayload : List Byte
  backendPayload : List Byte
  rest : List Poll

section Loops
variable (allowRetailJs5Upstream : Bool)

/-- What is decided before a turn. -/
def sniffed (clientPayload : List Byte) : Option (Route × Source) :=
  if looksLikeJs5HandshakePrefix clientPayload then
    some (.tlsSecureGame, if allowRetailJs5Upstream then .clientJs5Retail else .clientJs5)
  else
    match classifyTlsClientPrefixRoute clientPayload with
    | some .tlsHttpContent => some (.tlsHttpContent, .clientHttp)
    | some .tlsSecureGame => some (.tlsSecureGame, .clientNonhttp)
    | none => none

/-- The loop of `sniff_terminated_tls_route`, which only ever looks at the client. -/
def sniffLoop (clientPayload : List Byte) : List Poll → Option Decision
  | [] =>
    match sniffed allowRetailJs5Upstream clientPayload with
    | some (route, source) => some ⟨route, source, clientPayload, [], []⟩
    | none => none
  | poll :: rest =>
    match sniffed allowRetailJs5Upstream clientPayload with
    | some (route, source) => some ⟨route, source, clientPayload, [], poll :: rest⟩
    | none =>
      match poll with
      | .timedOut => some ⟨.tlsSecureGame, .timeout, clientPayload, [], rest⟩
      | .ready (some (some [])) _ =>
        -- the payload is looked at once more at the end of the stream
        match sniffed allowRetailJs5Upstream clientPayload with
        | some (route, source) => some ⟨route, source, clientPayload, [], rest⟩
        | none => some ⟨.tlsSecureGame, .eof, clientPayload, [], rest⟩
      | .ready (some (some data)) _ => sniffLoop (clientPayload ++ data) rest
      | .ready (some none) _ => sniffLoop clientPayload rest
      | .ready none _ => sniffLoop clientPayload rest

def sniffTerminatedTlsRoute (polls : List Poll) : Option Decision :=
  sniffLoop allowRetailJs5Upstream [] polls

end Loops

def decided (clientPayload backendPayload : List Byte) (timedOut eof : Bool) (rest : List Poll) :
    Decision :=
  let (route, source) := decideTlsFirstAppdataRoute clientPayload backendPayload timedOut eof
  ⟨route, source, clientPayload, backendPayload, rest⟩

/-- The half of a turn that is the backend's, and what is decided after it. -/
def backendTurn (clientPayload backendPayload : List Byte) (rest : List Poll)
    (backend : Option Received) : Option Decision :=
  match backend with
  | some (some []) => some (decided clientPayload backendPayload false true rest)
  | some (some data) => some (decided clientPayload (backendPayload ++ data) false false rest)
  | _ =>
    if clientPayload.isEmpty then none
    else some (decided clientPayload backendPayload false false rest)

/-- The loop of `classify_tls_first_appdata`. -/
def classifyLoop (clientPayload backendPayload : List Byte) : List Poll → Option Decision
  | [] => none
  | .timedOut :: rest => some (decided clientPayload backendPayload true false rest)
  | .ready (some (some [])) _ :: rest =>
    some (decided clientPayload backendPayload false true rest)
  | .ready (some (some data)) backend :: rest =>
    if looksLikeHttpRequest (clientPayload ++ data) then
      some ⟨.tlsHttpContent, .clientHttp, clientPayload ++ data, backendPayload, rest⟩
    else
      match backendTurn (clientPayload ++ data) backendPayload rest backend with
      | some decision => some decision
      | none => classifyLoop (clientPayload ++ data) backendPayload rest
  | .ready _ backend :: rest =>
    match backendTurn clientPayload backendPayload rest backend with
    | some decision => some decision
    | none => classifyLoop clientPayload backendPayload rest

def classifyTlsFirstAppdata (polls : List Poll) : Option Decision := classifyLoop [] [] polls

def StartsWithMethod (data : List Byte) : Prop := ∃ method ∈ httpMethodPrefixes, method <+: data

section Prefixes
variable {retail : Bool} {data stream : List Byte}

theorem looksLikeHttpRequest_iff : looksLikeHttpRequest data ↔ StartsWithMethod data := by
  simp only [looksLikeHttpRequest, StartsWithMethod, List.any_eq_true, List.isPrefixOf_iff_prefix]

theorem StartsWithMethod.mono (h : StartsWithMethod data) (hpre : data <+: stream) :
    StartsWithMethod stream := by
  obtain ⟨method, hmem, hmethod⟩ := h
  exact ⟨method, hmem, hmethod.trans hpre⟩

/-- Neither begins with the other. -/
def Apart (data : List Byte) : Prop :=
  ∀ method ∈ httpMethodPrefixes, ¬ method <+: data ∧ ¬ data <+: method

theorem Apart.not_startsWithMethod (h : Apart data) (hpre : data <+: stream) :
    ¬ StartsWithMethod stream := by
  rintro ⟨method, hmem, hmethod⟩
  rcases List.prefix_or_prefix_of_prefix hmethod hpre with hle | hle
  · exact (h method hmem).1 hle
  · exact (h method hmem).2 hle

/-- No method begins with the byte of a handshake. -/
theorem apart_of_js5 (h : looksLikeJs5HandshakePrefix data) : Apart data := by
  have hall : ∀ method ∈ httpMethodPrefixes, ∃ b bs, method = b :: bs ∧ b ≠ 0x0f := by
    intro method hmem
    simp only [httpMethodPrefixes, ascii, List.map_cons, List.mem_cons, List.not_mem_nil,
      or_false] at hmem
    rcases hmem with rfl | rfl | rfl | rfl | rfl | rfl | rfl <;> exact ⟨_, _, rfl, by decide⟩
  intro method hmem
  obtain ⟨b, bs, rfl, hb⟩ := hall method hmem
  cases data with
  | nil => cases h
  | cons c cs =>
    have hc : c = 0x0f := by
      simp only [looksLikeJs5HandshakePrefix, js5HandshakePrefix, List.isPrefixOf_cons_cons,
        Bool.and_eq_true, beq_iff_eq] at h
      exact h.2.1.symm
    rw [List.cons_prefix_cons, List.cons_prefix_cons, hc]
    exact ⟨fun hle => hb hle.1, fun hle => hb hle.1.symm⟩

/-- A method is there, may yet be there, or cannot be. -/
theorem sniffed_cases (retail : Bool) (data : List Byte) :
    (StartsWithMethod data ∧ sniffed retail data = some (.tlsHttpContent, .clientHttp)) ∨
      (¬ StartsWithMethod data ∧ (∃ method ∈ httpMethodPrefixes, data <+: method) ∧
        sniffed retail data = none) ∨
      (Apart data ∧ ∃ source, sniffed retail data = some (.tlsSecureGame, source)) := by
  rw [sniffed]
  by_cases hjs5 : looksLikeJs5HandshakePrefix data
  · rw [if_pos hjs5]
    exact Or.inr (Or.inr ⟨apart_of_js5 hjs5, _, rfl⟩)
  · rw [if_neg hjs5, classifyTlsClientPrefixRoute]
    by_cases hempty : data.isEmpty
    · have hnil := List.isEmpty_iff.mp hempty
      rw [if_pos hempty, hnil]
      refine Or.inr (Or.inl ⟨?_, ⟨_, List.mem_cons_self, List.nil_prefix⟩, rfl⟩)
      rintro ⟨method, hmem, hmethod⟩
      rw [List.prefix_nil.mp hmethod] at hmem
      revert hmem
      decide
    · rw [if_neg hempty]
      by_cases hhttp : looksLikeHttpRequest data
      · rw [if_pos hhttp]
        exact Or.inl ⟨looksLikeHttpRequest_iff.mp hhttp, rfl⟩
      · have hno := fun hstarts => hhttp (looksLikeHttpRequest_iff.mpr hstarts)
        have hpart : (httpMethodPrefixes.any fun method => data.isPrefixOf method) ↔
            ∃ method ∈ httpMethodPrefixes, data <+: method := by
          simp only [List.any_eq_true, List.isPrefixOf_iff_prefix]
        rw [if_neg hhttp]
        by_cases hmay : ∃ method ∈ httpMethodPrefixes, data <+: method
        · rw [if_pos (hpart.mpr hmay)]
          exact Or.inr (Or.inl ⟨hno, hmay, rfl⟩)
        · rw [if_neg fun hany => hmay (hpart.mp hany)]
          refine Or.inr (Or.inr ⟨fun method hmem => ⟨fun hle => hno ⟨method, hmem, hle⟩, ?_⟩, _, rfl⟩)
          exact fun hle => hmay ⟨method, hmem, hle⟩

end Prefixes

/-- A turn that reads some bytes of the client, or finds that there are none yet. -/
def Poll.Quiet : Poll → Prop
  | .ready (some (some data)) none => data ≠ []
  | .ready (some none) none => True
  | _ => False

def Poll.clientBytes : Poll → List Byte
  | .ready (some (some data)) _ => data
  | _ => []

/-- All that the client sends. -/
def streamOf (polls : List Poll) : List Byte := polls.flatMap Poll.clientBytes

/-- The bytes of the first turn that has any. -/
def firstRead : List Poll → List Byte
  | [] => []
  | poll :: rest => if poll.clientBytes.isEmpty then firstRead rest else poll.clientBytes

/-- The bytes that were read, and nothing of the turns that are left. -/
def HandsOn (polls : List Poll) (d : Decision) : Prop :=
  ∃ taken, polls = taken ++ d.rest ∧ d.clientPayload = streamOf taken

section Runs
variable {retail : Bool} {polls : List Poll}

theorem Poll.Quiet.cases {poll : Poll} (h : poll.Quiet) :
    (∃ b bs, poll = .ready (some (some (b :: bs))) none) ∨ poll = .ready (some none) none := by
  cases poll with
  | timedOut => exact h.elim
  | ready client backend =>
    cases backend with
    | some received =>
      cases client with
      | none => exact h.elim
      | some data => cases data <;> exact h.elim
    | none =>
      cases client with
      | none => exact h.elim
      | some received =>
        cases received with
        | none => exact Or.inr rfl
        | some data =>
          obtain ⟨b, bs, rfl⟩ := List.exists_cons_of_ne_nil h
          exact Or.inl ⟨b, bs, rfl⟩

/-- The loop stops as soon as the payload is decided on, and only then. -/
theorem sniffLoop_cases (h : ∀ poll ∈ polls, poll.Quiet) (payload : List Byte) :
    (sniffLoop retail payload polls = none ∧ sniffed retail (payload ++ streamOf polls) = none) ∨
      ∃ d taken, sniffLoop retail payload polls = some d ∧ polls = taken ++ d.rest ∧
        d.clientPayload = payload ++ streamOf taken ∧
        sniffed retail d.clientPayload = some (d.route, d.source) := by
  induction polls generalizing payload with
  | nil =>
    cases hsniffed : sniffed retail payload with
    | none =>
      left
      simp only [sniffLoop, hsniffed, streamOf, List.flatMap_nil, List.append_nil, and_self]
    | some decision =>
      obtain ⟨route, source⟩ := decision
      right
      refine ⟨⟨route, source, payload, [], []⟩, [], ?_, rfl, (List.append_nil payload).symm, hsniffed⟩
      simp only [sniffLoop, hsniffed]
  | cons poll rest ih =>
    have hrest := fun poll' hmem => h poll' (List.mem_cons_of_mem poll hmem)
    cases hsniffed : sniffed retail payload with
    | some decision =>
      obtain ⟨route, source⟩ := decision
      right
      refine ⟨⟨route, source, payload, [], poll :: rest⟩, [], ?_, rfl,
        (List.append_nil payload).symm, hsniffed⟩
      simp only [sniffLoop, hsniffed]
    | none =>
      have hstep : sniffLoop retail payload (poll :: rest) =
          sniffLoop retail (payload ++ poll.clientBytes) rest := by
        rcases (h poll List.mem_cons_self).cases with ⟨b, bs, rfl⟩ | rfl
        · simp only [sniffLoop, hsniffed, Poll.clientBytes]
        · simp only [sniffLoop, hsniffed, Poll.clientBytes, List.append_nil]
      have hstream : payload ++ streamOf (poll :: rest) =
          payload ++ poll.clientBytes ++ streamOf rest := by
        rw [streamOf, List.flatMap_cons, List.append_assoc, streamOf]
      rw [hstep, hstream]
      rcases ih hrest (payload ++ poll.clientBytes) with hnone | ⟨d, taken, hd, hsplit, hpayload, hs⟩
      · exact Or.inl hnone
      · refine Or.inr ⟨d, poll :: taken, hd, by rw [hsplit, List.cons_append], ?_, hs⟩
        rw [hpayload, streamOf, streamOf, List.flatMap_cons, List.append_assoc]

/-- The other loop stops at the first read, whatever it is. -/
theorem classify_cases (h : ∀ poll ∈ polls, poll.Quiet) :
    (classifyTlsFirstAppdata polls = none ∧ streamOf polls = []) ∨
      ∃ d taken, classifyTlsFirstAppdata polls = some d ∧ polls = taken ++ d.rest ∧
        d.clientPayload = streamOf taken ∧ d.clientPayload = firstRead polls ∧
        (d.route = .tlsHttpContent ↔ StartsWithMethod (firstRead polls)) := by
  induction polls with
  | nil => exact Or.inl ⟨rfl, rfl⟩
  | cons poll rest ih =>
    have hrest := fun poll' hmem => h poll' (List.mem_cons_of_mem poll hmem)
    rcases (h poll List.mem_cons_self).cases with ⟨b, bs, rfl⟩ | rfl
    · have hfirst : firstRead (.ready (some (some (b :: bs))) none :: rest) = b :: bs := rfl
      have hturn : classifyTlsFirstAppdata (.ready (some (some (b :: bs))) none :: rest) =
          if looksLikeHttpRequest (b :: bs) then
            some ⟨.tlsHttpContent, .clientHttp, b :: bs, [], rest⟩
          else some ⟨.tlsSecureGame, .clientNonhttp, b :: bs, [], rest⟩ := by
        rw [classifyTlsFirstAppdata, classifyLoop, List.nil_append]
        · by_cases hhttp : looksLikeHttpRequest (b :: bs)
          · rw [if_pos hhttp, if_pos hhttp]
          · rw [if_neg hhttp, if_neg hhttp]
            simp [backendTurn, decided, decideTlsFirstAppdataRoute, hhttp]
        · exact List.cons_ne_nil b bs
      have htaken : b :: bs = streamOf [.ready (some (some (b :: bs))) none] :=
        (List.append_nil _).symm
      rw [hturn, hfirst]
      by_cases hhttp : looksLikeHttpRequest (b :: bs)
      · rw [if_pos hhttp]
        exact Or.inr ⟨_, [_], rfl, rfl, htaken, rfl,
          iff_of_true rfl (looksLikeHttpRequest_iff.mp hhttp)⟩
      · rw [if_neg hhttp]
        exact Or.inr ⟨_, [_], rfl, rfl, htaken, rfl,
          iff_of_false (fun heq => nomatch heq) fun hs => hhttp (looksLikeHttpRequest_iff.mpr hs)⟩
    · have hwait : classifyTlsFirstAppdata (.ready (some none) none :: rest) =
          classifyTlsFirstAppdata rest := rfl
      have hfirst : firstRead (.ready (some none) none :: rest) = firstRead rest := rfl
      have hstream : streamOf (.ready (some none) none :: rest) = streamOf rest := rfl
      rw [hwait, hfirst, hstream]
      rcases ih hrest with hnone | ⟨d, taken, hd, hsplit, hpayload, hread, hroute⟩
      · exact Or.inl hnone
      · refine Or.inr ⟨d, .ready (some none) none :: taken, hd, ?_, hpayload, hread, hroute⟩
        rw [hsplit, List.cons_append]

theorem streamOf_append (taken rest : List Poll) :
    streamOf (taken ++ rest) = streamOf taken ++ streamOf rest := by
  rw [streamOf, List.flatMap_append, ← streamOf, ← streamOf]

/-- The first read is where the stream starts. -/
theorem firstRead_starts (polls : List Poll) : firstRead polls <+: streamOf polls := by
  induction polls with
  | nil => exact List.nil_prefix
  | cons poll rest ih =>
    rw [firstRead, streamOf, List.flatMap_cons]
    split_ifs with hempty
    · rw [List.isEmpty_iff.mp hempty]
      exact ih
    · exact List.prefix_append _ _

end Runs

/-- Both loops send a client to the content if and only if its stream starts with a method, they
agree, and they hand on what they read. -/
structure RoutesAgree (retail : Bool) (polls : List Poll) : Prop where
  classify : (∃ d, classifyTlsFirstAppdata polls = some d ∧ d.route = .tlsHttpContent) ↔
    StartsWithMethod (streamOf polls)
  sniff : (∃ d, sniffTerminatedTlsRoute retail polls = some d ∧ d.route = .tlsHttpContent) ↔
    StartsWithMethod (streamOf polls)
  agree : ∀ c s, classifyTlsFirstAppdata polls = some c →
    sniffTerminatedTlsRoute retail polls = some s → c.route = s.route
  handsOn : ∀ d, classifyTlsFirstAppdata polls = some d ∨
    sniffTerminatedTlsRoute retail polls = some d → HandsOn polls d
  classifies : streamOf polls ≠ [] → classifyTlsFirstAppdata polls ≠ none
  sniffs : (∀ method ∈ httpMethodPrefixes, ¬ streamOf polls <+: method) →
    sniffTerminatedTlsRoute retail polls ≠ none

section Agreement
variable {retail : Bool} {polls : List Poll}

theorem eq_secure_of_ne {route : Route} (h : route ≠ .tlsHttpContent) : route = .tlsSecureGame := by
  cases route with
  | tlsHttpContent => exact absurd rfl h
  | tlsSecureGame => rfl

/-- A decision of the sniffing loop is the one for the whole stream. -/
theorem sniffed_route {d : Decision} {taken : List Poll} (hsplit : polls = taken ++ d.rest)
    (hpayload : d.clientPayload = streamOf taken)
    (hs : sniffed retail d.clientPayload = some (d.route, d.source)) :
    d.route = .tlsHttpContent ↔ StartsWithMethod (streamOf polls) := by
  have hpre : d.clientPayload <+: streamOf polls := by
    rw [hsplit, streamOf_append, hpayload]
    exact List.prefix_append _ _
  rcases sniffed_cases retail d.clientPayload with ⟨hstarts, hhttp⟩ | ⟨-, -, hnone⟩ |
    ⟨hapart, source, hsecure⟩
  · rw [hhttp] at hs
    exact iff_of_true (congrArg Prod.fst (Option.some.inj hs)).symm (hstarts.mono hpre)
  · rw [hnone] at hs
    cases hs
  · rw [hsecure] at hs
    have hroute : d.route = .tlsSecureGame := (congrArg Prod.fst (Option.some.inj hs)).symm
    rw [hroute]
    exact iff_of_false (fun heq => nomatch heq) (hapart.not_startsWithMethod hpre)

theorem sniff_iff (h : ∀ poll ∈ polls, poll.Quiet) :
    (∃ d, sniffTerminatedTlsRoute retail polls = some d ∧ d.route = .tlsHttpContent) ↔
      StartsWithMethod (streamOf polls) := by
  rw [sniffTerminatedTlsRoute]
  rcases sniffLoop_cases h [] with ⟨hnone, hs⟩ |
    ⟨d, taken, hd, hsplit, hpayload, hs⟩
  · have hno : ¬ StartsWithMethod (streamOf polls) := by
      rw [List.nil_append] at hs
      rcases sniffed_cases retail (streamOf polls) with ⟨-, hhttp⟩ | ⟨hno, -⟩ | ⟨-, source, hsecure⟩
      · rw [hhttp] at hs
        cases hs
      · exact hno
      · rw [hsecure] at hs
        cases hs
    rw [hnone]
    exact iff_of_false (fun ⟨d, hd, _⟩ => nomatch hd) hno
  · rw [hd, ← sniffed_route hsplit hpayload hs]
    constructor
    · rintro ⟨e, he, hroute⟩
      cases he
      exact hroute
    · intro hroute
      exact ⟨d, rfl, hroute⟩

theorem sniff_handsOn (h : ∀ poll ∈ polls, poll.Quiet) {d : Decision}
    (hd : sniffTerminatedTlsRoute retail polls = some d) : HandsOn polls d := by
  rw [sniffTerminatedTlsRoute] at hd
  rcases sniffLoop_cases h [] with ⟨hnone, -⟩ | ⟨e, taken, he, hsplit, hpayload, -⟩
  · rw [hnone] at hd
    cases hd
  · rw [he] at hd
    cases hd
    exact ⟨taken, hsplit, hpayload⟩

/-- Only a part of a method leaves the loop without a decision. -/
theorem sniff_ne_none (h : ∀ poll ∈ polls, poll.Quiet)
    (hwhole : ∀ method ∈ httpMethodPrefixes, ¬ streamOf polls <+: method) :
    sniffTerminatedTlsRoute retail polls ≠ none := by
  rw [sniffTerminatedTlsRoute]
  rcases sniffLoop_cases h [] with ⟨-, hs⟩ | ⟨d, taken, hd, -⟩
  · rw [List.nil_append] at hs
    rcases sniffed_cases retail (streamOf polls) with ⟨-, hhttp⟩ | ⟨-, ⟨method, hmem, hle⟩, -⟩ |
      ⟨-, source, hsecure⟩
    · rw [hhttp] at hs
      cases hs
    · exact absurd hle (hwhole method hmem)
    · rw [hsecure] at hs
      cases hs
  · rw [hd]
    exact Option.some_ne_none d

theorem classify_iff (h : ∀ poll ∈ polls, poll.Quiet) :
    (∃ d, classifyTlsFirstAppdata polls = some d ∧ d.route = .tlsHttpContent) ↔
      StartsWithMethod (firstRead polls) := by
  rcases classify_cases h with ⟨hnone, hstream⟩ | ⟨d, taken, hd, -, -, -, hroute⟩
  · have hno : ¬ StartsWithMethod (firstRead polls) := by
      intro hstarts
      have hempty := hstarts.mono (firstRead_starts polls)
      rw [hstream] at hempty
      have hapart : ¬ StartsWithMethod [] := by
        rintro ⟨method, hmem, hmethod⟩
        rw [List.prefix_nil.mp hmethod] at hmem
        revert hmem
        decide
      exact hapart hempty
    rw [hnone]
    exact iff_of_false (fun ⟨d, hd, _⟩ => nomatch hd) hno
  · rw [hd, ← hroute]
    constructor
    · rintro ⟨e, he, heroute⟩
      cases he
      exact heroute
    · intro heroute
      exact ⟨d, rfl, heroute⟩

theorem classify_handsOn (h : ∀ poll ∈ polls, poll.Quiet) {d : Decision}
    (hd : classifyTlsFirstAppdata polls = some d) : HandsOn polls d := by
  rcases classify_cases h with ⟨hnone, -⟩ | ⟨e, taken, he, hsplit, hpayload, -⟩
  · rw [hnone] at hd
    cases hd
  · rw [he] at hd
    cases hd
    exact ⟨taken, hsplit, hpayload⟩

end Agreement

/-- The other loop is wrong about a method that the first read breaks off, and about no other
stream. -/
theorem routesAgree_iff (retail : Bool) (polls : List Poll) (h : ∀ poll ∈ polls, poll.Quiet) :
    RoutesAgree retail polls ↔
      (StartsWithMethod (streamOf polls) → StartsWithMethod (firstRead polls)) := by
  constructor
  · intro hagree hstarts
    exact (classify_iff h).mp (hagree.classify.mpr hstarts)
  · intro hfirst
    have hboth : StartsWithMethod (firstRead polls) ↔ StartsWithMethod (streamOf polls) :=
      ⟨fun hread => hread.mono (firstRead_starts polls), hfirst⟩
    have hclassify := (classify_iff h).trans hboth
    have hsniff := @sniff_iff retail polls h
    refine ⟨hclassify, hsniff, ?_, ?_, ?_, sniff_ne_none h⟩
    · intro c s hc hs
      by_cases hstarts : StartsWithMethod (streamOf polls)
      · obtain ⟨c', hc', hcroute⟩ := hclassify.mpr hstarts
        obtain ⟨s', hs', hsroute⟩ := hsniff.mpr hstarts
        rw [hc] at hc'
        rw [hs] at hs'
        cases hc'
        cases hs'
        rw [hcroute, hsroute]
      · have hcroute := eq_secure_of_ne fun hroute => hstarts (hclassify.mp ⟨c, hc, hroute⟩)
        have hsroute := eq_secure_of_ne fun hroute => hstarts (hsniff.mp ⟨s, hs, hroute⟩)
        rw [hcroute, hsroute]
    · rintro d (hd | hd)
      · exact classify_handsOn h hd
      · exact sniff_handsOn h hd
    · intro hne hnone
      rcases classify_cases h with ⟨-, hempty⟩ | ⟨d, taken, hd, -⟩
      · exact hne hempty
      · rw [hnone] at hd
        cases hd

/-- The method comes whole, in front of other bytes. -/
theorem routesAgree_iff_whole : RoutesAgree false
    [.ready (some none) none, .ready (some (some (ascii ['G', 'E', 'T', ' ', '/']))) none,
      .ready (some (some (ascii ['x']))) none] := by
  have hquiet : ∀ poll ∈ [Poll.ready (some none) none,
      .ready (some (some (ascii ['G', 'E', 'T', ' ', '/']))) none,
      .ready (some (some (ascii ['x']))) none], poll.Quiet := by
    intro poll hmem
    simp only [List.mem_cons, List.not_mem_nil, or_false] at hmem
    rcases hmem with rfl | rfl | rfl
    · trivial
    · exact List.cons_ne_nil _ _
    · exact List.cons_ne_nil _ _
  rw [routesAgree_iff false _ hquiet]
  intro _
  exact ⟨_, List.mem_cons_self, ascii ['/'], rfl⟩

/-- The first read stops inside the method. -/
theorem not_routesAgree_broken : ¬ RoutesAgree false
    [.ready (some (some (ascii ['G', 'E']))) none,
      .ready (some (some (ascii ['T', ' ', '/']))) none] := by
  intro hagree
  have hstarts : StartsWithMethod (streamOf [.ready (some (some (ascii ['G', 'E']))) none,
      .ready (some (some (ascii ['T', ' ', '/']))) none]) :=
    ⟨_, List.mem_cons_self, ascii ['/'], rfl⟩
  obtain ⟨d, hd, hroute⟩ := hagree.classify.mpr hstarts
  have hsecure : classifyTlsFirstAppdata [.ready (some (some (ascii ['G', 'E']))) none,
      .ready (some (some (ascii ['T', ' ', '/']))) none] =
      some ⟨.tlsSecureGame, .clientNonhttp, ascii ['G', 'E'], [],
        [.ready (some (some (ascii ['T', ' ', '/']))) none]⟩ := rfl
  rw [hsecure] at hd
  cases hd
  cases hroute

end OpenNXT.Tools.TlsTerminateProxy
