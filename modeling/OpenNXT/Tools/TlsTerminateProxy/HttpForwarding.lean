import OpenNXT.Tools.TlsTerminateProxy.HttpRequestStream

/-! What the upstream gets of a stream of requests. -/
namespace OpenNXT.Tools.TlsTerminateProxy
open Buffer Data Latin1

/-- What a request is for the upstream: its own lines but for three fields, one of them the host,
and its body. -/
def Forwards (upstreamHost : List Char) (r : Request) (sent : List Byte) : Prop :=
  ∃ header lines, sent = header ++ httpHeaderTerminator ++ r.body ∧
    decode header = joinLines '\r' '\n' (r.requestLine :: lines) ∧
    (∀ line ∈ lines, IsLine '\r' '\n' line) ∧
    lines.filter (Other ·) = r.headers.filter (Other ·) ∧
    lines.filter (Named hostHeaderName ·) = [hostLine upstreamHost] ∧
    ∃ line ∈ lines, Named connectionHeaderName line

/-- Hosts that can be written into a header, each within its line or what becomes of it. -/
def Harmless (upstreamHost : List Char) (preserved : Option (List Char)) : Prop :=
  (Latin1.Encodable upstreamHost ∧ IsLine '\r' '\n' upstreamHost) ∧
    ∀ host ∈ preserved, Latin1.Encodable host ∧ Contained host

instance (upstreamHost : List Char) (preserved : Option (List Char)) :
    Decidable (Harmless upstreamHost preserved) :=
  inferInstanceAs (Decidable ((_ ∧ _) ∧ ∀ host ∈ preserved, _ ∧ _))

section Rewrite
variable (rt : Runtime) {upstreamHost : List Char} {r : Request}

/-- The text of the header that goes out. -/
def headerSent (upstreamHost : List Char) (preserved : Option (List Char)) (r : Request) : List Char :=
  joinLines '\r' '\n' (r.requestLine :: rewrittenLines upstreamHost preserved r.headers)

theorem rewriteHttpRequest_eq (hup : upstreamHost ≠ []) (h : r.WellFormed)
    (originalHost remembered : Option (List Char)) : ∃ changed,
      rewriteHttpRequest rt upstreamHost r.bytes originalHost remembered =
        ((encode (headerSent upstreamHost
            (preservedHost rt upstreamHost r.path originalHost remembered).1 r)).map fun header =>
          (header ++ httpHeaderTerminator ++ r.body, changed),
        (preservedHost rt upstreamHost r.path originalHost remembered).2) := by
  have hlooks := h.looksLikeHttpRequest []
  have hfind := h.findSub_bytes []
  have htake := Request.WellFormed.take_header r []
  have hdrop := Request.WellFormed.drop_header r []
  rw [List.append_nil] at hlooks hfind htake hdrop
  rw [List.append_nil] at hdrop
  have hgo : ¬ (upstreamHost = [] ∨ ¬ looksLikeHttpRequest r.bytes = true) :=
    not_or.mpr ⟨hup, not_not_intro hlooks⟩
  have hencodable : ∀ line ∈ r.headers, Latin1.Encodable line := fun line hmem =>
    (h.lines line (List.mem_cons_of_mem _ hmem)).1
  unfold rewriteHttpRequest
  rw [if_neg hgo, hfind]
  dsimp only
  rw [htake, hdrop, decode_bytes h.encodable_header, h.splitLines_header, List.headD_cons,
    h.cuts_requestLine, List.tail_cons]
  rw [List.getD_cons_succ, List.getD_cons_zero,
    lines_rewriting rt upstreamHost _ r.requestLine hencodable]
  exact ⟨_, rfl⟩

theorem splitLines_headerSent (h : r.WellFormed) (preserved : Option (List Char)) :
    splitLines '\r' '\n' (headerSent upstreamHost preserved r) =
      r.requestLine :: receivedLines upstreamHost preserved r.headers := by
  rw [headerSent, splitLines_joinLines (by decide) (List.cons_ne_nil _ _), List.flatMap_cons,
    splitLines_line (h.lines r.requestLine List.mem_cons_self).2, List.singleton_append, receivedLines]

theorem encodable_headerSent (h : r.WellFormed) (preserved : Option (List Char)) :
    Latin1.Encodable (headerSent upstreamHost preserved r) ↔
      Latin1.Encodable upstreamHost ∧ ∀ host ∈ preserved, Latin1.Encodable host := by
  have hhost : ∀ host, Latin1.Encodable (hostLine host) ↔ Latin1.Encodable host := fun host => by
    simp [Latin1.Encodable, hostLine]
  have horiginal : ∀ host, Latin1.Encodable (originalHostLine host) ↔ Latin1.Encodable host := fun host => by
    simp [Latin1.Encodable, originalHostLine, originalHostHeader]
  rw [headerSent, encodable_joinLines]
  constructor
  · intro hall
    have hlines := fun line hmem => hall line (List.mem_cons_of_mem _ hmem)
    exact ⟨(hhost _).mp (hlines _ (hostLine_mem upstreamHost preserved r.headers)),
      fun host hpreserved => (horiginal host).mp (hlines _ (originalHostLine_mem hpreserved))⟩
  · rintro ⟨hup, hpreserved⟩ line hmem
    rcases List.mem_cons.mp hmem with rfl | hmem
    · exact (h.lines r.requestLine List.mem_cons_self).1
    · rcases mem_rewrittenLines hmem with hmem | rfl | rfl | ⟨host, hkept, rfl⟩
      · exact (h.lines line (List.mem_cons_of_mem _ hmem)).1
      · exact (hhost upstreamHost).mpr hup
      · decide
      · exact (horiginal host).mpr (hpreserved host hkept)

/-- A header that goes out is the right one exactly where its hosts are harmless. -/
theorem forwards_headerSent_iff (h : r.WellFormed) (preserved : Option (List Char)) :
    (Latin1.Encodable (headerSent upstreamHost preserved r) ∧
      Forwards upstreamHost r
        (Latin1.bytes (headerSent upstreamHost preserved r) ++ httpHeaderTerminator ++ r.body)) ↔
      Harmless upstreamHost preserved := by
  have hline : ∀ line ∈ r.headers, IsLine '\r' '\n' line := fun line hmem =>
    (h.lines line (List.mem_cons_of_mem _ hmem)).2
  have hsplit := @splitLines_headerSent upstreamHost r h preserved
  rw [encodable_headerSent h]
  constructor
  · rintro ⟨⟨hup, hpreserved⟩, header, lines, hsent, hdecode, hlines, hother, hhost, -⟩
    have hencodable := (encodable_headerSent h preserved).mpr ⟨hup, hpreserved⟩
    have hheader := List.append_cancel_right (List.append_cancel_right hsent)
    rw [← hheader, decode_bytes hencodable] at hdecode
    have hrequestLine := (h.lines r.requestLine List.mem_cons_self).2
    have hreceived : lines = receivedLines upstreamHost preserved r.headers := by
      rw [hdecode, splitLines_joinLines (by decide) (List.cons_ne_nil _ _),
        flatMap_splitLines (List.forall_mem_cons.mpr ⟨hrequestLine, hlines⟩)] at hsplit
      exact (List.cons.inj hsplit).2
    subst hreceived
    obtain ⟨hupLine, hcontained⟩ := (received_iff hline h.single).mp ⟨hother, hhost⟩
    exact ⟨⟨hup, hupLine⟩, fun host hmem => ⟨hpreserved host hmem, hcontained host hmem⟩⟩
  · rintro ⟨⟨hup, hupLine⟩, hpreserved⟩
    have hencodable : Latin1.Encodable upstreamHost ∧ ∀ host ∈ preserved, Latin1.Encodable host :=
      ⟨hup, fun host hmem => (hpreserved host hmem).1⟩
    obtain ⟨hother, hhost⟩ := (received_iff hline h.single).mpr
      ⟨hupLine, fun host hmem => (hpreserved host hmem).2⟩
    refine ⟨hencodable, _, receivedLines upstreamHost preserved r.headers, rfl, ?_, ?_, hother, hhost,
      exists_connection hline⟩
    · rw [decode_bytes ((encodable_headerSent h preserved).mpr hencodable), ← hsplit,
        joinLines_splitLines]
    · intro line hmem
      have hpiece : line ∈ splitLines '\r' '\n' (headerSent upstreamHost preserved r) :=
        hsplit ▸ List.mem_cons_of_mem _ hmem
      exact isLine_of_mem_splitLines hpiece

end Rewrite

section Deliver
variable (rt : Runtime) {upstreamHost : List Char} (originalHost : Option (List Char))

/-- The hosts that are kept one request after the other, each harmless. -/
def AllHarmless (upstreamHost : List Char) : Option (List Char) → List Request → Prop
  | _, [] => True
  | remembered, r :: rs =>
    Harmless upstreamHost (preservedHost rt upstreamHost r.path originalHost remembered).1 ∧
      AllHarmless upstreamHost (preservedHost rt upstreamHost r.path originalHost remembered).2 rs

/-- A request either goes out with its header or ends the pump. -/
theorem deliver_cases (hup : upstreamHost ≠ []) {r : Request} (h : r.WellFormed) (p : Pump)
    (hraised : p.raised = false) :
    let preserved := (preservedHost rt upstreamHost r.path originalHost p.remembered).1
    let next := deliver rt upstreamHost originalHost p r
    (Latin1.Encodable (headerSent upstreamHost preserved r) ∧ next.raised = false ∧
      next.remembered = (preservedHost rt upstreamHost r.path originalHost p.remembered).2 ∧
      next.sent = p.sent ++
        [Latin1.bytes (headerSent upstreamHost preserved r) ++ httpHeaderTerminator ++ r.body]) ∨
    (¬ Latin1.Encodable (headerSent upstreamHost preserved r) ∧ next.raised = true ∧
      next.sent = p.sent) := by
  obtain ⟨changed, hrewrite⟩ := rewriteHttpRequest_eq rt hup h originalHost p.remembered
  have hgo : ¬ p.raised = true := by rw [hraised]; exact Bool.false_ne_true
  dsimp only
  rw [deliver, if_neg hgo, hrewrite]
  by_cases hencodable : Latin1.Encodable (headerSent upstreamHost
      (preservedHost rt upstreamHost r.path originalHost p.remembered).1 r)
  · rw [encode_of_encodable hencodable, Option.map_some]
    exact Or.inl ⟨hencodable, hraised, rfl, rfl⟩
  · rw [encode, if_neg hencodable, Option.map_none]
    exact Or.inr ⟨hencodable, rfl, rfl⟩

/-- What went out stays. -/
theorem sent_foldl_deliver (hup : upstreamHost ≠ []) (rs : List Request)
    (hrs : ∀ r ∈ rs, r.WellFormed) (p : Pump) (hraised : p.raised = false) :
    p.sent <+: (rs.foldl (deliver rt upstreamHost originalHost) p).sent := by
  induction rs generalizing p with
  | nil => exact List.prefix_rfl
  | cons r rs ih =>
    rw [List.foldl_cons]
    rcases deliver_cases rt originalHost hup (hrs r List.mem_cons_self) p hraised with
      ⟨-, hnext, -, hsent⟩ | ⟨-, hnext, hsent⟩
    · have hrest := ih (fun r' hmem => hrs r' (List.mem_cons_of_mem r hmem)) _ hnext
      rw [hsent] at hrest
      exact (List.prefix_append p.sent _).trans hrest
    · rw [foldl_deliver_raised rt upstreamHost originalHost rs hnext, hsent]

/-- All requests go out as they should exactly where all kept hosts are harmless. -/
theorem foldl_deliver_iff (hup : upstreamHost ≠ []) (rs : List Request)
    (hrs : ∀ r ∈ rs, r.WellFormed) (p : Pump) (hraised : p.raised = false) :
    (∃ sent, (rs.foldl (deliver rt upstreamHost originalHost) p).sent = p.sent ++ sent ∧
      List.Forall₂ (Forwards upstreamHost) rs sent) ↔
      AllHarmless rt originalHost upstreamHost p.remembered rs := by
  induction rs generalizing p with
  | nil => exact ⟨fun _ => trivial, fun _ => ⟨[], (List.append_nil p.sent).symm, List.Forall₂.nil⟩⟩
  | cons r rs ih =>
    have hr := hrs r List.mem_cons_self
    have hrs' : ∀ r' ∈ rs, r'.WellFormed := fun r' hmem => hrs r' (List.mem_cons_of_mem r hmem)
    have hiff := @forwards_headerSent_iff upstreamHost r hr
      (preservedHost rt upstreamHost r.path originalHost p.remembered).1
    rw [List.foldl_cons, AllHarmless, ← hiff]
    rcases deliver_cases rt originalHost hup hr p hraised with
      ⟨hencodable, hnext, hremembered, hsent⟩ | ⟨hencodable, hnext, hsent⟩
    · have hrest := ih hrs' _ hnext
      rw [hremembered, hsent] at hrest
      rw [← hrest]
      constructor
      · rintro ⟨sent, hall, hforall⟩
        cases hforall with
        | cons hfirst hlater => 
          rename_i out later
          have hpre := sent_foldl_deliver rt originalHost hup rs hrs' _ hnext
          rw [hall, hsent] at hpre
          have hout := (List.prefix_append_right_inj p.sent).mp hpre
          rw [List.cons_prefix_cons] at hout
          refine ⟨⟨hencodable, hout.1 ▸ hfirst⟩, later, ?_, hlater⟩
          rw [hall, hout.1, List.append_assoc, List.singleton_append]
      · rintro ⟨⟨-, hfirst⟩, later, hall, hlater⟩
        refine ⟨_ :: later, ?_, List.Forall₂.cons hfirst hlater⟩
        rw [hall, List.append_assoc, List.singleton_append]
    · constructor
      · rintro ⟨sent, hall, hforall⟩
        rw [foldl_deliver_raised rt upstreamHost originalHost rs hnext, hsent] at hall
        rw [List.self_eq_append_right.mp hall] at hforall
        cases hforall
      · rintro ⟨⟨hgood, -⟩, -⟩
        exact absurd hgood hencodable

theorem raised_foldl_deliver (hup : upstreamHost ≠ []) (rs : List Request)
    (hrs : ∀ r ∈ rs, r.WellFormed) (p : Pump) (hraised : p.raised = false)
    (h : AllHarmless rt originalHost upstreamHost p.remembered rs) :
    (rs.foldl (deliver rt upstreamHost originalHost) p).raised = false := by
  induction rs generalizing p with
  | nil => exact hraised
  | cons r rs ih =>
    have hr := hrs r List.mem_cons_self
    obtain ⟨hharmless, hlater⟩ := h
    have hgood := ((forwards_headerSent_iff hr _).mpr hharmless).1
    rw [List.foldl_cons]
    rcases deliver_cases rt originalHost hup hr p hraised with
      ⟨-, hnext, hremembered, -⟩ | ⟨hencodable, -⟩
    · refine ih (fun r' hmem => hrs r' (List.mem_cons_of_mem r hmem)) _ hnext ?_
      rw [hremembered]
      exact hlater
    · exact absurd hgood hencodable

end Deliver

section Stream
variable (rt : Runtime) (upstreamHost : List Char) (originalHost remembered : Option (List Char))

/-- The stream goes out request by request, whatever the pieces are that it comes in. -/
def ForwardsStream (rs : List Request) : Prop :=
  ∃ sent, List.Forall₂ (Forwards upstreamHost) rs sent ∧
    ∀ initialBuffer reads, (∀ data ∈ reads, data ≠ []) →
      initialBuffer ++ reads.flatten = rs.flatMap Request.bytes →
      let p := pumpHttpRequests rt upstreamHost originalHost initialBuffer remembered reads
      p.sent = sent ∧ p.pending = []

variable {upstreamHost}

theorem pumpHttpRequests_eq (rs : List Request) (hrs : ∀ r ∈ rs, r.WellFormed)
    {initialBuffer : List Byte} {reads : List (List Byte)} (hreads : ∀ data ∈ reads, data ≠ [])
    (hstream : initialBuffer ++ reads.flatten = rs.flatMap Request.bytes) : ∃ rest,
      pumpHttpRequests rt upstreamHost originalHost initialBuffer remembered reads =
        { rs.foldl (deliver rt upstreamHost originalHost) { pending := [], remembered } with
          pending := rest } ∧
      ((rs.foldl (deliver rt upstreamHost originalHost) { pending := [], remembered }).raised =
        false → rest = []) :=
  pumpLoop_flush rt upstreamHost originalHost reads hreads rs hrs { pending := [], remembered } rfl
    hstream

/-- What the stream gives where it comes in one piece. -/
theorem ForwardsStream.allHarmless (hup : upstreamHost ≠ []) {rs : List Request}
    (hrs : ∀ r ∈ rs, r.WellFormed)
    (h : ForwardsStream rt upstreamHost originalHost remembered rs) :
    AllHarmless rt originalHost upstreamHost remembered rs := by
  obtain ⟨sent, hforall, hpump⟩ := h
  have hwhole : rs.flatMap Request.bytes ++ List.flatten [] = rs.flatMap Request.bytes :=
    List.append_nil _
  have hnil : ∀ data ∈ ([] : List (List Byte)), data ≠ [] := fun data hmem => nomatch hmem
  obtain ⟨rest, heq, -⟩ := pumpHttpRequests_eq rt originalHost remembered rs hrs hnil hwhole
  have hsent := (hpump _ [] hnil hwhole).1
  rw [heq] at hsent
  exact (foldl_deliver_iff rt originalHost hup rs hrs { pending := [], remembered } rfl).mp
    ⟨sent, hsent, hforall⟩

/-- Every stream goes out right, however it comes in, exactly where all kept hosts are harmless. -/
theorem forwardsStream_iff (hup : upstreamHost ≠ []) (rs : List Request)
    (hrs : ∀ r ∈ rs, r.WellFormed) :
    ForwardsStream rt upstreamHost originalHost remembered rs ↔
      AllHarmless rt originalHost upstreamHost remembered rs := by
  constructor
  · exact ForwardsStream.allHarmless rt originalHost remembered hup hrs
  · intro h
    obtain ⟨sent, hsent, hforall⟩ :=
      (foldl_deliver_iff rt originalHost hup rs hrs { pending := [], remembered } rfl).mpr h
    refine ⟨sent, hforall, fun initialBuffer reads hreads hstream => ?_⟩
    obtain ⟨rest, heq, hrest⟩ := pumpHttpRequests_eq rt originalHost remembered rs hrs hreads hstream
    dsimp only
    rw [heq]
    exact ⟨hsent, hrest (raised_foldl_deliver rt originalHost hup rs hrs _ rfl h)⟩

end Stream

/-- Letters of the first code page alone, which is all that some streams have. -/
def latin1Runtime : Runtime where
  lower s := s.map lowerChar
  lower_latin1 _ _ := rfl
  bracketed _ := true

def loopback : List Char := ['1', '2', '7', '.', '0', '.', '0', '.', '1']

def worldSuffix : List Char :=
  ['.', 'r', 'u', 'n', 'e', 's', 'c', 'a', 'p', 'e', '.', 'c', 'o', 'm']

/-- A request for the configuration of a world, by the name of the world in the query. -/
def javConfigRequest (world : List Char) : Request where
  method := ['G', 'E', 'T']
  path := javConfigPath ++ '?' :: (requestedWorldHostField ++ '=' :: (world ++ worldSuffix))
  version := ['H', 'T', 'T', 'P', '/', '1', '.', '1']
  headers := [hostLine localhost]
  body := []

def world1 : List Char := ['w', 'o', 'r', 'l', 'd', '1']

theorem wellFormed_javConfigRequest {world : List Char}
    (hpath : ' ' ∉ (javConfigRequest world).path)
    (hline : '\r' ∉ (javConfigRequest world).requestLine)
    (hencodable : Latin1.Encodable (javConfigRequest world).requestLine) :
    (javConfigRequest world).WellFormed where
  method := List.mem_cons_self
  path := hpath
  lines := List.forall_mem_cons.mpr ⟨⟨hencodable, isLine_of_notMem hline⟩,
    List.forall_mem_singleton.mpr (show _ ∧ IsLine '\r' '\n' (hostLine localhost) by decide)⟩
  full := List.forall_mem_singleton.mpr (List.cons_ne_nil _ _)
  single := ⟨List.countP_le_length, List.countP_le_length⟩
  contentLength line hmem value hvalue := by
    rw [List.mem_singleton.mp hmem] at hvalue
    cases hvalue
  noContentLength _ := rfl

/-- A request with a body, and without a host of its own. -/
def postRequest : Request where
  method := ['P', 'O', 'S', 'T']
  path := ['/', 'm', 's']
  version := ['H', 'T', 'T', 'P', '/', '1', '.', '1']
  headers := [['C', 'o', 'n', 't', 'e', 'n', 't', '-', 'L', 'e', 'n', 'g', 't', 'h', ':', ' ', '3']]
  body := [0x0d, 0x0a, 0x47]

theorem wellFormed_postRequest : postRequest.WellFormed where
  method := by decide
  path := by decide
  lines := by decide
  full := by decide
  single := ⟨by decide, by decide⟩
  contentLength line hmem value hvalue := by
    rw [List.mem_singleton.mp hmem] at hvalue
    obtain rfl : ['3'] = value := Option.some.inj hvalue
    exact ⟨List.cons_ne_nil _ _, by decide, List.forall_mem_singleton.mpr rfl, rfl⟩
  noContentLength hnone := by
    have hline := hnone _ (List.mem_singleton_self _)
    cases hline

theorem forwardsStream_iff_world1 :
    ForwardsStream latin1Runtime loopback (some localhost) none [javConfigRequest world1, postRequest] :=
  (forwardsStream_iff latin1Runtime (some localhost) none (by decide) _
    (List.forall_mem_cons.mpr ⟨wellFormed_javConfigRequest (by decide) (by decide) (by decide),
      List.forall_mem_singleton.mpr wellFormed_postRequest⟩)).mpr
    ⟨by decide, by decide, trivial⟩

def brokenWorld : List Char :=
  world1 ++ ['%', '0', 'd', '%', '0', 'a', 'H', 'o', 's', 't', ':', '%', '2', '0', 'e', 'v', 'i', 'l',
    '%', '0', 'd', '%', '0', 'a']

set_option maxRecDepth 1000 in
theorem wellFormed_brokenWorld : (javConfigRequest brokenWorld).WellFormed :=
  wellFormed_javConfigRequest (by decide) (by decide) (by decide)

/-- The query brings another host line into the header. -/
theorem not_forwardsStream_brokenWorld :
    ¬ ForwardsStream latin1Runtime loopback (some localhost) none [javConfigRequest brokenWorld] := by
  intro h
  have hall := h.allHarmless latin1Runtime (some localhost) none (by decide)
    (List.forall_mem_singleton.mpr wellFormed_brokenWorld)
  have hkept : ['w', 'o', 'r', 'l', 'd', '1', '\r', '\n', 'h', 'o', 's', 't', ':', ' ', 'e', 'v', 'i',
      'l', '\r', '\n'] ++ worldSuffix ∈ (preservedHost latin1Runtime loopback
        (javConfigRequest brokenWorld).path (some localhost) none).1 := by decide
  have hcontained := (hall.1.2 _ hkept).2
  have hline := hcontained ['h', 'o', 's', 't', ':', ' ', 'e', 'v', 'i', 'l'] (by decide)
  revert hline
  decide

end OpenNXT.Tools.TlsTerminateProxy
