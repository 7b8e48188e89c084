import OpenNXT.Tools.TlsTerminateProxy.HttpHeaders
import OpenNXT.Tools.TlsTerminateProxy.HttpPump

/-! Streams of requests, and what reaches the upstream of them. -/
namespace OpenNXT.Tools.TlsTerminateProxy
open Buffer Data Latin1

def httpMethods : List (List Char) := [
  ['G', 'E', 'T'], ['P', 'O', 'S', 'T'], ['H', 'E', 'A', 'D'], ['O', 'P', 'T', 'I', 'O', 'N', 'S'],
  ['P', 'U', 'T'], ['D', 'E', 'L', 'E', 'T', 'E'], ['P', 'A', 'T', 'C', 'H']]

structure Request where
  method : List Char
  path : List Char
  version : List Char
  headers : List (List Char)
  body : List Byte

/-- The length of the body that a line gives, if it is of that field. -/
def contentLengthValue (line : List Char) : Option (List Char) :=
  match UrlQuery.partition ':' line with
  | (name, some value) =>
    if (strip name).map lowerChar = contentLengthHeaderName then some (strip value) else none
  | (_, none) => none

/-- Digits that spell a number, no more of them than the language reads. -/
structure Spells (value : List Char) (n : ℕ) : Prop where
  ne_nil : value ≠ []
  short : value.length ≤ 4300
  digits : ∀ c ∈ value, c.isDigit
  number : Nat.ofDigitChars 10 value 0 = n

namespace Request

def requestLine (r : Request) : List Char := r.method ++ ' ' :: (r.path ++ ' ' :: r.version)

def header (r : Request) : List Char := joinLines '\r' '\n' (r.requestLine :: r.headers)

def bytes (r : Request) : List Byte := Latin1.bytes r.header ++ httpHeaderTerminator ++ r.body

structure WellFormed (r : Request) : Prop where
  method : r.method ∈ httpMethods
  path : ' ' ∉ r.path
  lines : ∀ line ∈ r.requestLine :: r.headers, Latin1.Encodable line ∧ IsLine '\r' '\n' line
  /-- An empty line would be the end of the header. -/
  full : ∀ line ∈ r.headers, line ≠ []
  single : Single r.headers
  contentLength : ∀ line ∈ r.headers, ∀ value ∈ contentLengthValue line, Spells value r.body.length
  noContentLength : (∀ line ∈ r.headers, contentLengthValue line = none) → r.body = []

end Request

section Length
variable (rt : Runtime) {n : ℕ}

theorem Spells.strip_eq {value : List Char} (h : Spells value n) : strip value = value := by
  have hblank : ∀ {s : List Char}, (∀ c ∈ s, c.isDigit) → s.dropWhile isSpace = s := by
    intro s hs
    cases s with
    | nil => rfl
    | cons c s =>
      obtain ⟨hlow, hhigh⟩ := Char.isDigit_iff_toNat.mp (hs c List.mem_cons_self)
      change 48 ≤ c.toNat at hlow
      change c.toNat ≤ 57 at hhigh
      refine List.dropWhile_cons_of_neg ?_
      simp [isSpace]
      omega
  have hreverse : ∀ c ∈ value.reverse, c.isDigit := fun c hc => h.digits c (List.mem_reverse.mp hc)
  rw [strip, hblank h.digits, hblank hreverse, List.reverse_reverse]

theorem readHeader_contentLength {line : List Char} (h : Latin1.Encodable line)
    (table : List Char → Option (List Char)) : readHeader rt table line contentLengthHeaderName =
      (contentLengthValue line).or (table contentLengthHeaderName) := by
  unfold readHeader contentLengthValue
  cases hpartition : UrlQuery.partition ':' line with
  | mk name value =>
    cases value with
    | none => rfl
    | some value =>
      have hname : Latin1.Encodable name := fun c hc => h c (UrlQuery.partition_subset hpartition hc)
      dsimp only
      rw [rt.lower_latin1 (strip name) fun c hc => hname c (mem_of_mem_strip hc)]
      split_ifs with hlength
      · rw [hlength, Function.update_self, Option.some_or]
      · rw [Function.update_of_ne (Ne.symm hlength), Option.none_or]

/-- The last line of the field is what the table holds. -/
theorem foldl_readHeader (headers : List (List Char)) (h : ∀ line ∈ headers, Latin1.Encodable line)
    (table : List Char → Option (List Char)) :
    headers.foldl (readHeader rt) table contentLengthHeaderName =
      ((headers.filterMap contentLengthValue).getLast?).or (table contentLengthHeaderName) := by
  induction headers generalizing table with
  | nil => rfl
  | cons line headers ih =>
    rw [List.foldl_cons, ih fun line' hmem => h line' (List.mem_cons_of_mem line hmem),
      readHeader_contentLength rt (h line List.mem_cons_self)]
    cases hvalue : contentLengthValue line with
    | none => rw [List.filterMap_cons_none hvalue, Option.none_or]
    | some value =>
      rw [List.filterMap_cons_some hvalue, List.getLast?_cons, Option.some_or]
      cases (headers.filterMap contentLengthValue).getLast? with
      | none => rfl
      | some last => rfl

theorem contentLengthOf_eq {r : Request} (h : r.WellFormed) :
    contentLengthOf (r.headers.foldl (readHeader rt) fun _ => none) = r.body.length := by
  have hencodable : ∀ line ∈ r.headers, Latin1.Encodable line := fun line hmem =>
    (h.lines line (List.mem_cons_of_mem _ hmem)).1
  have hlast := foldl_readHeader rt r.headers hencodable fun _ => none
  rw [Option.or_none] at hlast
  rw [contentLengthOf, hlast]
  cases hvalue : (r.headers.filterMap contentLengthValue).getLast? with
  | none =>
    rw [List.getLast?_eq_none_iff, List.filterMap_eq_nil_iff] at hvalue
    rw [h.noContentLength hvalue, List.length_nil]
  | some value =>
    obtain ⟨line, hmem, hline⟩ := List.mem_filterMap.mp (List.mem_of_getLast? hvalue)
    have hspells := h.contentLength line hmem value hline
    dsimp only
    rw [hspells.strip_eq, Decimal.parseLiteral_of_isDigit hspells.ne_nil hspells.short hspells.digits,
      hspells.number, Option.getD_some, Int.toNat_natCast]

end Length

theorem encodable_joinLines (lines : List (List Char)) :
    Latin1.Encodable (joinLines '\r' '\n' lines) ↔ ∀ line ∈ lines, Latin1.Encodable line :=
  forall_mem_joinLines (by decide) (by decide) lines

namespace Request.WellFormed
variable {r : Request}

theorem encodable_header (h : r.WellFormed) : Latin1.Encodable r.header :=
  (encodable_joinLines _).mpr fun line hmem => (h.lines line hmem).1

theorem requestLine_ne_nil (r : Request) : r.requestLine ≠ [] :=
  List.append_ne_nil_of_right_ne_nil r.method (List.cons_ne_nil ' ' _)

theorem splitLines_header (h : r.WellFormed) :
    splitLines '\r' '\n' r.header = r.requestLine :: r.headers := by
  rw [header, splitLines_joinLines (by decide) (List.cons_ne_nil _ _),
    flatMap_splitLines fun line hmem => (h.lines line hmem).2]

theorem cuts_requestLine (h : r.WellFormed) :
    cuts ' ' 2 r.requestLine = [r.method, r.path, r.version] := by
  have hmethod : ∀ method ∈ httpMethods, ' ' ∉ method := by decide
  rw [requestLine, cuts_append_cons (hmethod r.method h.method), cuts_append_cons h.path, cuts]

/-- The bytes by the places where the header and the blank line end. -/
theorem bytes_append_eq (r : Request) (q : List Byte) :
    r.bytes ++ q = Latin1.bytes r.header ++ (httpHeaderTerminator ++ (r.body ++ q)) := by
  rw [bytes, List.append_assoc, List.append_assoc]

theorem looksLikeHttpRequest (h : r.WellFormed) (q : List Byte) :
    looksLikeHttpRequest (r.bytes ++ q) = true := by
  have hprefixes : ∀ method ∈ httpMethods,
      Latin1.bytes (method ++ [' ']) ∈ httpMethodPrefixes := by decide
  have hmethod : r.method ++ [' '] <+: r.requestLine :=
    ⟨r.path ++ ' ' :: r.version, by rw [List.append_assoc, List.singleton_append, requestLine]⟩
  obtain ⟨t, ht⟩ := hmethod.trans (head_starts h.splitLines_header)
  have hheader : Latin1.bytes (r.method ++ [' ']) ++ Latin1.bytes t = Latin1.bytes r.header := by
    rw [← ht, Latin1.bytes_append (r.method ++ [' '])]
  refine looksLikeHttpRequest_iff.mpr ⟨_, hprefixes r.method h.method, ?_⟩
  rw [bytes_append_eq, ← hheader, List.append_assoc]
  exact List.prefix_append _ _

theorem findSub_bytes (h : r.WellFormed) (q : List Byte) :
    findSub httpHeaderTerminator (r.bytes ++ q) = some r.header.length := by
  have hterminator : decode httpHeaderTerminator = ['\r', '\n', '\r', '\n'] := by decide
  have hfull : ∀ line ∈ r.requestLine :: r.headers, line ≠ [] := by
    rw [List.forall_mem_cons]
    exact ⟨requestLine_ne_nil r, h.full⟩
  rw [← findSub_map decodeByte_injective, bytes_append_eq]
  change findSub (decode httpHeaderTerminator) (decode _) = _
  rw [decode_append, decode_append, decode_bytes h.encodable_header, hterminator]
  exact findSub_blank (by decide) (List.cons_ne_nil _ _) (fun line hmem => (h.lines line hmem).2)
    hfull (decode (r.body ++ q))

theorem take_header (r : Request) (q : List Byte) :
    (r.bytes ++ q).take r.header.length = Latin1.bytes r.header := by
  rw [bytes_append_eq]
  exact List.take_left' (length_bytes r.header)

theorem drop_header (r : Request) (q : List Byte) :
    (r.bytes ++ q).drop (r.header.length + httpHeaderTerminator.length) = r.body ++ q := by
  rw [bytes_append_eq, ← List.append_assoc]
  apply List.drop_left'
  rw [List.length_append, length_bytes]

theorem length_request (r : Request) :
    r.bytes.length = r.header.length + httpHeaderTerminator.length + r.body.length := by
  rw [bytes, List.length_append, List.length_append, length_bytes]

/-- A request is framed by what it is, whatever comes behind it. -/
theorem parse_bytes (rt : Runtime) (h : r.WellFormed) (q : List Byte) : ∃ parsed,
    parseHttpRequestHeader rt (r.bytes ++ q) = some parsed ∧
      parsed.expectedTotalBytes = r.bytes.length := by
  have hlooks : ¬ ¬ Tools.TlsTerminateProxy.looksLikeHttpRequest (r.bytes ++ q) = true :=
    not_not_intro (h.looksLikeHttpRequest q)
  unfold parseHttpRequestHeader
  rw [if_neg hlooks, h.findSub_bytes q]
  dsimp only
  rw [take_header, decode_bytes h.encodable_header, h.splitLines_header, List.headD_cons,
    h.cuts_requestLine]
  refine ⟨_, rfl, ?_⟩
  rw [RequestHeader.expectedTotalBytes, List.tail_cons, contentLengthOf_eq rt h, length_request]

end Request.WellFormed

/-- What is read of a header that is whole stays, whatever comes behind it. -/
theorem parseHttpRequestHeader_append (rt : Runtime) {data : List Byte} {parsed : RequestHeader}
    (h : parseHttpRequestHeader rt data = some parsed) (t : List Byte) :
    parseHttpRequestHeader rt (data ++ t) = some parsed := by
  unfold parseHttpRequestHeader at h ⊢
  split_ifs at h with hlooks
  rw [looksLikeHttpRequest_iff] at hlooks
  have hlooks' := looksLikeHttpRequest_iff.mpr (hlooks.mono (List.prefix_append data t))
  cases hfind : findSub httpHeaderTerminator data with
  | none =>
    rw [hfind] at h
    cases h
  | some headerEnd =>
    have hlength := (prefix_of_findSub hfind).length_le
    rw [List.length_drop, httpHeaderTerminator, List.length_cons] at hlength
    rw [hfind] at h
    rw [if_neg (not_not_intro hlooks'), findSub_append_right hfind t]
    dsimp only at h ⊢
    rw [List.take_append_of_le_length (by omega)]
    exact h

/-- The beginning of a request that is not all there. -/
def Part (d : List Byte) : Prop :=
  ∃ r : Request, r.WellFormed ∧ d <+: r.bytes ∧ d.length < r.bytes.length

section Flush
variable (rt : Runtime) (upstreamHost : List Char) (originalHost : Option (List Char))

/-- One request on its way, but for what is pending. -/
def deliver (p : Pump) (r : Request) : Pump :=
  if p.raised then p
  else
    match rewriteHttpRequest rt upstreamHost r.bytes originalHost p.remembered with
    | (some (request, _), remembered) => { p with remembered, sent := p.sent ++ [request] }
    | (none, remembered) => { p with remembered, raised := true }

/-- After an exception nothing goes. -/
theorem foldl_deliver_raised (rs : List Request) {p : Pump} (h : p.raised = true) :
    rs.foldl (deliver rt upstreamHost originalHost) p = p := by
  induction rs with
  | nil => rfl
  | cons r rs ih => rw [List.foldl_cons, deliver, if_pos h, ih]

theorem flushCompleteRequests_part {p : Pump} (h : Part p.pending) :
    flushCompleteRequests rt upstreamHost originalHost p = p := by
  obtain ⟨r, hr, ⟨t, ht⟩, hshort⟩ := h
  unfold flushCompleteRequests
  split_ifs with hpending
  · rfl
  · split
    · rfl
    · next parsed hparse =>
      obtain ⟨parsed', hparse', htotal⟩ := hr.parse_bytes rt []
      rw [List.append_nil, ← ht, parseHttpRequestHeader_append rt hparse t] at hparse'
      cases hparse'
      rw [if_pos (by omega)]

/-- One turn of the loop where a request is whole. -/
theorem flushCompleteRequests_whole {r : Request} (hr : r.WellFormed) (p : Pump)
    (hraised : p.raised = false) (q : List Byte) :
    flushCompleteRequests rt upstreamHost originalHost { p with pending := r.bytes ++ q } =
      if (deliver rt upstreamHost originalHost p r).raised then
        { deliver rt upstreamHost originalHost p r with pending := q }
      else flushCompleteRequests rt upstreamHost originalHost
        { deliver rt upstreamHost originalHost p r with pending := q } := by
  obtain ⟨parsed, hparse, htotal⟩ := hr.parse_bytes rt q
  have hne : r.bytes ++ q ≠ [] := by
    intro hnil
    have hlength := congrArg List.length hnil
    have hpos := expectedTotalBytes_pos rt hparse
    rw [List.length_append, List.length_nil] at hlength
    omega
  have hdeliver : ¬ p.raised = true := by rw [hraised]; exact Bool.false_ne_true
  rw [flushCompleteRequests, if_neg hne]
  dsimp only
  split
  · next hnone =>
    rw [hparse] at hnone
    cases hnone
  · next parsed' hparse' =>
    rw [hparse] at hparse'
    cases hparse'
    rw [htotal, if_neg (by rw [List.length_append]; omega), List.take_left, List.drop_left, deliver,
      if_neg hdeliver]
    cases rewriteHttpRequest rt upstreamHost r.bytes originalHost p.remembered with
    | mk out remembered =>
      cases out with
      | none => rfl
      | some out =>
        dsimp only
        rw [if_neg hdeliver]

/-- All requests that are whole go, and the rest stays. -/
theorem flushCompleteRequests_eq (rs : List Request) (hrs : ∀ r ∈ rs, r.WellFormed) {d : List Byte}
    (hd : d = [] ∨ Part d) (p : Pump) (hraised : p.raised = false) : ∃ rest,
      flushCompleteRequests rt upstreamHost originalHost
          { p with pending := rs.flatMap Request.bytes ++ d } =
        { rs.foldl (deliver rt upstreamHost originalHost) p with pending := rest } ∧
      ((rs.foldl (deliver rt upstreamHost originalHost) p).raised = false → rest = d) := by
  induction rs generalizing p with
  | nil =>
    refine ⟨d, ?_, fun _ => rfl⟩
    rw [List.flatMap_nil, List.nil_append, List.foldl_nil]
    rcases hd with hd | hd
    · rw [flushCompleteRequests, if_pos hd]
    · exact flushCompleteRequests_part rt upstreamHost originalHost hd
  | cons r rs ih =>
    have hr := hrs r List.mem_cons_self
    have hrest := ih (fun r' hmem => hrs r' (List.mem_cons_of_mem r hmem))
      (deliver rt upstreamHost originalHost p r)
    rw [List.flatMap_cons, List.append_assoc, List.foldl_cons,
      flushCompleteRequests_whole rt upstreamHost originalHost hr p hraised]
    cases hnext : (deliver rt upstreamHost originalHost p r).raised with
    | true =>
      rw [if_pos rfl, foldl_deliver_raised rt upstreamHost originalHost rs hnext]
      refine ⟨_, rfl, fun hfalse => ?_⟩
      rw [hnext] at hfalse
      cases hfalse
    | false => 
      rw [if_neg Bool.false_ne_true]
      exact hrest hnext

/-- Where a stream is cut, some requests are whole and one may have begun. -/
theorem exists_cut (rs : List Request) (hrs : ∀ r ∈ rs, r.WellFormed) {e s : List Byte}
    (h : e ++ s = rs.flatMap Request.bytes) : ∃ whole later d, rs = whole ++ later ∧
      e = whole.flatMap Request.bytes ++ d ∧ (d = [] ∨ Part d) ∧
      d ++ s = later.flatMap Request.bytes := by
  induction rs generalizing e with
  | nil =>
    obtain ⟨rfl, rfl⟩ := List.append_eq_nil_iff.mp h
    exact ⟨[], [], [], rfl, rfl, Or.inl rfl, rfl⟩
  | cons r rs ih =>
    have hr := hrs r List.mem_cons_self
    by_cases hshort : e.length < r.bytes.length
    · rw [List.flatMap_cons] at h
      have hpre : e <+: r.bytes :=
        List.prefix_of_prefix_length_le ⟨s, h⟩ (List.prefix_append _ _) hshort.le
      refine ⟨[], r :: rs, e, rfl, rfl, Or.inr ⟨r, hr, hpre, hshort⟩, ?_⟩
      rw [List.flatMap_cons, h]
    · rw [List.flatMap_cons] at h
      obtain ⟨e', rfl⟩ : r.bytes <+: e :=
        List.prefix_of_prefix_length_le ⟨_, h.symm⟩ (List.prefix_append e s) (by omega)
      rw [List.append_assoc] at h
      obtain ⟨whole, later, d, rfl, rfl, hd, hlater⟩ :=
        ih (fun r' hmem => hrs r' (List.mem_cons_of_mem r hmem)) (List.append_cancel_left h)
      refine ⟨r :: whole, later, d, rfl, ?_, hd, hlater⟩
      rw [List.flatMap_cons, List.append_assoc]

theorem pumpLoop_raised {p : Pump} (h : p.raised = true) (reads : List (List Byte)) :
    pumpLoop rt upstreamHost originalHost p reads = p := by
  cases reads with
  | nil => rfl
  | cons data reads => rw [pumpLoop, if_pos (Or.inl h)]

/-- However the stream comes in, its requests go one after the other. -/
theorem pumpLoop_flush (reads : List (List Byte)) (hreads : ∀ data ∈ reads, data ≠ [])
    (rs : List Request) (hrs : ∀ r ∈ rs, r.WellFormed) (p : Pump) (hraised : p.raised = false)
    {e : List Byte} (he : e ++ reads.flatten = rs.flatMap Request.bytes) : ∃ rest,
      pumpLoop rt upstreamHost originalHost
          (flushCompleteRequests rt upstreamHost originalHost { p with pending := e }) reads =
        { rs.foldl (deliver rt upstreamHost originalHost) p with pending := rest } ∧
      ((rs.foldl (deliver rt upstreamHost originalHost) p).raised = false → rest = []) := by
  induction reads generalizing rs p e with
  | nil =>
    have hflush := flushCompleteRequests_eq rt upstreamHost originalHost rs hrs (Or.inl rfl) p hraised
    rw [List.flatten_nil, List.append_nil] at he
    rw [List.append_nil] at hflush
    rw [pumpLoop, he]
    exact hflush
  | cons data reads ih =>
    rw [List.flatten_cons] at he
    obtain ⟨whole, later, d, rfl, rfl, hd, hlater⟩ := exists_cut rs hrs he
    have hwhole : ∀ r ∈ whole, r.WellFormed := fun r hmem => hrs r (List.mem_append_left later hmem)
    have hlater' : ∀ r ∈ later, r.WellFormed := fun r hmem =>
      hrs r (List.mem_append_right whole hmem)
    obtain ⟨rest, hflush, hrest⟩ :=
      flushCompleteRequests_eq rt upstreamHost originalHost whole hwhole hd p hraised
    rw [hflush, List.foldl_append]
    cases hnext : (whole.foldl (deliver rt upstreamHost originalHost) p).raised with
    | true =>
      refine ⟨rest, ?_, fun hfalse => ?_⟩
      · rw [pumpLoop_raised, foldl_deliver_raised rt upstreamHost originalHost later hnext]
        exact hnext
      · rw [foldl_deliver_raised rt upstreamHost originalHost later hnext, hnext] at hfalse
        cases hfalse
    | false =>
      have hdata : data ≠ [] := hreads data List.mem_cons_self
      have hgo : ¬ ((whole.foldl (deliver rt upstreamHost originalHost) p).raised = true ∨
          data = []) := by
        rw [hnext, not_or]
        exact ⟨Bool.false_ne_true, hdata⟩
      rw [hrest hnext, pumpLoop, if_neg hgo]
      rw [← List.append_assoc] at hlater
      exact ih (fun data' hmem => hreads data' (List.mem_cons_of_mem data hmem)) later hlater' _
        hnext hlater

end Flush

end OpenNXT.Tools.TlsTerminateProxy
