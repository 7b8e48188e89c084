import OpenNXT.Tools.TlsTerminateProxy.HttpRequests

/-! The lines of a header before and after it is rewritten. -/
namespace OpenNXT.Tools.TlsTerminateProxy
open Buffer Data Latin1

/-- A line that begins with the name of a field and its colon, in letters of either size. -/
def Named (name line : List Char) : Prop := name <+: line.map lowerChar

instance (name line : List Char) : Decidable (Named name line) :=
  inferInstanceAs (Decidable (name <+: line.map lowerChar))

def originalHostHeaderName : List Char :=
  ['x', '-', 'o', 'p', 'e', 'n', 'n', 'x', 't', '-', 'o', 'r', 'i', 'g', 'i', 'n', 'a', 'l', '-',
    'h', 'o', 's', 't', ':']

/-- A line that the proxy has no business with. -/
def Other (line : List Char) : Prop :=
  ¬ Named hostHeaderName line ∧ ¬ Named connectionHeaderName line ∧
    ¬ Named originalHostHeaderName line

instance (line : List Char) : Decidable (Other line) := inferInstanceAs (Decidable (_ ∧ _ ∧ _))

section Names
variable {line : List Char}

/-- Two fields whose names differ at the first letter. -/
theorem Named.not_named {a b : Char} {s t : List Char} (h : Named (a :: s) line) (hne : a ≠ b) :
    ¬ Named (b :: t) line := by
  rintro ⟨v, hv⟩
  obtain ⟨u, hu⟩ := h
  rw [← hu] at hv
  exact hne (List.cons.inj hv).1.symm

theorem isPrefixOf_lower (rt : Runtime) (name : List Char) (h : Latin1.Encodable line) :
    name.isPrefixOf (rt.lower line) = true ↔ Named name line := by
  rw [rt.lower_latin1 line h, List.isPrefixOf_iff_prefix, Named]

theorem lower_originalHostHeader (rt : Runtime) :
    rt.lower originalHostHeader ++ [':'] = originalHostHeaderName := by
  rw [rt.lower_latin1 originalHostHeader (by decide)]
  decide

theorem named_hostLine (upstreamHost : List Char) : Named hostHeaderName (hostLine upstreamHost) :=
  ⟨' ' :: upstreamHost.map lowerChar, by rw [hostLine, List.map_append]; rfl⟩

theorem named_originalHostLine (host : List Char) :
    Named originalHostHeaderName (originalHostLine host) :=
  ⟨' ' :: host.map lowerChar, by rw [originalHostLine, List.map_append, List.map_append]; rfl⟩

theorem named_keepAlive : Named connectionHeaderName keepAlive := by decide

end Names

/-- What the loop makes of a line. -/
def rewritten (upstreamHost : List Char) (preserved : Option (List Char)) (line : List Char) :
    List (List Char) :=
  if Named hostHeaderName line then [hostLine upstreamHost]
  else if Named connectionHeaderName line then [line]
  else if Named originalHostHeaderName line then preserved.toList.map originalHostLine
  else [line]

/-- The lines that the header has in the end, behind the request line. -/
def rewrittenLines (upstreamHost : List Char) (preserved : Option (List Char))
    (headers : List (List Char)) : List (List Char) :=
  headers.flatMap (rewritten upstreamHost preserved) ++
    ((if headers.any (Named hostHeaderName ·) then [] else [hostLine upstreamHost]) ++
      ((if headers.any (Named connectionHeaderName ·) then [] else [keepAlive]) ++
        (if headers.any (Named originalHostHeaderName ·) then []
          else preserved.toList.map originalHostLine)))

section Members
variable {upstreamHost : List Char} {preserved : Option (List Char)} {headers : List (List Char)}

theorem mem_rewritten {line l : List Char} (h : l ∈ rewritten upstreamHost preserved line) :
    l = line ∨ l = hostLine upstreamHost ∨ ∃ host ∈ preserved, l = originalHostLine host := by
  rw [rewritten] at h
  split_ifs at h
  · exact Or.inr (Or.inl (List.mem_singleton.mp h))
  · exact Or.inl (List.mem_singleton.mp h)
  · obtain ⟨host, hmem, rfl⟩ := List.mem_map.mp h
    exact Or.inr (Or.inr ⟨host, Option.mem_toList.mp hmem, rfl⟩)
  · exact Or.inl (List.mem_singleton.mp h)

/-- Every line is one of before or one of three that the proxy writes. -/
theorem mem_rewrittenLines {l : List Char} (h : l ∈ rewrittenLines upstreamHost preserved headers) :
    l ∈ headers ∨ l = hostLine upstreamHost ∨ l = keepAlive ∨
      ∃ host ∈ preserved, l = originalHostLine host := by
  rw [rewrittenLines, List.mem_append, List.mem_append, List.mem_append] at h
  rcases h with h | h | h | h
  · obtain ⟨line, hmem, hl⟩ := List.mem_flatMap.mp h
    rcases mem_rewritten hl with rfl | rfl | horiginal
    · exact Or.inl hmem
    · exact Or.inr (Or.inl rfl)
    · exact Or.inr (Or.inr (Or.inr horiginal))
  · split_ifs at h
    · cases h
    · exact Or.inr (Or.inl (List.mem_singleton.mp h))
  · split_ifs at h
    · cases h
    · exact Or.inr (Or.inr (Or.inl (List.mem_singleton.mp h)))
  · split_ifs at h
    · cases h
    · obtain ⟨host, hmem, rfl⟩ := List.mem_map.mp h
      exact Or.inr (Or.inr (Or.inr ⟨host, Option.mem_toList.mp hmem, rfl⟩))

theorem hostLine_mem (upstreamHost : List Char) (preserved : Option (List Char))
    (headers : List (List Char)) : hostLine upstreamHost ∈ rewrittenLines upstreamHost preserved headers := by
  rw [rewrittenLines, List.mem_append, List.mem_append]
  by_cases hany : headers.any (Named hostHeaderName ·)
  · obtain ⟨line, hmem, hnamed⟩ := List.any_eq_true.mp hany
    refine Or.inl (List.mem_flatMap.mpr ⟨line, hmem, ?_⟩)
    rw [rewritten, if_pos (of_decide_eq_true hnamed)]
    exact List.mem_singleton_self _
  · rw [if_neg hany]
    exact Or.inr (Or.inl (List.mem_singleton_self _))

theorem originalHostLine_mem {host : List Char} (h : host ∈ preserved) :
    originalHostLine host ∈ rewrittenLines upstreamHost preserved headers := by
  have hline : originalHostLine host ∈ preserved.toList.map originalHostLine :=
    List.mem_map_of_mem (Option.mem_toList.mpr h)
  rw [rewrittenLines, List.mem_append, List.mem_append, List.mem_append]
  by_cases hany : headers.any (Named originalHostHeaderName ·)
  · obtain ⟨line, hmem, hnamed⟩ := List.any_eq_true.mp hany
    have hnamed := of_decide_eq_true hnamed
    have hhost : ¬ Named hostHeaderName line := hnamed.not_named (by decide)
    have hconnection : ¬ Named connectionHeaderName line := hnamed.not_named (by decide)
    refine Or.inl (List.mem_flatMap.mpr ⟨line, hmem, ?_⟩)
    rw [rewritten, if_neg hhost, if_neg hconnection, if_pos hnamed]
    exact hline
  · rw [if_neg hany]
    exact Or.inr (Or.inr (Or.inr hline))

end Members

section Loop
variable (rt : Runtime) (upstreamHost : List Char) (preserved : Option (List Char))

/-- One turn, by the field that the line is of. -/
theorem rewriteLine_eq (r : Rewriting) {line : List Char} (h : Latin1.Encodable line) :
    let next := rewriteLine rt upstreamHost preserved r line
    next.lines = r.lines ++ rewritten upstreamHost preserved line ∧
      next.sawHost = (r.sawHost || decide (Named hostHeaderName line)) ∧
      next.sawConnection = (r.sawConnection || decide (Named connectionHeaderName line)) ∧
      next.sawOriginalHost = (r.sawOriginalHost || decide (Named originalHostHeaderName line)) := by
  simp only [rewriteLine, lower_originalHostHeader, isPrefixOf_lower rt _ h, rewritten]
  by_cases hhost : Named hostHeaderName line
  · have hconnection : ¬ Named connectionHeaderName line := hhost.not_named (by decide)
    have horiginal : ¬ Named originalHostHeaderName line := hhost.not_named (by decide)
    simp [hhost, hconnection, horiginal]
  · by_cases hconnection : Named connectionHeaderName line
    · have horiginal : ¬ Named originalHostHeaderName line := hconnection.not_named (by decide)
      simp [hhost, hconnection, horiginal]
    · by_cases horiginal : Named originalHostHeaderName line
      · cases preserved <;> simp [hhost, hconnection, horiginal]
      · simp [hhost, hconnection, horiginal]

/-- The whole loop. -/
theorem foldl_rewriteLine (r : Rewriting) {headers : List (List Char)}
    (h : ∀ line ∈ headers, Latin1.Encodable line) :
    let looped := headers.foldl (rewriteLine rt upstreamHost preserved) r
    looped.lines = r.lines ++ headers.flatMap (rewritten upstreamHost preserved) ∧
      looped.sawHost = (r.sawHost || headers.any (Named hostHeaderName ·)) ∧
      looped.sawConnection = (r.sawConnection || headers.any (Named connectionHeaderName ·)) ∧
      looped.sawOriginalHost =
        (r.sawOriginalHost || headers.any (Named originalHostHeaderName ·)) := by
  induction headers generalizing r with
  | nil => simp
  | cons line headers ih =>
    obtain ⟨hlines, hhost, hconnection, horiginal⟩ :=
      rewriteLine_eq rt upstreamHost preserved r (h line List.mem_cons_self)
    obtain ⟨hlines', hhost', hconnection', horiginal'⟩ :=
      ih (rewriteLine rt upstreamHost preserved r line)
        fun line' hmem => h line' (List.mem_cons_of_mem line hmem)
    intro looped
    have hlooped : looped = headers.foldl (rewriteLine rt upstreamHost preserved)
        (rewriteLine rt upstreamHost preserved r line) := rfl
    rw [hlooped, hlines', hhost', hconnection', horiginal', hlines, hhost, hconnection,
      horiginal, List.flatMap_cons, List.any_cons, List.any_cons, List.any_cons]
    simp only [List.append_assoc, Bool.or_assoc, and_self]

theorem lines_addMissing (r : Rewriting) : (addMissing upstreamHost preserved r).lines =
    r.lines ++ ((if r.sawHost then [] else [hostLine upstreamHost]) ++
      ((if r.sawConnection then [] else [keepAlive]) ++
        (if r.sawOriginalHost then [] else preserved.toList.map originalHostLine))) := by
  unfold addMissing
  cases preserved <;> cases hhost : r.sawHost <;> cases hconnection : r.sawConnection <;>
    cases horiginal : r.sawOriginalHost <;> simp [hhost, hconnection, horiginal]

/-- The lines of the header behind the request line, whatever the header was. -/
theorem lines_rewriting (requestLine : List Char) {headers : List (List Char)}
    (h : ∀ line ∈ headers, Latin1.Encodable line) :
    (addMissing upstreamHost preserved
      (headers.foldl (rewriteLine rt upstreamHost preserved) { lines := [requestLine] })).lines =
      requestLine :: rewrittenLines upstreamHost preserved headers := by
  obtain ⟨hlines, hhost, hconnection, horiginal⟩ :=
    foldl_rewriteLine rt upstreamHost preserved { lines := [requestLine] } h
  rw [lines_addMissing, hlines, hhost, hconnection, horiginal, Bool.false_or, Bool.false_or,
    Bool.false_or, rewrittenLines, List.append_assoc, List.singleton_append]

end Loop

section Received
variable (upstreamHost : List Char) (preserved : Option (List Char))

/-- The lines that the upstream sees: one with the end of a line in it is several there. -/
def receivedLines (headers : List (List Char)) : List (List Char) :=
  (rewrittenLines upstreamHost preserved headers).flatMap (splitLines '\r' '\n')

def receivedHost : List (List Char) := splitLines '\r' '\n' (hostLine upstreamHost)

def receivedOriginalHost : List (List Char) :=
  preserved.toList.flatMap fun host => splitLines '\r' '\n' (originalHostLine host)

variable {headers : List (List Char)}

theorem flatMap_rewritten {line : List Char} (h : IsLine '\r' '\n' line) :
    (rewritten upstreamHost preserved line).flatMap (splitLines '\r' '\n') =
      if Named hostHeaderName line then receivedHost upstreamHost
      else if Named connectionHeaderName line then [line]
      else if Named originalHostHeaderName line then receivedOriginalHost preserved
      else [line] := by
  have hline : splitLines '\r' '\n' line = [line] := splitLines_line h
  rw [rewritten, receivedHost, receivedOriginalHost]
  split_ifs
  · rw [List.flatMap_singleton]
  · rw [List.flatMap_singleton, hline]
  · rw [List.flatMap_map]
  · rw [List.flatMap_singleton, hline]

theorem splitLines_keepAlive : splitLines '\r' '\n' keepAlive = [keepAlive] := by decide

theorem receivedLines_eq : receivedLines upstreamHost preserved headers =
    (headers.flatMap fun line =>
      (rewritten upstreamHost preserved line).flatMap (splitLines '\r' '\n')) ++
      ((if headers.any (Named hostHeaderName ·) then [] else receivedHost upstreamHost) ++
        ((if headers.any (Named connectionHeaderName ·) then [] else [keepAlive]) ++
          (if headers.any (Named originalHostHeaderName ·) then []
            else receivedOriginalHost preserved))) := by
  rw [receivedLines, rewrittenLines, List.flatMap_append, List.flatMap_append, List.flatMap_append,
    List.flatMap_assoc]
  congr 1
  congr 1
  · split_ifs
    · rfl
    · exact List.flatMap_singleton _ _
  · congr 1
    · split_ifs
      · rfl
      · rw [List.flatMap_singleton, splitLines_keepAlive]
    · split_ifs
      · rfl
      · exact List.flatMap_map _ _ _

/-- How often a line of some kind is seen, with every host line and every original one replaced. -/
theorem countP_flatMap_rewritten (q : List Char → Bool) (h : ∀ line ∈ headers, IsLine '\r' '\n' line) :
    (headers.flatMap fun line =>
      (rewritten upstreamHost preserved line).flatMap (splitLines '\r' '\n')).countP q =
      headers.countP (fun line => q line ∧ ¬ Named hostHeaderName line ∧
        ¬ Named originalHostHeaderName line) +
      headers.countP (Named hostHeaderName ·) * (receivedHost upstreamHost).countP q +
      headers.countP (Named originalHostHeaderName ·) * (receivedOriginalHost preserved).countP q := by
  induction headers with
  | nil => simp
  | cons line headers ih =>
    have hrest := ih fun line' hmem => h line' (List.mem_cons_of_mem line hmem)
    rw [List.flatMap_cons, List.countP_append, hrest,
      flatMap_rewritten upstreamHost preserved (h line List.mem_cons_self), List.countP_cons,
      List.countP_cons, List.countP_cons]
    by_cases hhost : Named hostHeaderName line
    · have horiginal : ¬ Named originalHostHeaderName line := hhost.not_named (by decide)
      simp only [hhost, horiginal, if_true, if_false, not_true, decide_true, decide_false, false_and,
        and_false, Bool.false_eq_true]
      ring
    · by_cases hconnection : Named connectionHeaderName line
      · have horiginal : ¬ Named originalHostHeaderName line := hconnection.not_named (by decide)
        simp [hhost, hconnection, horiginal, List.countP_cons]
        ring
      · by_cases horiginal : Named originalHostHeaderName line
        · simp [hhost, hconnection, horiginal]
          ring
        · simp [hhost, hconnection, horiginal, List.countP_cons]
          ring

/-- The fields that the proxy replaces stand in the header once at most. -/
structure Single (headers : List (List Char)) : Prop where
  host : headers.countP (Named hostHeaderName ·) ≤ 1
  originalHost : headers.countP (Named originalHostHeaderName ·) ≤ 1

theorem countP_add_missing {q : List Char → Bool} {lines : List (List Char)}
    (h : lines.countP q ≤ 1) (n : ℕ) : lines.countP q * n + (if lines.any q then 0 else n) = n := by
  by_cases hany : lines.any q
  · have hpos : 0 < lines.countP q := List.countP_pos_iff.mpr (List.any_eq_true.mp hany)
    have hone : lines.countP q = 1 := by omega
    rw [if_pos hany, hone, Nat.one_mul, Nat.add_zero]
  · have hzero : lines.countP q = 0 := List.countP_eq_zero.mpr fun line hmem hq =>
      hany (List.any_eq_true.mpr ⟨line, hmem, hq⟩)
    rw [if_neg hany, hzero, Nat.zero_mul, Nat.zero_add]

/-- How often a line of some kind is seen: the host line and the original one are there once. -/
theorem countP_receivedLines (q : List Char → Bool) (h : ∀ line ∈ headers, IsLine '\r' '\n' line)
    (hsingle : Single headers) : (receivedLines upstreamHost preserved headers).countP q =
      headers.countP (fun line => q line ∧ ¬ Named hostHeaderName line ∧
        ¬ Named originalHostHeaderName line) +
      (receivedHost upstreamHost).countP q + (receivedOriginalHost preserved).countP q +
      (if headers.any (Named connectionHeaderName ·) then 0 else [keepAlive].countP q) := by
  have hhost := countP_add_missing hsingle.host ((receivedHost upstreamHost).countP q)
  have horiginal :=
    countP_add_missing hsingle.originalHost ((receivedOriginalHost preserved).countP q)
  rw [receivedLines_eq, List.countP_append, List.countP_append, List.countP_append,
    countP_flatMap_rewritten upstreamHost preserved q h, apply_ite (List.countP q),
    apply_ite (List.countP q), apply_ite (List.countP q), List.countP_nil]
  omega

theorem isLine_hostLine : IsLine '\r' '\n' (hostLine upstreamHost) ↔ IsLine '\r' '\n' upstreamHost := by
  simp [IsLine, hostLine, List.infix_cons_iff]

/-- The line of the original host leaves no line of another kind at the upstream. -/
def Contained (host : List Char) : Prop :=
  ∀ line ∈ splitLines '\r' '\n' (originalHostLine host),
    Named connectionHeaderName line ∨ Named originalHostHeaderName line

instance (host : List Char) : Decidable (Contained host) :=
  inferInstanceAs (Decidable (∀ line ∈ _, _ ∨ _))

variable {upstreamHost preserved}

/-- What the host line and the original one come apart into is seen, whatever the header was. -/
theorem mem_receivedLines (h : ∀ line ∈ headers, IsLine '\r' '\n' line) (hsingle : Single headers)
    {line : List Char} (hmem : line ∈ receivedHost upstreamHost ∨ line ∈ receivedOriginalHost preserved) :
    line ∈ receivedLines upstreamHost preserved headers := by
  have hcount := countP_receivedLines upstreamHost preserved (fun l => l = line) h hsingle
  have hpos : ∀ {lines : List (List Char)}, line ∈ lines → 0 < lines.countP (fun l => l = line) :=
    fun hmem => List.countP_pos_iff.mpr ⟨line, hmem, decide_eq_true rfl⟩
  have hseen : 0 < (receivedLines upstreamHost preserved headers).countP (fun l => l = line) := by
    rcases hmem with hmem | hmem
    · have := hpos hmem
      omega
    · have := hpos hmem
      omega
  obtain ⟨l, hl, heq⟩ := List.countP_pos_iff.mp hseen
  rw [decide_eq_true_iff] at heq
  exact heq ▸ hl

theorem exists_receivedHost (upstreamHost : List Char) : ∃ first ∈ receivedHost upstreamHost,
    Named hostHeaderName first ∧ (first = hostLine upstreamHost → IsLine '\r' '\n' upstreamHost) := by
  have hname : '\r' ∉ hostLine [] := by decide
  obtain ⟨first, rest, -, hlines⟩ := @exists_splitLines_append _ _ _ '\n' _ hname upstreamHost
  have hmem : hostLine first ∈ receivedHost upstreamHost := by
    rw [receivedHost]
    exact hlines ▸ List.mem_cons_self
  refine ⟨hostLine first, hmem, named_hostLine first, fun heq => ?_⟩
  rw [← isLine_hostLine, ← heq]
  exact isLine_of_mem_splitLines hmem

/-- No line of another kind is added where the original host stays within its line. -/
theorem filter_other (h : ∀ line ∈ headers, IsLine '\r' '\n' line)
    (hhost : receivedHost upstreamHost = [hostLine upstreamHost])
    (hcontained : ∀ line ∈ receivedOriginalHost preserved,
      Named connectionHeaderName line ∨ Named originalHostHeaderName line) :
    (receivedLines upstreamHost preserved headers).filter (Other ·) = headers.filter (Other ·) := by
  have hnohost : (receivedHost upstreamHost).filter (Other ·) = [] := by
    have hother : ¬ Other (hostLine upstreamHost) := fun hother => hother.1 (named_hostLine upstreamHost)
    rw [hhost, List.filter_cons_of_neg (by simpa using hother), List.filter_nil]
  have hnooriginal : (receivedOriginalHost preserved).filter (Other ·) = [] := by
    rw [List.filter_eq_nil_iff]
    intro line hmem hother
    have hother := of_decide_eq_true hother
    rcases hcontained line hmem with hnamed | hnamed
    · exact hother.2.1 hnamed
    · exact hother.2.2 hnamed
  have hnokeepAlive : [keepAlive].filter (Other ·) = [] := by decide
  have hloop : (headers.flatMap fun line =>
      (rewritten upstreamHost preserved line).flatMap (splitLines '\r' '\n')).filter (Other ·) =
      headers.filter (Other ·) := by
    induction headers with
    | nil => rfl
    | cons line headers ih =>
      have hrest := ih fun line' hmem => h line' (List.mem_cons_of_mem line hmem)
      rw [List.flatMap_cons, List.filter_append, hrest, List.filter_cons,
        flatMap_rewritten upstreamHost preserved (h line List.mem_cons_self)]
      by_cases hhost : Named hostHeaderName line
      · have hother : ¬ decide (Other line) = true := by simp [Other, hhost]
        rw [if_pos hhost, hnohost, if_neg hother, List.nil_append]
      · by_cases hconnection : Named connectionHeaderName line
        · have hother : ¬ decide (Other line) = true := by simp [Other, hconnection]
          rw [if_neg hhost, if_pos hconnection, if_neg hother,
            List.filter_cons_of_neg (p := (Other ·)) hother, List.filter_nil, List.nil_append]
        · by_cases horiginal : Named originalHostHeaderName line
          · have hother : ¬ decide (Other line) = true := by simp [Other, horiginal]
            rw [if_neg hhost, if_neg hconnection, if_pos horiginal, hnooriginal, if_neg hother,
              List.nil_append]
          · have hother : decide (Other line) = true := by
              simp [Other, hhost, hconnection, horiginal]
            rw [if_neg hhost, if_neg hconnection, if_neg horiginal, if_pos hother,
              List.filter_cons_of_pos (p := (Other ·)) hother, List.filter_nil,
              List.singleton_append]
  rw [receivedLines_eq, List.filter_append, hloop, List.filter_append, List.filter_append,
    apply_ite (List.filter _), apply_ite (List.filter _), apply_ite (List.filter _), hnohost,
    hnooriginal, hnokeepAlive, List.filter_nil, ite_self, ite_self, ite_self, List.append_nil,
    List.append_nil, List.append_nil]

/-- The host line is the only one of its kind where the original host brings none. -/
theorem filter_host (h : ∀ line ∈ headers, IsLine '\r' '\n' line) (hsingle : Single headers)
    (hhost : receivedHost upstreamHost = [hostLine upstreamHost])
    (hcontained : ∀ line ∈ receivedOriginalHost preserved,
      Named connectionHeaderName line ∨ Named originalHostHeaderName line) :
    (receivedLines upstreamHost preserved headers).filter (Named hostHeaderName ·) =
      [hostLine upstreamHost] := by
  have hnamed : decide (Named hostHeaderName (hostLine upstreamHost)) = true :=
    decide_eq_true (named_hostLine upstreamHost)
  have hloop : headers.countP (fun line => decide (Named hostHeaderName line) ∧
      ¬ Named hostHeaderName line ∧ ¬ Named originalHostHeaderName line) = 0 := by
    rw [List.countP_eq_zero]
    intro line _ hboth
    have hboth := of_decide_eq_true hboth
    exact hboth.2.1 (of_decide_eq_true hboth.1)
  have hnooriginal : (receivedOriginalHost preserved).countP (Named hostHeaderName ·) = 0 := by
    rw [List.countP_eq_zero]
    intro line hmem hfirst
    have hfirst := of_decide_eq_true hfirst
    rcases hcontained line hmem with hnamed | hnamed
    · exact hfirst.not_named (by decide) hnamed
    · exact hfirst.not_named (by decide) hnamed
  have hnokeepAlive : [keepAlive].countP (Named hostHeaderName ·) = 0 := by decide
  have hcount := countP_receivedLines upstreamHost preserved (Named hostHeaderName ·) h hsingle
  rw [hloop, hnooriginal, hnokeepAlive, hhost, List.countP_singleton, if_pos hnamed, ite_self,
    List.countP_eq_length_filter] at hcount
  obtain ⟨line, hline⟩ := List.length_eq_one_iff.mp hcount
  have hseen : hostLine upstreamHost ∈ receivedLines upstreamHost preserved headers :=
    mem_receivedLines h hsingle (Or.inl (hhost ▸ List.mem_singleton_self _))
  have hmem : hostLine upstreamHost ∈
      (receivedLines upstreamHost preserved headers).filter (Named hostHeaderName ·) :=
    List.mem_filter.mpr ⟨hseen, hnamed⟩
  rw [hline] at hmem ⊢
  rw [List.mem_singleton.mp hmem]

theorem exists_connection (h : ∀ line ∈ headers, IsLine '\r' '\n' line) :
    ∃ line ∈ receivedLines upstreamHost preserved headers, Named connectionHeaderName line := by
  rw [receivedLines_eq]
  by_cases hany : headers.any (Named connectionHeaderName ·)
  · obtain ⟨line, hmem, hnamed⟩ := List.any_eq_true.mp hany
    have hnamed := of_decide_eq_true hnamed
    have hhost : ¬ Named hostHeaderName line := hnamed.not_named (by decide)
    refine ⟨line, List.mem_append_left _ (List.mem_flatMap.mpr ⟨line, hmem, ?_⟩), hnamed⟩
    rw [flatMap_rewritten upstreamHost preserved (h line hmem), if_neg hhost, if_pos hnamed]
    exact List.mem_singleton_self line
  · refine ⟨keepAlive, List.mem_append_right _ ?_, named_keepAlive⟩
    rw [if_neg hany]
    exact List.mem_append_right _ (List.mem_append_left _ (List.mem_singleton_self keepAlive))

/-- What the upstream sees is right exactly where both hosts stay within their lines. -/
theorem received_iff (h : ∀ line ∈ headers, IsLine '\r' '\n' line) (hsingle : Single headers) :
    ((receivedLines upstreamHost preserved headers).filter (Other ·) = headers.filter (Other ·) ∧
      (receivedLines upstreamHost preserved headers).filter (Named hostHeaderName ·) =
        [hostLine upstreamHost]) ↔
    IsLine '\r' '\n' upstreamHost ∧ ∀ host ∈ preserved, Contained host := by
  constructor
  · rintro ⟨hother, hhost⟩
    obtain ⟨first, hfirst, hnamed, hline⟩ := exists_receivedHost upstreamHost
    have hseen : first ∈ receivedLines upstreamHost preserved headers :=
      mem_receivedLines h hsingle (Or.inl hfirst)
    have hmem : first ∈
        (receivedLines upstreamHost preserved headers).filter (Named hostHeaderName ·) :=
      List.mem_filter.mpr ⟨hseen, decide_eq_true hnamed⟩
    rw [hhost] at hmem
    refine ⟨hline (List.mem_singleton.mp hmem), fun host hpreserved line hpiece => ?_⟩
    have hpiece : line ∈ receivedOriginalHost preserved :=
      List.mem_flatMap.mpr ⟨host, Option.mem_toList.mpr hpreserved, hpiece⟩
    by_contra hneither
    rw [not_or] at hneither
    by_cases hextra : Named hostHeaderName line
    · have hcount := countP_receivedLines upstreamHost preserved (Named hostHeaderName ·) h hsingle
      have hone : 0 < (receivedHost upstreamHost).countP (Named hostHeaderName ·) :=
        List.countP_pos_iff.mpr ⟨first, hfirst, decide_eq_true hnamed⟩
      have htwo : 0 < (receivedOriginalHost preserved).countP (Named hostHeaderName ·) :=
        List.countP_pos_iff.mpr ⟨line, hpiece, decide_eq_true hextra⟩
      rw [List.countP_eq_length_filter, hhost, List.length_singleton] at hcount
      omega
    · have hcount := countP_receivedLines upstreamHost preserved (Other ·) h hsingle
      have hpos : 0 < (receivedOriginalHost preserved).countP (Other ·) :=
        List.countP_pos_iff.mpr ⟨line, hpiece, decide_eq_true ⟨hextra, hneither⟩⟩
      have hloop : headers.countP (fun line => decide (Other line) ∧
          ¬ Named hostHeaderName line ∧ ¬ Named originalHostHeaderName line) =
          headers.countP (Other ·) := by
        refine List.countP_congr fun line _ => ?_
        rw [decide_eq_true_iff, decide_eq_true_iff]
        exact ⟨fun hboth => hboth.1, fun hother => ⟨hother, hother.1, hother.2.2⟩⟩
      rw [hloop, List.countP_eq_length_filter, hother, ← List.countP_eq_length_filter] at hcount
      omega
  · rintro ⟨hline, hcontained⟩
    have hhost : receivedHost upstreamHost = [hostLine upstreamHost] :=
      splitLines_line ((isLine_hostLine upstreamHost).mpr hline)
    have hpieces : ∀ line ∈ receivedOriginalHost preserved,
        Named connectionHeaderName line ∨ Named originalHostHeaderName line := by
      intro line hmem
      obtain ⟨host, hpreserved, hpiece⟩ := List.mem_flatMap.mp hmem
      exact hcontained host (Option.mem_toList.mp hpreserved) line hpiece
    exact ⟨filter_other h hhost hpieces, filter_host h hsingle hhost hpieces⟩

end Received

end OpenNXT.Tools.TlsTerminateProxy
