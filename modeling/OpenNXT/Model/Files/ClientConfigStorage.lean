import OpenNXT.Model.Files.ClientConfig

/-! A configuration that is written to a file and read back. -/
namespace OpenNXT.Model.Files
open Buffer Data

namespace ClientConfig
variable {config : ClientConfig} {k v line : Text}

/-- The keys that a line can give. -/
def Key (k : Text) : Prop :=
  (equalsSign ∉ k ∧ k ≠ literal "msg" ∧ k ≠ literal "param") ∨
    ∃ x, equalsSign ∉ x ∧ (k = literal "msg" ++ equalsSign :: x ∨
      k = literal "param" ++ equalsSign :: x)

/-- The line of an entry. -/
def entryLine (e : Sigma fun _ : Text => Text) : Text := e.1 ++ equalsSign :: e.2

section Line

private theorem isBlank_entry : isBlank (k ++ equalsSign :: v) = false := by
  rw [isBlank, List.all_append, List.all_cons]
  have hequals : isWhitespace equalsSign = false := by decide
  rw [hequals, Bool.false_and, Bool.and_false]

private theorem equals_notMem_literal : equalsSign ∉ literal "msg" ∧ equalsSign ∉ literal "param" := by
  decide +kernel

private theorem readLine_of_plain (hk : equalsSign ∉ k) (hmsg : k ≠ literal "msg")
    (hparam : k ≠ literal "param") :
    readLine config (k ++ equalsSign :: v) = some ⟨config.entries.insert k v⟩ := by
  rw [readLine, isBlank_entry, if_neg Bool.false_ne_true, cuts_append_cons hk, cuts]
  exact if_neg (not_or.mpr ⟨hmsg, hparam⟩)

private theorem readLine_of_named {name x : Text} (hname : name = literal "msg" ∨
    name = literal "param") (hx : equalsSign ∉ x) :
    readLine config (name ++ equalsSign :: (x ++ equalsSign :: v)) =
      some ⟨config.entries.insert (name ++ equalsSign :: x) v⟩ := by
  have hequals : equalsSign ∉ name := by
    rcases hname with rfl | rfl
    · exact equals_notMem_literal.1
    · exact equals_notMem_literal.2
  rw [readLine, isBlank_entry, if_neg Bool.false_ne_true, cuts_append_cons hequals, cuts,
    cuts_append_cons hequals, cuts_append_cons hx, cuts]
  exact if_pos hname

/-- A line of a key and a value is an entry. -/
theorem readLine_entry (hk : Key k) :
    readLine config (k ++ equalsSign :: v) = some ⟨config.entries.insert k v⟩ := by
  rcases hk with ⟨hequals, hmsg, hparam⟩ | ⟨x, hx, rfl | rfl⟩
  · exact readLine_of_plain hequals hmsg hparam
  · rw [List.append_assoc, List.cons_append]
    exact readLine_of_named (Or.inl rfl) hx
  · rw [List.append_assoc, List.cons_append]
    exact readLine_of_named (Or.inr rfl) hx

/-- A line that is read is blank or an entry. -/
theorem readLine_cases {after : ClientConfig} (h : readLine config line = some after) :
    isBlank line = true ∧ after = config ∨
      ∃ k v, line = k ++ equalsSign :: v ∧ Key k ∧ after = ⟨config.entries.insert k v⟩ := by
  cases hblank : isBlank line with
  | true =>
    rw [readLine, hblank, if_pos rfl] at h
    exact Or.inl ⟨rfl, (Option.some.inj h).symm⟩
  | false =>
    refine Or.inr ?_
    by_cases hequals : equalsSign ∈ line
    · obtain ⟨a, b, rfl, ha⟩ := List.eq_append_cons_of_mem hequals
      by_cases hname : a = literal "msg" ∨ a = literal "param"
      · by_cases hsecond : equalsSign ∈ b
        · obtain ⟨x, v, rfl, hx⟩ := List.eq_append_cons_of_mem hsecond
          rw [readLine_of_named hname hx] at h
          refine ⟨a ++ equalsSign :: x, v, by rw [List.append_assoc, List.cons_append],
            Or.inr ⟨x, hx, ?_⟩, (Option.some.inj h).symm⟩
          rcases hname with rfl | rfl
          · exact Or.inl rfl
          · exact Or.inr rfl
        · rw [readLine, hblank, if_neg Bool.false_ne_true, cuts_append_cons ha, cuts,
            cuts_append_cons ha, cuts_of_notMem hsecond] at h
          exact absurd ((if_pos hname).symm.trans h) (Option.some_ne_none _).symm
      · obtain ⟨hmsg, hparam⟩ := not_or.mp hname
        rw [readLine_of_plain ha hmsg hparam] at h
        exact ⟨a, b, rfl, Or.inl ⟨ha, hmsg, hparam⟩, (Option.some.inj h).symm⟩
    · rw [readLine, hblank, if_neg Bool.false_ne_true, cuts_of_notMem hequals] at h
      cases h

/-- The entries of lines that are read come from them. -/
theorem entries_of_lines {lines : List Text} {after : ClientConfig}
    (h : lines.foldlM readLine config = some after) (hafter : after.entries.lookup k = some v) :
    config.entries.lookup k = some v ∨ Key k ∧ k ++ equalsSign :: v ∈ lines := by
  induction lines generalizing config with
  | nil =>
    cases h
    exact Or.inl hafter
  | cons line lines ih =>
    rw [List.foldlM_cons, Option.bind_eq_bind, Option.bind_eq_some_iff] at h
    obtain ⟨next, hnext, hrest⟩ := h
    rcases ih hrest with hlookup | ⟨hkey, hmem⟩
    · rcases readLine_cases hnext with ⟨-, rfl⟩ | ⟨k', v', rfl, hkey, rfl⟩
      · exact Or.inl hlookup
      · by_cases hkk : k = k'
        · subst hkk
          rw [Finmap.lookup_insert] at hlookup
          cases hlookup
          exact Or.inr ⟨hkey, List.mem_cons_self⟩
        · rw [Finmap.lookup_insert_of_ne _ hkk] at hlookup
          exact Or.inl hlookup
    · exact Or.inr ⟨hkey, List.mem_cons_of_mem _ hmem⟩

end Line

section Written

private theorem foldlM_entries {es : List (Sigma fun _ : Text => Text)} (hes : es.NodupKeys)
    (hkeys : ∀ e ∈ es, Key e.1) (config : ClientConfig) :
    ∃ after, (es.map entryLine).foldlM readLine config = some after ∧ ∀ k,
      after.entries.lookup k = (es.dlookup k).or (config.entries.lookup k) := by
  induction es generalizing config with
  | nil => exact ⟨config, rfl, fun k => by rw [List.dlookup_nil, Option.none_or]⟩
  | cons e es ih =>
    obtain ⟨hfresh, hrest⟩ := List.nodupKeys_cons.mp hes
    obtain ⟨after, hafter, hlookup⟩ := ih hrest
      (fun e' he' => hkeys e' (List.mem_cons_of_mem e he')) ⟨config.entries.insert e.1 e.2⟩
    refine ⟨after, ?_, fun k => ?_⟩
    · rw [List.map_cons, List.foldlM_cons, entryLine, readLine_entry (hkeys e List.mem_cons_self)]
      exact hafter
    · rw [hlookup]
      by_cases hk : k = e.1
      · subst hk
        rw [List.dlookup_eq_none.mpr hfresh, Option.none_or, Finmap.lookup_insert]
        exact (congrArg (Option.or · _) (List.dlookup_cons_eq es e.1 e.2)).symm
      · rw [Finmap.lookup_insert_of_ne _ hk, List.dlookup_cons_ne _ e hk]

/-- The sorted lines are those of the entries in some order. -/
private theorem exists_sorted (config : ClientConfig) :
    ∃ es : List (Sigma fun _ : Text => Text), es.NodupKeys ∧
      (config.entries.entries.map entryLine).sort (· ≤ ·) = es.map entryLine ∧
      ∀ k, config.entries.lookup k = es.dlookup k := by
  obtain ⟨entries⟩ := config
  induction entries using Finmap.induction_on with
  | _ s =>
    have hperm : List.Perm ((Multiset.map entryLine s.entries).sort (· ≤ ·))
        (s.entries.map entryLine) := by
      rw [← Multiset.coe_eq_coe, Multiset.sort_eq, Multiset.map_coe]
    have hforall : List.Forall₂ (fun l e => l = entryLine e) (s.entries.map entryLine)
        s.entries := by
      rw [List.forall₂_map_left_iff]
      exact List.forall₂_same.mpr fun _ _ => rfl
    obtain ⟨es, hes, hperm⟩ := List.perm_comp_forall₂ hperm hforall
    refine ⟨es, (List.perm_nodupKeys hperm).mpr s.nodupKeys, ?_, fun k => ?_⟩
    · change (Multiset.map entryLine s.entries).sort (· ≤ ·) = _
      rw [← List.forall₂_eq_eq_eq, List.forall₂_map_right_iff]
      exact hes
    · rw [Finmap.lookup_toFinmap]
      exact (List.perm_dlookup k ((List.perm_nodupKeys hperm).mpr s.nodupKeys) hperm).symm

/-- What the lines of a configuration say is the configuration. -/
theorem readLines_of_sorted (hkeys : ∀ k v, config.entries.lookup k = some v → Key k) :
    ((config.entries.entries.map entryLine).sort (· ≤ ·)).foldlM readLine {} = some config := by
  obtain ⟨es, hnodup, hsorted, hlookup⟩ := exists_sorted config
  obtain ⟨after, hafter, hall⟩ := foldlM_entries hnodup
    (fun e he => hkeys e.1 e.2 ((hlookup e.1).trans (List.mem_dlookup hnodup he))) {}
  have heq : after = config := by
    obtain ⟨entries⟩ := config
    obtain ⟨others⟩ := after
    refine congrArg ClientConfig.mk (Finmap.ext_lookup fun k => ?_)
    rw [hall k, hlookup k, Finmap.lookup_empty, Option.or_none]
  rw [hsorted, hafter, heq]

end Written

section Lines

theorem notMem_of_mem_splitOn {s l : Text} {sep : CodeUnit} (h : l ∈ s.splitOn sep) : sep ∉ l := by
  induction s generalizing l with
  | nil =>
    rw [List.splitOn_nil, List.mem_singleton] at h
    subst h
    exact List.not_mem_nil
  | cons c s ih =>
    rw [List.splitOn_cons_eq_if_modifyHead] at h
    split_ifs at h with hc
    · rcases List.mem_cons.mp h with rfl | h
      · exact List.not_mem_nil
      · exact ih h
    · cases hsplit : s.splitOn sep with
      | nil => exact absurd hsplit (List.splitOn_ne_nil _ _)
      | cons first others =>
        rw [hsplit, List.modifyHead_cons] at h
        rcases List.mem_cons.mp h with rfl | h
        · rw [List.mem_cons, not_or]
          refine ⟨fun heq => hc (beq_iff_eq.mpr heq.symm), ih ?_⟩
          rw [hsplit]
          exact List.mem_cons_self
        · refine ih ?_
          rw [hsplit]
          exact List.mem_cons_of_mem _ h

theorem terminated_ne_nil (s : Text) : terminated s ≠ [] := by
  induction s using terminated.induct with
  | case1 => exact List.cons_ne_nil _ _
  | case2 c hc => simp [terminated, hc]
  | case3 c hc => simp [terminated, hc]
  | case4 c d s hc => simp [terminated, hc]
  | case5 c d s hcd hc => simp [terminated, hcd, hc]
  | case6 c d s hcd hc ih =>
    rw [terminated, if_neg hcd, if_neg hc, Ne, List.modifyHead_eq_nil_iff]
    exact ih

/-- Without a carriage return the lines end at line feeds. -/
theorem terminated_eq_splitOn {s : Text} (h : carriageReturn ∉ s) :
    terminated s = s.splitOn lineFeed := by
  induction s using terminated.induct with
  | case1 => rfl
  | case2 c hc =>
    have hfeed : c = lineFeed := hc.resolve_left fun heq => h (heq ▸ List.mem_cons_self)
    subst hfeed
    rfl
  | case3 c hc =>
    obtain ⟨-, hfeed⟩ := not_or.mp hc
    rw [terminated, if_neg hc, List.splitOn_cons_eq_if_modifyHead,
      if_neg (fun heq => hfeed (beq_iff_eq.mp heq))]
    rfl
  | case4 c d s hc => exact absurd (hc.1 ▸ List.mem_cons_self) h
  | case5 c d s hcd hc ih =>
    have hfeed : c = lineFeed := hc.resolve_left fun heq => h (heq ▸ List.mem_cons_self)
    rw [terminated, if_neg hcd, if_pos hc, ih fun hmem => h (List.mem_cons_of_mem c hmem),
      List.splitOn_cons_eq_if_modifyHead c, if_pos (beq_iff_eq.mpr hfeed)]
  | case6 c d s hcd hc ih =>
    obtain ⟨-, hfeed⟩ := not_or.mp hc
    rw [terminated, if_neg hcd, if_neg hc, ih fun hmem => h (List.mem_cons_of_mem c hmem),
      List.splitOn_cons_eq_if_modifyHead c, if_neg (fun heq => hfeed (beq_iff_eq.mp heq))]

theorem carriageReturn_notMem {s l : Text} (h : l ∈ terminated s) : carriageReturn ∉ l := by
  induction s using terminated.induct generalizing l with
  | case1 => simp_all [terminated]
  | case2 c hc =>
    rw [terminated, if_pos hc, List.mem_cons, List.mem_singleton, or_self] at h
    subst h
    exact List.not_mem_nil
  | case3 c hc =>
    rw [terminated, if_neg hc, List.mem_singleton] at h
    subst h
    rw [List.mem_singleton]
    exact fun heq => hc (Or.inl heq.symm)
  | case4 c d s hc ih =>
    rw [terminated, if_pos hc] at h
    rcases List.mem_cons.mp h with rfl | h
    · exact List.not_mem_nil
    · exact ih h
  | case5 c d s hcd hc ih =>
    rw [terminated, if_neg hcd, if_pos hc] at h
    rcases List.mem_cons.mp h with rfl | h
    · exact List.not_mem_nil
    · exact ih h
  | case6 c d s hcd hc ih =>
    rw [terminated, if_neg hcd, if_neg hc] at h
    cases hsplit : terminated (d :: s) with
    | nil => exact absurd hsplit (terminated_ne_nil _)
    | cons first others =>
      rw [hsplit, List.modifyHead_cons] at h
      rw [hsplit] at ih
      rcases List.mem_cons.mp h with rfl | h
      · rw [List.mem_cons, not_or]
        exact ⟨fun heq => hc (Or.inl heq.symm), ih List.mem_cons_self⟩
      · exact ih (List.mem_cons_of_mem _ h)

private theorem not_surrogate_terminator {c : CodeUnit} (h : c = carriageReturn ∨ c = lineFeed) :
    ¬ c.IsHigh ∧ ¬ c.IsLow := by
  rcases h with rfl | rfl <;> decide

private theorem forall_of_first {P : Text → Prop} {s : Text}
    (h : ∀ first others, terminated s = first :: others → P first ∧ ∀ l ∈ others, P l) :
    ∀ l ∈ terminated s, P l := by
  intro l hl
  obtain ⟨first, others, hsplit⟩ := List.exists_cons_of_ne_nil (terminated_ne_nil s)
  obtain ⟨hfirst, hothers⟩ := h first others hsplit
  rw [hsplit] at hl
  rcases List.mem_cons.mp hl with rfl | hl
  · exact hfirst
  · exact hothers l hl

/-- The lines of well-formed text are well formed. -/
private theorem wellFormed_terminated {s front first : Text} {others : List Text}
    (h : Text.WellFormed (front ++ s)) (hs : terminated s = first :: others) :
    Text.WellFormed (front ++ first) ∧ ∀ l ∈ others, Text.WellFormed l := by
  induction s using terminated.induct generalizing front first others with
  | case1 =>
    cases hs
    exact ⟨h, fun l hl => absurd hl List.not_mem_nil⟩
  | case2 c hc =>
    rw [terminated, if_pos hc] at hs
    cases hs
    obtain ⟨hhigh, hlow⟩ := not_surrogate_terminator hc
    rw [List.append_nil]
    refine ⟨(h.cut hhigh hlow).1, fun l hl => ?_⟩
    rw [List.mem_singleton.mp hl]
    exact Text.wellFormed_nil
  | case3 c hc =>
    rw [terminated, if_neg hc] at hs
    cases hs
    exact ⟨h, fun l hl => absurd hl List.not_mem_nil⟩
  | case4 c d s hc ih =>
    rw [terminated, if_pos hc] at hs
    cases hs
    obtain ⟨hhigh, hlow⟩ := not_surrogate_terminator (Or.inl hc.1)
    obtain ⟨hdhigh, hdlow⟩ := not_surrogate_terminator (Or.inr hc.2)
    obtain ⟨hfront, hrest⟩ := h.cut hhigh hlow
    have hs := (@Text.WellFormed.cut [] s d hdhigh hdlow hrest).2
    rw [List.append_nil]
    exact ⟨hfront, forall_of_first fun first others => @ih [] first others hs⟩
  | case5 c d s hcd hc ih =>
    rw [terminated, if_neg hcd, if_pos hc] at hs
    cases hs
    obtain ⟨hhigh, hlow⟩ := not_surrogate_terminator hc
    obtain ⟨hfront, hrest⟩ := h.cut hhigh hlow
    rw [List.append_nil]
    exact ⟨hfront, forall_of_first fun first others => @ih [] first others hrest⟩
  | case6 c d s hcd hc ih =>
    obtain ⟨next, more, hsplit⟩ := List.exists_cons_of_ne_nil (terminated_ne_nil (d :: s))
    rw [terminated, if_neg hcd, if_neg hc, hsplit, List.modifyHead_cons] at hs
    cases hs
    have hfront : Text.WellFormed ((front ++ [c]) ++ d :: s) := by
      rw [List.append_assoc, List.singleton_append]
      exact h
    obtain ⟨hfirst, hothers⟩ := ih hfront hsplit
    rw [List.append_assoc, List.singleton_append] at hfirst
    exact ⟨hfirst, hothers⟩

theorem wellFormed_of_mem_terminated {s l : Text} (h : Text.WellFormed s) (hl : l ∈ terminated s) :
    Text.WellFormed l :=
  forall_of_first (fun first others => @wellFormed_terminated s [] first others h) l hl

end Lines

section Storage

/-- What a text that is parsed may hold: every entry is a line of it. -/
theorem entry_of_parse {text : Text} (h : parse text = some config)
    (hv : config.entries.lookup k = some v) :
    Key k ∧ k ++ equalsSign :: v ∈ text.splitOn lineFeed := by
  rcases entries_of_lines h hv with hempty | hentry
  · rw [Finmap.lookup_empty] at hempty
    cases hempty
  · exact hentry

private theorem mem_sorted {l : Text}
    (hl : l ∈ (config.entries.entries.map entryLine).sort (· ≤ ·)) :
    ∃ k v, config.entries.lookup k = some v ∧ l = k ++ equalsSign :: v := by
  obtain ⟨es, hnodup, hsorted, hlookup⟩ := exists_sorted config
  rw [hsorted] at hl
  obtain ⟨e, he, rfl⟩ := List.mem_map.mp hl
  exact ⟨e.1, e.2, (hlookup e.1).trans (List.mem_dlookup hnodup he), rfl⟩

private theorem toText_eq (config : ClientConfig) : config.toText =
    [lineFeed].intercalate ((config.entries.entries.map entryLine).sort (· ≤ ·)) := rfl

/-- The text of a configuration that was parsed is parsed to it. -/
theorem parse_toText {text : Text} (h : parse text = some config) :
    parse config.toText = some config := by
  have hread := readLines_of_sorted fun k v hv => (entry_of_parse h hv).1
  rw [parse, toText_eq]
  by_cases hlines : (config.entries.entries.map entryLine).sort (· ≤ ·) = []
  · rw [hlines] at hread ⊢
    exact hread
  · rw [List.splitOn_intercalate lineFeed (fun l hl => ?_) hlines]
    · exact hread
    · obtain ⟨k, v, hv, rfl⟩ := mem_sorted hl
      exact notMem_of_mem_splitOn (entry_of_parse h hv).2

/-- A blank last line changes nothing. -/
private theorem foldlM_readAllLines (s : Text) (config : ClientConfig) :
    (readAllLines s).foldlM readLine config = (terminated s).foldlM readLine config := by
  rw [readAllLines]
  split_ifs with hlast
  · obtain ⟨hne, hget⟩ := List.getLast?_eq_some_iff.mp hlast
    rw [hget, List.dropLast_concat, List.foldlM_append]
    cases hne.foldlM readLine config <;> rfl
  · rfl

/-- Nothing that is stored is a terminator for one reader alone, or no character. -/
structure Plain (config : ClientConfig) : Prop where
  key : ∀ k v, config.entries.lookup k = some v → carriageReturn ∉ k ∧ Text.WellFormed k
  value : ∀ k v, config.entries.lookup k = some v → carriageReturn ∉ v ∧ Text.WellFormed v

theorem load_save (config : ClientConfig) : load (some config.save) =
    (terminated (Text.units (Text.scalars config.toText))).foldlM readLine {} := by
  have hdecode : config.save.utf8Decode? = some (Text.scalars config.toText).toArray :=
    List.utf8Decode?_utf8Encode
  rw [load, Option.bind_eq_bind, Option.bind_some, hdecode, Option.bind_eq_bind, Option.bind_some,
    foldlM_readAllLines]

private theorem intercalate_plain {P : Text → Prop} (hnil : P []) (hfeed : P [lineFeed])
    (happend : ∀ s t, P s → P t → P (s ++ t)) {ls : List Text} (h : ∀ l ∈ ls, P l) :
    P ([lineFeed].intercalate ls) := by
  induction ls with
  | nil => exact hnil
  | cons l ls ih =>
    have hl := h l List.mem_cons_self
    have hls := ih fun l' hl' => h l' (List.mem_cons_of_mem l hl')
    by_cases hempty : ls = []
    · subst hempty
      rw [List.intercalate_singleton]
      exact hl
    · rw [List.intercalate_cons_of_ne_nil hempty]
      exact happend _ _ (happend _ _ hl hfeed) hls

/-- The text of a plain configuration is well formed, and without a carriage return. -/
private theorem Plain.toText (h : Plain config) :
    carriageReturn ∉ config.toText ∧ Text.WellFormed config.toText := by
  rw [toText_eq]
  refine intercalate_plain (P := fun s => carriageReturn ∉ s ∧ Text.WellFormed s)
    ⟨List.not_mem_nil, Text.wellFormed_nil⟩
    ⟨by decide, Text.wellFormed_singleton (by decide) (by decide)⟩ ?_ fun l hl => ?_
  · rintro s t ⟨hs, hswf⟩ ⟨ht, htwf⟩
    rw [List.mem_append, not_or]
    exact ⟨⟨hs, ht⟩, hswf.append htwf⟩
  · obtain ⟨k, v, hv, rfl⟩ := mem_sorted hl
    obtain ⟨hk, hkwf⟩ := h.key k v hv
    obtain ⟨hvalue, hvwf⟩ := h.value k v hv
    rw [List.mem_append, List.mem_cons, not_or, not_or]
    refine ⟨⟨hk, by decide, hvalue⟩, hkwf.append ?_⟩
    exact (Text.wellFormed_singleton (u := equalsSign) (by decide) (by decide)).append hvwf

/-- What is loaded is plain. -/
private theorem plain_of_load (h : load (some config.save) = some config) : Plain config := by
  rw [load_save] at h
  have hentry (k v : Text) (hv : config.entries.lookup k = some v) :
      k ++ equalsSign :: v ∈ terminated (Text.units (Text.scalars config.toText)) := by
    rcases entries_of_lines h hv with hempty | hentry
    · rw [Finmap.lookup_empty] at hempty
      cases hempty
    · exact hentry.2
  have hplain (k v : Text) (hv : config.entries.lookup k = some v) :
      (carriageReturn ∉ k ∧ carriageReturn ∉ v) ∧ Text.WellFormed k ∧ Text.WellFormed v := by
    have hmem := hentry k v hv
    have hreturn := carriageReturn_notMem hmem
    rw [List.mem_append, List.mem_cons, not_or, not_or] at hreturn
    exact ⟨⟨hreturn.1, hreturn.2.2⟩,
      (wellFormed_of_mem_terminated (Text.wellFormed_units _) hmem).cut (by decide) (by decide)⟩
  exact ⟨fun k v hv => ⟨(hplain k v hv).1.1, (hplain k v hv).2.1⟩,
    fun k v hv => ⟨(hplain k v hv).1.2, (hplain k v hv).2.2⟩⟩

/-- The configuration comes back from its file and from its text. -/
def Survives (config : ClientConfig) : Prop :=
  load (some config.save) = some config ∧ parse config.toText = some config

theorem survives_iff {text : Text} (h : parse text = some config) :
    config.Survives ↔ config.Plain := by
  constructor
  · exact fun hsurvives => plain_of_load hsurvives.1
  · intro hplain
    obtain ⟨hreturn, hwf⟩ := hplain.toText
    refine ⟨?_, parse_toText h⟩
    rw [load_save, hwf.units_scalars, terminated_eq_splitOn hreturn]
    exact parse_toText h

theorem survives_iff_entry :
    Survives ⟨Finmap.insert (literal "a") (literal "b=c") ∅⟩ ↔
      Plain ⟨Finmap.insert (literal "a") (literal "b=c") ∅⟩ :=
  @survives_iff _ (literal "a=b=c") (by rfl)

/-- With lines that end at a carriage return and a line feed, the values that are saved end at a
carriage return, and those that are loaded do not. -/
theorem not_survives_crlf : ∃ config, parse (literal "a=b\r\n") = some config ∧
    ¬ config.Survives := by
  refine ⟨⟨Finmap.insert (literal "a") (literal "b\r") ∅⟩, by rfl, fun h => ?_⟩
  refine ((plain_of_load h.1).value (literal "a") (literal "b\r") (Finmap.lookup_insert _)).1 ?_
  decide +kernel

end Storage

end ClientConfig

end OpenNXT.Model.Files
