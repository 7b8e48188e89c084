import Mathlib.Data.List.Infix

/-! Lines with a pair of symbols between them, and the first occurrence of a list in another. -/
namespace OpenNXT.Data
variable {α β : Type}

/-- The first position at which the needle stands. -/
def findSub [BEq α] (needle : List α) : List α → Option ℕ
  | [] => if needle.isPrefixOf [] then some 0 else none
  | a :: s => if needle.isPrefixOf (a :: s) then some 0 else (findSub needle s).map (· + 1)

/-- The lines with the pair between any two of them. -/
def joinLines (cr lf : α) : List (List α) → List α
  | [] => []
  | [l] => l
  | l :: l' :: ls => l ++ cr :: lf :: joinLines cr lf (l' :: ls)

/-- One more symbol in front of the first line. -/
def consHead (a : α) : List (List α) → List (List α)
  | [] => [[a]]
  | l :: ls => (a :: l) :: ls

/-- What stands between the pairs. -/
def splitLines [DecidableEq α] (cr lf : α) : List α → List (List α)
  | [] => [[]]
  | [a] => [[a]]
  | a :: b :: s =>
    if a = cr ∧ b = lf then [] :: splitLines cr lf s
    else consHead a (splitLines cr lf (b :: s))

section Find
variable [DecidableEq α] {needle l s : List α}

theorem findSub_of_prefix (h : needle <+: s) : findSub needle s = some 0 := by
  cases s with
  | nil => rw [findSub, if_pos (List.isPrefixOf_iff_prefix.mpr h)]
  | cons a s => rw [findSub, if_pos (List.isPrefixOf_iff_prefix.mpr h)]

/-- Where the needle does not begin inside a list, it is looked for behind it. -/
theorem findSub_append (h : ∀ t, t ≠ [] → t <:+ l → ¬ needle <+: t ++ s) :
    findSub needle (l ++ s) = (findSub needle s).map (· + l.length) := by
  induction l with
  | nil =>
    cases hfind : findSub needle s with
    | none => rw [List.nil_append, hfind, Option.map_none]
    | some i => rw [List.nil_append, hfind, Option.map_some, List.length_nil, Nat.add_zero]
  | cons a l ih =>
    have hrest := ih fun t ht hsuffix => h t ht (hsuffix.trans (List.suffix_cons a l))
    have hhead : ¬ needle.isPrefixOf (a :: (l ++ s)) := by
      rw [List.isPrefixOf_iff_prefix]
      exact h (a :: l) (List.cons_ne_nil a l) List.suffix_rfl
    rw [List.cons_append, findSub, if_neg hhead, hrest, Option.map_map]
    congr

/-- A needle that is found was all there. -/
theorem prefix_of_findSub {i : ℕ} (h : findSub needle s = some i) : needle <+: s.drop i := by
  induction s generalizing i with
  | nil =>
    rw [findSub] at h
    split_ifs at h with hneedle
    cases h
    exact List.isPrefixOf_iff_prefix.mp hneedle
  | cons a s ih =>
    rw [findSub] at h
    split_ifs at h with hneedle
    · cases h
      exact List.isPrefixOf_iff_prefix.mp hneedle
    · obtain ⟨j, hj, rfl⟩ := Option.map_eq_some_iff.mp h
      exact ih hj

/-- More text behind a needle that is found does not matter. -/
theorem findSub_append_right {i : ℕ} (h : findSub needle s = some i) (t : List α) :
    findSub needle (s ++ t) = some i := by
  induction s generalizing i with
  | nil =>
    rw [findSub] at h
    split_ifs at h with hneedle
    cases h
    exact findSub_of_prefix ((List.isPrefixOf_iff_prefix.mp hneedle).trans List.nil_prefix)
  | cons a s ih =>
    rw [findSub] at h
    split_ifs at h with hneedle
    · cases h
      have hpre := (List.isPrefixOf_iff_prefix.mp hneedle).trans (List.prefix_append (a :: s) t)
      exact findSub_of_prefix hpre
    · obtain ⟨j, hj, rfl⟩ := Option.map_eq_some_iff.mp h
      have hlength := (prefix_of_findSub hj).length_le
      rw [List.length_drop] at hlength
      have hhead : ¬ needle.isPrefixOf (a :: (s ++ t)) := by
        rw [List.isPrefixOf_iff_prefix]
        intro hpre
        apply hneedle
        rw [List.isPrefixOf_iff_prefix]
        refine List.prefix_of_prefix_length_le hpre (List.prefix_append (a :: s) t) ?_
        rw [List.length_cons]
        omega
      rw [List.cons_append, findSub, if_neg hhead, ih hj, Option.map_some]

/-- Another spelling of the symbols does not move the first occurrence. -/
theorem findSub_map [DecidableEq β] {f : α → β} (hf : Function.Injective f) (needle s : List α) :
    findSub (needle.map f) (s.map f) = findSub needle s := by
  have hprefix : ∀ t : List α, (needle.map f).isPrefixOf (t.map f) = needle.isPrefixOf t := by
    intro t
    rw [Bool.eq_iff_iff, List.isPrefixOf_iff_prefix, List.isPrefixOf_iff_prefix]
    exact List.prefix_map_iff_of_injective hf
  induction s with
  | nil => rw [List.map_nil, findSub, findSub, ← hprefix, List.map_nil]
  | cons a s ih => rw [List.map_cons, findSub, findSub, ← hprefix, List.map_cons, ih]

end Find

section Lines
variable [DecidableEq α] {cr lf : α}

/-- A line has no pair in it. -/
def IsLine (cr lf : α) (l : List α) : Prop := ¬ [cr, lf] <:+: l

instance (l : List α) : Decidable (IsLine cr lf l) :=
  inferInstanceAs (Decidable (¬ [cr, lf] <:+: l))

omit [DecidableEq α] in
theorem isLine_of_notMem {l : List α} (h : cr ∉ l) : IsLine cr lf l :=
  fun hinside => h (hinside.subset List.mem_cons_self)

theorem splitLines_ne_nil (cr lf : α) (s : List α) : splitLines cr lf s ≠ [] := by
  fun_induction splitLines cr lf s with
  | case1 => exact List.cons_ne_nil _ _
  | case2 a => exact List.cons_ne_nil _ _
  | case3 a b s hpair ih => exact List.cons_ne_nil _ _
  | case4 a b s hpair ih =>
    cases splitLines cr lf (b :: s) with
    | nil => exact List.cons_ne_nil _ _
    | cons l ls => exact List.cons_ne_nil _ _

/-- A symbol that no pair begins with goes to the first line. -/
theorem splitLines_cons {a : α} {s : List α} (h : ¬ [cr, lf] <+: a :: s) :
    splitLines cr lf (a :: s) = consHead a (splitLines cr lf s) := by
  cases s with
  | nil => rfl
  | cons b s =>
    rw [splitLines, if_neg]
    rintro ⟨rfl, rfl⟩
    exact h ⟨s, rfl⟩

theorem splitLines_line {l : List α} (h : IsLine cr lf l) : splitLines cr lf l = [l] := by
  induction l with
  | nil => rfl
  | cons a l ih =>
    have hl : IsLine cr lf l := fun hinside => h (hinside.trans (List.suffix_cons a l).isInfix)
    rw [splitLines_cons fun hpre => h hpre.isInfix, ih hl, consHead]

/-- What no pair can begin in goes to the first line. -/
theorem exists_splitLines_append {l : List α} (h : cr ∉ l) (s : List α) :
    ∃ first rest, splitLines cr lf s = first :: rest ∧
      splitLines cr lf (l ++ s) = (l ++ first) :: rest := by
  obtain ⟨first, rest, hs⟩ := List.exists_cons_of_ne_nil (splitLines_ne_nil cr lf s)
  refine ⟨first, rest, hs, ?_⟩
  induction l with
  | nil => exact hs
  | cons a l ih =>
    have ha : ¬ [cr, lf] <+: a :: (l ++ s) := by
      rw [List.cons_prefix_cons]
      exact fun hpre => h (hpre.1 ▸ List.mem_cons_self)
    rw [List.cons_append, splitLines_cons ha, ih fun hmem => h (List.mem_cons_of_mem a hmem),
      consHead, List.cons_append]

theorem splitLines_append (hne : cr ≠ lf) (l s : List α) :
    splitLines cr lf (l ++ cr :: lf :: s) = splitLines cr lf l ++ splitLines cr lf s := by
  fun_induction splitLines cr lf l with
  | case1 => rw [List.nil_append, splitLines, if_pos ⟨rfl, rfl⟩, List.singleton_append]
  | case2 a =>
    rw [List.singleton_append, splitLines, if_neg fun hpair => hne hpair.2, splitLines,
      if_pos ⟨rfl, rfl⟩, consHead, List.singleton_append]
  | case3 a b t hpair ih => 
    rw [List.cons_append, List.cons_append, splitLines, if_pos hpair, ih, List.cons_append]
  | case4 a b t hpair ih =>
    rw [List.cons_append, List.cons_append, splitLines, if_neg hpair, ← List.cons_append, ih]
    obtain ⟨l, ls, hl⟩ := List.exists_cons_of_ne_nil (splitLines_ne_nil cr lf (b :: t))
    rw [hl]
    rfl

/-- Joined lines split into what each of them splits into. -/
theorem splitLines_joinLines (hne : cr ≠ lf) {ls : List (List α)} (h : ls ≠ []) :
    splitLines cr lf (joinLines cr lf ls) = ls.flatMap (splitLines cr lf) := by
  induction ls with
  | nil => exact absurd rfl h
  | cons l ls ih =>
    cases ls with
    | nil => rw [joinLines, List.flatMap_singleton]
    | cons l' ls =>
      rw [joinLines, splitLines_append hne, ih (List.cons_ne_nil _ _), List.flatMap_cons,
        List.flatMap_cons, List.flatMap_cons]

theorem flatMap_splitLines {ls : List (List α)} (h : ∀ l ∈ ls, IsLine cr lf l) :
    ls.flatMap (splitLines cr lf) = ls := by
  induction ls with
  | nil => rfl
  | cons l ls ih =>
    rw [List.flatMap_cons, splitLines_line (h l List.mem_cons_self),
      ih fun m hm => h m (List.mem_cons_of_mem l hm), List.singleton_append]

omit [DecidableEq α] in
theorem forall_mem_joinLines {P : α → Prop} (hcr : P cr) (hlf : P lf) (ls : List (List α)) :
    (∀ a ∈ joinLines cr lf ls, P a) ↔ ∀ l ∈ ls, ∀ a ∈ l, P a := by
  induction ls with
  | nil => simp [joinLines]
  | cons l ls ih =>
    cases ls with
    | nil => simp [joinLines]
    | cons l' ls =>
      have hlines := @List.forall_mem_cons _ (fun l => ∀ a ∈ l, P a) l (l' :: ls)
      rw [joinLines, List.forall_mem_append, List.forall_mem_cons, List.forall_mem_cons, ih, hlines]
      exact ⟨fun h => ⟨h.1, h.2.2.2⟩, fun h => ⟨h.1, hcr, hlf, h.2⟩⟩

theorem joinLines_splitLines (cr lf : α) (s : List α) :
    joinLines cr lf (splitLines cr lf s) = s := by
  fun_induction splitLines cr lf s with
  | case1 => rfl
  | case2 a => rfl
  | case3 a b s hpair ih =>
    obtain ⟨l, ls, hl⟩ := List.exists_cons_of_ne_nil (splitLines_ne_nil cr lf s)
    rw [hl] at ih ⊢
    rw [joinLines, ih, hpair.1, hpair.2, List.nil_append]
  | case4 a b s hpair ih =>
    obtain ⟨l, ls, hl⟩ := List.exists_cons_of_ne_nil (splitLines_ne_nil cr lf (b :: s))
    rw [hl] at ih ⊢
    cases ls with
    | nil => 
      rw [consHead, joinLines]
      rw [joinLines] at ih
      rw [ih]
    | cons l' ls =>
      rw [consHead, joinLines, List.cons_append]
      rw [joinLines] at ih
      rw [ih]

/-- The first line is where the text begins. -/
theorem head_starts {s l : List α} {ls : List (List α)} (h : splitLines cr lf s = l :: ls) :
    l <+: s := by
  have hjoin := joinLines_splitLines cr lf s
  rw [h] at hjoin
  cases ls with
  | nil =>
    rw [joinLines] at hjoin
    rw [hjoin]
  | cons l' ls =>
    rw [joinLines] at hjoin
    exact ⟨_, hjoin⟩

theorem isLine_of_mem_splitLines {s l : List α} (h : l ∈ splitLines cr lf s) :
    IsLine cr lf l := by
  have hshort : ∀ t : List α, t.length < 2 → IsLine cr lf t := by
    intro t ht hinside
    have hlength := hinside.length_le
    rw [List.length_cons, List.length_singleton] at hlength
    omega
  fun_induction splitLines cr lf s generalizing l with
  | case1 =>
    rw [List.mem_singleton.mp h]
    exact hshort [] Nat.two_pos
  | case2 a =>
    rw [List.mem_singleton.mp h]
    exact hshort [a] Nat.one_lt_two
  | case3 a b s hpair ih =>
    rcases List.mem_cons.mp h with rfl | hlater
    · exact hshort [] Nat.two_pos
    · exact ih hlater
  | case4 a b s hpair ih =>
    obtain ⟨first, ls, hl⟩ := List.exists_cons_of_ne_nil (splitLines_ne_nil cr lf (b :: s))
    rw [hl] at ih h
    rcases List.mem_cons.mp h with rfl | hlater
    · intro hinside
      rcases List.infix_cons_iff.mp hinside with hpre | hinner
      · have hfirst : a :: first <+: a :: b :: s :=
          List.cons_prefix_cons.mpr ⟨rfl, head_starts hl⟩
        obtain ⟨t, ht⟩ := hpre.trans hfirst
        cases ht
        exact hpair ⟨rfl, rfl⟩
      · exact ih List.mem_cons_self hinner
    · exact ih (List.mem_cons_of_mem first hlater)

omit [DecidableEq α] in
/-- No pair begins inside a line that ends at one. -/
theorem IsLine.not_begins {l : List α} (h : IsLine cr lf l) (hne : cr ≠ lf) (s : List α)
    {t : List α} (ht : t ≠ []) (hsuffix : t <:+ l) : ¬ [cr, lf] <+: t ++ cr :: s := by
  obtain ⟨a, t, rfl⟩ := List.exists_cons_of_ne_nil ht
  intro hpre
  cases t with
  | nil =>
    obtain ⟨u, hu⟩ := hpre
    cases hu
    exact hne rfl
  | cons b t =>
    obtain ⟨u, hu⟩ := hpre
    cases hu
    exact h (List.IsInfix.trans ⟨[], t, rfl⟩ hsuffix.isInfix)

/-- The first blank line is the one behind the lines. -/
theorem findSub_blank (hne : cr ≠ lf) {ls : List (List α)} (hls : ls ≠ [])
    (hlines : ∀ l ∈ ls, IsLine cr lf l) (hfull : ∀ l ∈ ls, l ≠ []) (s : List α) :
    findSub [cr, lf, cr, lf] (joinLines cr lf ls ++ cr :: lf :: cr :: lf :: s) =
      some (joinLines cr lf ls).length := by
  have hpair : ∀ {t : List α}, [cr, lf, cr, lf] <+: t → [cr, lf] <+: t :=
    fun h => List.IsPrefix.trans ⟨[cr, lf], rfl⟩ h
  induction ls with
  | nil => exact absurd rfl hls
  | cons l ls ih =>
    have hl := hlines l List.mem_cons_self
    have hskip : ∀ u : List α, findSub [cr, lf, cr, lf] (l ++ cr :: u) =
        (findSub [cr, lf, cr, lf] (cr :: u)).map (· + l.length) := by
      intro u
      exact findSub_append fun t ht hsuffix hpre => hl.not_begins hne u ht hsuffix (hpair hpre)
    cases ls with
    | nil =>
      have hfound : findSub [cr, lf, cr, lf] (cr :: lf :: cr :: lf :: s) = some 0 :=
        findSub_of_prefix ⟨s, rfl⟩
      rw [joinLines, hskip, hfound, Option.map_some, Nat.zero_add]
    | cons l' ls =>
      have hrest := ih (List.cons_ne_nil l' ls) (fun m hm => hlines m (List.mem_cons_of_mem l hm))
        fun m hm => hfull m (List.mem_cons_of_mem l hm)
      obtain ⟨u, hu⟩ : ∃ u, joinLines cr lf (l' :: ls) ++ cr :: lf :: cr :: lf :: s =
          l' ++ cr :: u := by
        cases ls with
        | nil => exact ⟨_, rfl⟩
        | cons l'' ls => exact ⟨_, List.append_assoc _ _ _⟩
      have hl' := hlines l' (List.mem_cons_of_mem l List.mem_cons_self)
      have hne' := hfull l' (List.mem_cons_of_mem l List.mem_cons_self)
      have hno : ¬ [cr, lf] <+: l' ++ cr :: u := hl'.not_begins hne u hne' List.suffix_rfl
      have hfirst : ¬ [cr, lf, cr, lf].isPrefixOf (cr :: lf :: (l' ++ cr :: u)) := by
        rw [List.isPrefixOf_iff_prefix, List.cons_prefix_cons, List.cons_prefix_cons]
        exact fun h => hno h.2.2
      have hsecond : ¬ [cr, lf, cr, lf].isPrefixOf (lf :: (l' ++ cr :: u)) := by
        rw [List.isPrefixOf_iff_prefix, List.cons_prefix_cons]
        exact fun h => hne h.1
      rw [joinLines, List.append_assoc, List.cons_append, List.cons_append, hskip, hu, findSub,
        if_neg hfirst, findSub, if_neg hsecond, ← hu, hrest, List.length_append, List.length_cons,
        List.length_cons]
      simp only [Option.map_some]
      congr 1
      omega

end Lines

end OpenNXT.Data
