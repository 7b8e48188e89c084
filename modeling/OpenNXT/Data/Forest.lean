import Mathlib.Data.List.Induction
import Mathlib.Data.List.Nodup
import OpenNXT.Data.SortedMap

/-! Trees that are kept as a heap, whose edges have labels, and walks that take edges out of the
trees they are in. -/
namespace OpenNXT.Data

/-- The order in which a map is walked, arbitrary but the same for the same keys. -/
structure MapOrder (κ : Type) where
  list : List κ → List κ
  perm : ∀ ks, (list ks).Perm ks

/-- A node is in the heap after the one it hangs from, of which there is only one. -/
structure Forest (κ : Type) [LinearOrder κ] (size : ℕ) where
  children : ℕ → SortedMap κ ℕ
  below : ∀ {r k child}, (children r).get? k = some child → r < child ∧ child < size
  single : ∀ {r k r' k' child}, (children r).get? k = some child →
    (children r').get? k' = some child → r = r' ∧ k = k'

namespace Forest
variable {κ : Type} [LinearOrder κ] {size : ℕ}

def empty : Forest κ size where
  children _ := .empty
  below h := by cases h
  single h := by cases h

section Updates
variable (children : ℕ → SortedMap κ ℕ) (r : ℕ) (k : κ)

theorem get?_update_erase (q : ℕ) (j : κ) :
    (Function.update children r ((children r).erase k) q).get? j =
      if q = r ∧ j = k then none else (children q).get? j := by
  by_cases hq : q = r
  · subst hq
    simp
  · simp [hq]

theorem get?_update_insert (child q : ℕ) (j : κ) :
    (Function.update children r ((children r).insert k child) q).get? j =
      if q = r ∧ j = k then some child else (children q).get? j := by
  by_cases hq : q = r
  · subst hq
    simp
  · simp [hq]

end Updates

section Edges
variable (t : Forest κ size) {r : ℕ} {k : κ}

theorem get?_of_erase {q child : ℕ} {j : κ}
    (h : (Function.update t.children r ((t.children r).erase k) q).get? j = some child) :
    (t.children q).get? j = some child := by
  rw [get?_update_erase] at h
  split_ifs at h
  exact h

theorem get?_of_graft {q child : ℕ} {j : κ}
    (h : (Function.update t.children r ((t.children r).insert k size) q).get? j = some child) :
    (q = r ∧ j = k ∧ child = size) ∨ (t.children q).get? j = some child := by
  rw [get?_update_insert] at h
  split_ifs at h with hqj
  · exact .inl ⟨hqj.1, hqj.2, (Option.some.inj h).symm⟩
  · exact .inr h

theorem below_graft (hr : r < size) {q child : ℕ} {j : κ}
    (h : (Function.update t.children r ((t.children r).insert k size) q).get? j = some child) :
    q < child ∧ child < size + 1 := by
  rcases t.get?_of_graft h with ⟨rfl, -, rfl⟩ | h
  · exact ⟨hr, Nat.lt_succ_self _⟩
  · have hlt := t.below h
    omega

theorem single_graft {q q' child : ℕ} {j j' : κ}
    (h : (Function.update t.children r ((t.children r).insert k size) q).get? j = some child)
    (h' : (Function.update t.children r ((t.children r).insert k size) q').get? j' = some child) :
    q = q' ∧ j = j' := by
  rcases t.get?_of_graft h with ⟨rfl, rfl, rfl⟩ | h
  · rcases t.get?_of_graft h' with ⟨rfl, rfl, -⟩ | h'
    · exact ⟨rfl, rfl⟩
    · exact absurd (t.below h').2 (lt_irrefl _)
  · rcases t.get?_of_graft h' with ⟨-, -, rfl⟩ | h'
    · exact absurd (t.below h).2 (lt_irrefl _)
    · exact t.single h h'

end Edges

/-- Take an edge out. -/
def erase (t : Forest κ size) (r : ℕ) (k : κ) : Forest κ size where
  children := Function.update t.children r ((t.children r).erase k)
  below h := t.below (t.get?_of_erase h)
  single h h' := t.single (t.get?_of_erase h) (t.get?_of_erase h')

/-- Take edges out, one after the other. -/
def without (t : Forest κ size) (edges : List (ℕ × κ)) : Forest κ size :=
  edges.foldl (fun t e => t.erase e.1 e.2) t

/-- A new node by itself. -/
def grow (t : Forest κ size) : Forest κ (size + 1) where
  children := t.children
  below h := ⟨(t.below h).1, Nat.lt_succ_of_lt (t.below h).2⟩
  single := t.single

/-- Hang a new node from another, in place of the one that had the label. -/
def graft (t : Forest κ size) (r : ℕ) (k : κ) (hr : r < size) : Forest κ (size + 1) where
  children := Function.update t.children r ((t.children r).insert k size)
  below h := t.below_graft hr h
  single h h' := t.single_graft h h'

/-- Depth first, the node itself before those below it. -/
def find (t : Forest κ size) (order : MapOrder κ) (p : ℕ → Bool) (r : ℕ) : Option ℕ :=
  if p r then some r
  else (order.list (t.children r).keys).findSome? fun k =>
    match _h : (t.children r).get? k with
    | none => none
    | some child => t.find order p child
termination_by size - r
decreasing_by
  have hlt := t.below _h
  omega

/-- The edges out of the inner part of a tree, in the order of a walk. -/
def fringe (t : Forest κ size) (order : MapOrder κ) (inner : ℕ → Bool) (r : ℕ) : List (ℕ × κ) :=
  (order.list (t.children r).keys).flatMap fun k =>
    match _h : (t.children r).get? k with
    | none => []
    | some child => if inner child then t.fringe order inner child else [(r, k)]
termination_by size - r
decreasing_by
  have hlt := t.below _h
  omega

/-- A walk through the inner part that acts at each edge out of it. Its order at a node is the one
of the edges that the node has at first, and an edge that is gone is passed over. -/
def walk {σ : Type} (forest : σ → Forest κ size) (order : MapOrder κ) (inner : ℕ → Bool)
    (act : ℕ → κ → σ → σ) (r : ℕ) (s : σ) : σ :=
  (order.list ((forest s).children r).keys).foldl (fun s k =>
    match _h : ((forest s).children r).get? k with
    | none => s
    | some child => if inner child then walk forest order inner act child s else act r k s) s
termination_by size - r
decreasing_by
  have hlt := (forest s).below _h
  omega

section Under

/-- A node of the tree of another one. -/
inductive Under (t : Forest κ size) (r : ℕ) : ℕ → Prop
  | refl : Under t r r
  | step {q k child} : Under t r q → (t.children q).get? k = some child → Under t r child

variable {t : Forest κ size} {order : MapOrder κ} {inner : ℕ → Bool} {r q : ℕ} {k : κ}

theorem Under.le (h : t.Under r q) : r ≤ q := by
  induction h with
  | refl => exact le_rfl
  | step _ hget ih =>
    have hlt := t.below hget
    omega

theorem Under.head {child : ℕ} (hget : (t.children r).get? k = some child)
    (h : t.Under child q) : t.Under r q := by
  induction h with
  | refl => exact .step .refl hget
  | step _ hget' ih => exact .step ih hget'

/-- The trees of two children have no node in common. -/
theorem Under.child_unique {k₁ k₂ : κ} {c₁ c₂ : ℕ} (h₁ : (t.children r).get? k₁ = some c₁)
    (h₂ : (t.children r).get? k₂ = some c₂) (hq₁ : t.Under c₁ q) (hq₂ : t.Under c₂ q) :
    k₁ = k₂ := by
  induction hq₁ with
  | refl =>
    cases hq₂ with
    | refl => exact (t.single h₁ h₂).2
    | step hp hget =>
      obtain ⟨rfl, -⟩ := t.single h₁ hget
      have hle := hp.le
      have hlt := t.below h₂
      omega
  | step hp₁ hget₁ ih =>
    cases hq₂ with
    | refl =>
      obtain ⟨rfl, -⟩ := t.single h₂ hget₁
      have hle := hp₁.le
      have hlt := t.below h₁
      omega
    | step hp₂ hget₂ =>
      obtain ⟨rfl, -⟩ := t.single hget₁ hget₂
      exact ih hp₂

end Under

/-- A property of trees follows from that of the trees of the children. -/
theorem induction_children (t : Forest κ size) {motive : ℕ → Prop}
    (h : ∀ r, (∀ k child, (t.children r).get? k = some child → motive child) → motive r) (r : ℕ) :
    motive r := by
  induction hn : size - r using Nat.strong_induction_on generalizing r with
  | _ n ih =>
    apply h
    intro k child hget
    have hlt := t.below hget
    exact ih (size - child) (by omega) child rfl

section Find
variable {t : Forest κ size} {order : MapOrder κ} {p : ℕ → Bool} {r q : ℕ}

/-- What is found is in the tree, and is what was looked for. -/
theorem find_some (h : t.find order p r = some q) : t.Under r q ∧ p q := by
  induction r using t.induction_children with
  | h r ih =>
    rw [find] at h
    split_ifs at h with hp
    · cases h
      exact ⟨.refl, hp⟩
    · obtain ⟨k, -, hk⟩ := List.exists_of_findSome?_eq_some h
      split at hk
      · cases hk
      · next child hget =>
        obtain ⟨hunder, hq⟩ := ih k child hget hk
        exact ⟨hunder.head hget, hq⟩

theorem find_self (h : p r = true) : t.find order p r = some r := by
  rw [find, if_pos h]

theorem find_lt (hr : r < size) (h : t.find order p r = some q) : q < size := by
  cases (find_some h).1 with
  | refl => exact hr
  | step _ hget => exact (t.below hget).2

end Find

section Without
variable {t : Forest κ size} {q : ℕ} {k : κ}

@[simp] theorem get?_erase (t : Forest κ size) (r q : ℕ) (k j : κ) :
    ((t.erase r k).children q).get? j = if q = r ∧ j = k then none else (t.children q).get? j :=
  get?_update_erase t.children r k q j

theorem without_concat (t : Forest κ size) (edges : List (ℕ × κ)) (e : ℕ × κ) :
    t.without (edges ++ [e]) = (t.without edges).erase e.1 e.2 := List.foldl_concat ..

theorem get?_without (t : Forest κ size) (edges : List (ℕ × κ)) (q : ℕ) (k : κ) :
    ((t.without edges).children q).get? k =
      if (q, k) ∈ edges then none else (t.children q).get? k := by
  induction edges using List.reverseRecOn with
  | nil => rfl
  | append_singleton edges e ih =>
    obtain ⟨r, j⟩ := e
    rw [without_concat, get?_erase, ih]
    by_cases he : q = r ∧ k = j
    · simp [he]
    · simp [he]

theorem children_without {edges : List (ℕ × κ)} (h : ∀ e ∈ edges, e.1 ≠ q) :
    (t.without edges).children q = t.children q := by
  apply SortedMap.ext_get?
  intro k
  rw [get?_without, if_neg]
  intro hmem
  exact h _ hmem rfl

end Without

section Fringe
variable {t : Forest κ size} {order : MapOrder κ} {inner : ℕ → Bool} {r q : ℕ} {k : κ}

/-- What a walk finds at one label. -/
def fringeAt (t : Forest κ size) (order : MapOrder κ) (inner : ℕ → Bool) (r : ℕ) (k : κ) :
    List (ℕ × κ) :=
  match (t.children r).get? k with
  | none => []
  | some child => if inner child then t.fringe order inner child else [(r, k)]

theorem fringe_eq (t : Forest κ size) (order : MapOrder κ) (inner : ℕ → Bool) (r : ℕ) :
    t.fringe order inner r =
      (order.list (t.children r).keys).flatMap (t.fringeAt order inner r) := by
  rw [fringe]
  congr 1
  funext k
  unfold fringeAt
  split <;> simp_all

/-- A node of the inner part of the tree of another one. -/
inductive Within (t : Forest κ size) (inner : ℕ → Bool) (r : ℕ) : ℕ → Prop
  | refl : Within t inner r r
  | step {q k child} : Within t inner r q → (t.children q).get? k = some child → inner child →
      Within t inner r child

theorem Within.under (h : t.Within inner r q) : t.Under r q := by
  induction h with
  | refl => exact .refl
  | step _ hget _ ih => exact .step ih hget

theorem Within.head {child : ℕ} (hget : (t.children r).get? k = some child) (hinner : inner child)
    (h : t.Within inner child q) : t.Within inner r q := by
  induction h with
  | refl => exact .step .refl hget hinner
  | step _ hget' hinner' ih => exact .step ih hget' hinner'

/-- The first step of the way to a node. -/
theorem Within.cases_head (h : t.Within inner r q) :
    q = r ∨ ∃ k child, (t.children r).get? k = some child ∧ inner child ∧
      t.Within inner child q := by
  induction h with
  | refl => exact .inl rfl
  | step hq hget hinner ih =>
    right
    rcases ih with rfl | ⟨k, child, hchild, hin, hwithin⟩
    · exact ⟨_, _, hget, hinner, .refl⟩
    · exact ⟨k, child, hchild, hin, .step hwithin hget hinner⟩

theorem mem_order_keys : k ∈ order.list (t.children r).keys ↔
    ∃ child, (t.children r).get? k = some child := by
  rw [(order.perm _).mem_iff, SortedMap.mem_keys]

/-- The fringe has the edges from inner nodes to others. -/
theorem mem_fringe {e : ℕ × κ} : e ∈ t.fringe order inner r ↔
    t.Within inner r e.1 ∧ ∃ child, (t.children e.1).get? e.2 = some child ∧ inner child = false := by
  induction r using t.induction_children with
  | h r ih =>
    rw [fringe_eq, List.mem_flatMap]
    constructor
    · rintro ⟨k, -, he⟩
      rw [fringeAt] at he
      cases hget : (t.children r).get? k with
      | none =>
        rw [hget] at he
        cases he
      | some child =>
        rw [hget] at he
        dsimp only at he
        split_ifs at he with hinner
        · obtain ⟨hwithin, hedge⟩ := (ih k child hget).mp he
          exact ⟨hwithin.head hget hinner, hedge⟩
        · cases List.mem_singleton.mp he
          exact ⟨.refl, child, hget, Bool.not_eq_true _ ▸ hinner⟩
    · rintro ⟨hwithin, child, hget, hinner⟩
      rcases hwithin.cases_head with heq | ⟨k, next, hnext, hin, hwithin⟩
      · obtain ⟨q, k⟩ := e
        obtain rfl : q = r := heq
        refine ⟨k, mem_order_keys.mpr ⟨child, hget⟩, ?_⟩
        rw [fringeAt, hget]
        simp [hinner]
      · refine ⟨k, mem_order_keys.mpr ⟨next, hnext⟩, ?_⟩
        rw [fringeAt, hnext]
        dsimp only
        rw [if_pos hin]
        exact (ih k next hnext).mpr ⟨hwithin, child, hget, hinner⟩

/-- What is found at a label is in the tree of its child, or is its edge. -/
theorem mem_fringeAt {e : ℕ × κ} (h : e ∈ t.fringeAt order inner r k) :
    e = (r, k) ∨ ∃ child, (t.children r).get? k = some child ∧ t.Under child e.1 := by
  rw [fringeAt] at h
  cases hget : (t.children r).get? k with
  | none =>
    rw [hget] at h
    cases h
  | some child =>
    rw [hget] at h
    dsimp only at h
    split_ifs at h
    · exact .inr ⟨child, rfl, (mem_fringe.mp h).1.under⟩
    · exact .inl (List.mem_singleton.mp h)

/-- What is found at different labels is different. -/
theorem disjoint_fringeAt {k₁ k₂ : κ} (hne : k₁ ≠ k₂) :
    List.Disjoint (t.fringeAt order inner r k₁) (t.fringeAt order inner r k₂) := by
  intro e h₁ h₂
  rcases mem_fringeAt h₁ with rfl | ⟨c₁, hc₁, hu₁⟩
  · rcases mem_fringeAt h₂ with heq | ⟨c₂, hc₂, hu₂⟩
    · exact hne (congrArg Prod.snd heq)
    · have hle := hu₂.le
      have hlt := t.below hc₂
      dsimp only at hle
      omega
  · rcases mem_fringeAt h₂ with rfl | ⟨c₂, hc₂, hu₂⟩
    · have hle := hu₁.le
      have hlt := t.below hc₁
      dsimp only at hle
      omega
    · exact hne (Under.child_unique hc₁ hc₂ hu₁ hu₂)

theorem nodup_order_keys : (order.list (t.children r).keys).Nodup :=
  (order.perm _).nodup_iff.mpr (t.children r).nodup_keys

theorem nodup_fringe (t : Forest κ size) (order : MapOrder κ) (inner : ℕ → Bool) (r : ℕ) :
    (t.fringe order inner r).Nodup := by
  induction r using t.induction_children with
  | h r ih =>
    rw [fringe_eq, List.nodup_flatMap]
    constructor
    · intro k _
      rw [fringeAt]
      cases hget : (t.children r).get? k with
      | none => exact List.nodup_nil
      | some child =>
        dsimp only
        split_ifs
        · exact ih k child hget
        · exact List.nodup_singleton _
    · exact nodup_order_keys.imp fun hne => disjoint_fringeAt hne

/-- The fringe of a tree depends on that tree. -/
theorem fringe_congr {t' : Forest κ size}
    (h : ∀ q, t.Under r q → t'.children q = t.children q) :
    t'.fringe order inner r = t.fringe order inner r := by
  induction r using t.induction_children with
  | h r ih =>
    rw [fringe_eq, fringe_eq, h r .refl]
    apply List.flatMap_congr
    intro k _
    rw [fringeAt, fringeAt, h r .refl]
    cases hget : (t.children r).get? k with
    | none => rfl
    | some child =>
      dsimp only
      rw [ih k child hget fun q hq => h q (hq.head hget)]

end Fringe

section Walk
variable {σ : Type} {forest : σ → Forest κ size} {order : MapOrder κ} {inner : ℕ → Bool}
  {act : ℕ → κ → σ → σ}

/-- What a walk does at one label. -/
def walkAt (forest : σ → Forest κ size) (order : MapOrder κ) (inner : ℕ → Bool)
    (act : ℕ → κ → σ → σ) (r : ℕ) (s : σ) (k : κ) : σ :=
  match ((forest s).children r).get? k with
  | none => s
  | some child => if inner child then walk forest order inner act child s else act r k s

theorem walk_eq (forest : σ → Forest κ size) (order : MapOrder κ) (inner : ℕ → Bool)
    (act : ℕ → κ → σ → σ) (r : ℕ) (s : σ) :
    walk forest order inner act r s =
      (order.list ((forest s).children r).keys).foldl (walkAt forest order inner act r) s := by
  rw [walk]
  congr 1
  funext s k
  unfold walkAt
  split <;> simp_all

/-- The actions of a walk, in order. -/
def acts (act : ℕ → κ → σ → σ) (edges : List (ℕ × κ)) (s : σ) : σ :=
  edges.foldl (fun s e => act e.1 e.2 s) s

/-- Each action takes out its own edge. -/
def TakesOut (forest : σ → Forest κ size) (act : ℕ → κ → σ → σ) (edges : List (ℕ × κ)) (s : σ) :
    Prop :=
  ∀ before e after, edges = before ++ e :: after →
    forest (act e.1 e.2 (acts act before s)) = (forest (acts act before s)).erase e.1 e.2

variable {s : σ} {front rest : List (ℕ × κ)}

omit [LinearOrder κ] in
theorem acts_append (act : ℕ → κ → σ → σ) (front rest : List (ℕ × κ)) (s : σ) :
    acts act (front ++ rest) s = acts act rest (acts act front s) := List.foldl_append

theorem TakesOut.of_append (h : TakesOut forest act (front ++ rest) s) :
    TakesOut forest act front s ∧ TakesOut forest act rest (acts act front s) := by
  constructor
  · rintro before e after rfl
    exact h before e (after ++ rest) (by rw [List.append_assoc, List.cons_append])
  · rintro before e after rfl
    have hrest := h (front ++ before) e after (by rw [List.append_assoc])
    rwa [acts_append] at hrest

/-- The actions take their edges out. -/
theorem TakesOut.forest_acts {edges : List (ℕ × κ)} (h : TakesOut forest act edges s) :
    forest (acts act edges s) = (forest s).without edges := by
  induction edges using List.reverseRecOn with
  | nil => rfl
  | append_singleton edges e ih =>
    rw [acts_append, without_concat, ← ih h.of_append.1]
    exact h edges e [] rfl

/-- Edges that are found at other labels leave what is found at one as it is. -/
theorem fringeAt_without {t : Forest κ size} {r : ℕ} {k : κ} {edges : List (ℕ × κ)}
    (h : ∀ e ∈ edges, ∃ j ≠ k, e ∈ t.fringeAt order inner r j) :
    ((t.without edges).children r).get? k = (t.children r).get? k ∧
      ∀ child, (t.children r).get? k = some child →
        (t.without edges).fringe order inner child = t.fringe order inner child := by
  constructor
  · rw [get?_without, if_neg]
    intro hmem
    obtain ⟨j, hne, he⟩ := h _ hmem
    rcases mem_fringeAt he with heq | ⟨c, hc, hu⟩
    · exact hne (congrArg Prod.snd heq).symm
    · have hle := hu.le
      have hlt := t.below hc
      dsimp only at hle
      omega
  · intro child hchild
    apply fringe_congr
    intro q hq
    apply children_without
    rintro e he rfl
    obtain ⟨j, hne, hej⟩ := h e he
    rcases mem_fringeAt hej with heq | ⟨c, hc, hu⟩
    · have hle := hq.le
      have hlt := t.below hchild
      rw [heq] at hle
      dsimp only at hle
      omega
    · exact hne (Under.child_unique hc hchild hu hq)

/-- Where each action takes out its own edge, a walk acts at every edge out of the inner part. -/
theorem walk_eq_acts {r : ℕ} (h : TakesOut forest act ((forest s).fringe order inner r) s) :
    walk forest order inner act r s = acts act ((forest s).fringe order inner r) s := by
  induction hn : size - r using Nat.strong_induction_on generalizing r s with
  | _ n ih =>
    rw [walk_eq, fringe_eq]
    rw [fringe_eq] at h
    suffices hloop : ∀ todo done, order.list ((forest s).children r).keys = done ++ todo →
        todo.foldl (walkAt forest order inner act r)
          (acts act (done.flatMap ((forest s).fringeAt order inner r)) s) =
        acts act ((done ++ todo).flatMap ((forest s).fringeAt order inner r)) s from
      hloop _ [] rfl
    intro todo
    induction todo with
    | nil =>
      intro done _
      rw [List.append_nil]
      rfl
    | cons k todo ihtodo =>
      intro done hsplit
      rw [hsplit, List.flatMap_append] at h
      obtain ⟨hdone, htodo⟩ := h.of_append
      rw [List.flatMap_cons] at htodo
      obtain ⟨hk, -⟩ := htodo.of_append
      have hnodup : (done ++ k :: todo).Nodup := hsplit ▸ nodup_order_keys
      have hfresh : k ∉ done := fun hmem =>
        List.disjoint_of_nodup_append hnodup hmem List.mem_cons_self
      have hothers : ∀ e ∈ done.flatMap ((forest s).fringeAt order inner r),
          ∃ j ≠ k, e ∈ (forest s).fringeAt order inner r j := by
        intro e he
        obtain ⟨j, hj, hej⟩ := List.mem_flatMap.mp he
        exact ⟨j, fun heq => hfresh (heq ▸ hj), hej⟩
      obtain ⟨hget, hfringe⟩ := fringeAt_without hothers
      rw [← hdone.forest_acts] at hget hfringe
      have hstep : walkAt forest order inner act r
          (acts act (done.flatMap ((forest s).fringeAt order inner r)) s) k =
          acts act ((forest s).fringeAt order inner r k)
            (acts act (done.flatMap ((forest s).fringeAt order inner r)) s) := by
        rw [fringeAt] at hk ⊢
        rw [walkAt, hget]
        cases hchild : ((forest s).children r).get? k with
        | none => rfl
        | some child =>
          rw [hchild] at hk
          dsimp only at hk ⊢
          split_ifs at hk ⊢
          · have hlt := (forest s).below hchild
            rw [← hfringe child hchild] at hk ⊢
            exact ih (size - child) (by omega) hk rfl
          · rfl
      rw [List.foldl_cons, hstep, ← acts_append]
      have hrest := ihtodo (done ++ [k]) (by rw [hsplit, List.append_assoc]; rfl)
      rw [List.flatMap_append, List.flatMap_singleton, List.append_assoc] at hrest
      exact hrest

end Walk

end Forest

end OpenNXT.Data
