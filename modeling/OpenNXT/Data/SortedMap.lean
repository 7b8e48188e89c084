import Mathlib.Data.List.Basic
import Mathlib.Order.Lattice

/-! Finite maps kept as key-sorted entry lists. Two maps with the same entries are equal. -/
namespace OpenNXT.Data

structure SortedMap (κ β : Type) [LinearOrder κ] where
  entries : List (κ × β)
  sorted : entries.Pairwise (fun a b => a.1 < b.1)

namespace SortedMap
variable {κ β γ : Type} [LinearOrder κ]

@[ext] theorem ext {m n : SortedMap κ β} (h : m.entries = n.entries) : m = n := by
  cases m; cases n; cases h; rfl

def empty : SortedMap κ β := ⟨[], List.Pairwise.nil⟩

def keys (m : SortedMap κ β) : List κ := m.entries.map Prod.fst

def values (m : SortedMap κ β) : List β := m.entries.map Prod.snd

def size (m : SortedMap κ β) : ℕ := m.entries.length

private def lookupEntry (k : κ) : List (κ × β) → Option β
  | [] => none
  | e :: es => if k = e.1 then some e.2 else lookupEntry k es

/-- The value stored under a key. -/
def get? (m : SortedMap κ β) (k : κ) : Option β := lookupEntry k m.entries

private def insertEntry (k : κ) (v : β) : List (κ × β) → List (κ × β)
  | [] => [(k, v)]
  | e :: es =>
    if k < e.1 then (k, v) :: e :: es
    else if k = e.1 then (k, v) :: es
    else e :: insertEntry k v es

private theorem mem_insertEntry {k : κ} {v : β} {e : κ × β} {es : List (κ × β)}
    (h : e ∈ insertEntry k v es) : e = (k, v) ∨ e ∈ es := by
  induction es with
  | nil => simpa [insertEntry] using h
  | cons d ds ih =>
    rw [insertEntry] at h
    split_ifs at h with h1 h2
    · simpa using h
    · rcases List.mem_cons.mp h with h | h
      · exact Or.inl h
      · exact Or.inr (List.mem_cons_of_mem _ h)
    · rcases List.mem_cons.mp h with h | h
      · exact Or.inr (h ▸ List.mem_cons_self)
      · exact (ih h).imp_right (List.mem_cons_of_mem _)

private theorem sorted_insertEntry (k : κ) (v : β) {es : List (κ × β)}
    (h : es.Pairwise (fun a b => a.1 < b.1)) :
    (insertEntry k v es).Pairwise (fun a b => a.1 < b.1) := by
  induction es with
  | nil => exact List.pairwise_singleton _ _
  | cons d ds ih =>
    obtain ⟨hd, hs⟩ := List.pairwise_cons.mp h
    rw [insertEntry]
    split_ifs with h1 h2
    · refine List.pairwise_cons.mpr ⟨fun e he => ?_, h⟩
      rcases List.mem_cons.mp he with rfl | he
      · exact h1
      · exact h1.trans (hd e he)
    · subst h2
      exact List.pairwise_cons.mpr ⟨hd, hs⟩
    · refine List.pairwise_cons.mpr ⟨fun e he => ?_, ih hs⟩
      rcases mem_insertEntry he with rfl | he
      · exact lt_of_le_of_ne (not_lt.mp h1) (Ne.symm h2)
      · exact hd e he

/-- Bind a key, replacing the value it had. -/
def insert (m : SortedMap κ β) (k : κ) (v : β) : SortedMap κ β :=
  ⟨insertEntry k v m.entries, sorted_insertEntry k v m.sorted⟩

/-- Rebuild every value, keeping the keys. -/
def map (f : κ → β → γ) (m : SortedMap κ β) : SortedMap κ γ where
  entries := m.entries.map (fun e => (e.1, f e.1 e.2))
  sorted := List.pairwise_map.mpr m.sorted

/-- Update the value of one key; an absent key changes nothing. -/
def modify (m : SortedMap κ β) (k : κ) (f : β → β) : SortedMap κ β :=
  m.map (fun j v => if j = k then f v else v)

/-- Unbind a key. -/
def erase (m : SortedMap κ β) (k : κ) : SortedMap κ β :=
  ⟨m.entries.filter (fun e => e.1 ≠ k), m.sorted.filter _⟩

def isEmpty (m : SortedMap κ β) : Bool := m.entries.isEmpty

/-- The last key; `none` is a map that is empty. -/
def lastKey (m : SortedMap κ β) : Option κ := m.keys.getLast?

section Lookup

private theorem lookupEntry_eq_some {k : κ} {v : β} {es : List (κ × β)}
    (h : es.Pairwise (fun a b => a.1 < b.1)) : lookupEntry k es = some v ↔ (k, v) ∈ es := by
  induction es with
  | nil => simp [lookupEntry]
  | cons d ds ih =>
    obtain ⟨hd, hs⟩ := List.pairwise_cons.mp h
    rw [lookupEntry]
    split_ifs with hk
    · constructor
      · rintro ⟨⟩
        exact hk ▸ List.mem_cons_self
      · intro hm
        rcases List.mem_cons.mp hm with rfl | hm
        · rfl
        · exact absurd hk (hd _ hm).ne'
    · have hne : (k, v) ≠ d := fun he => hk (congrArg Prod.fst he)
      simp [ih hs, hne]

theorem get?_eq_some {m : SortedMap κ β} {k : κ} {v : β} :
    m.get? k = some v ↔ (k, v) ∈ m.entries := lookupEntry_eq_some m.sorted

theorem mem_keys {m : SortedMap κ β} {k : κ} : k ∈ m.keys ↔ ∃ v, m.get? k = some v := by
  simp [keys, get?_eq_some]

theorem get?_eq_none {m : SortedMap κ β} {k : κ} : m.get? k = none ↔ k ∉ m.keys := by
  rw [mem_keys, Option.eq_none_iff_forall_ne_some]
  simp

@[simp] theorem get?_empty (k : κ) : (empty : SortedMap κ β).get? k = none := rfl

private theorem lookupEntry_insertEntry (k j : κ) (v : β) (es : List (κ × β)) :
    lookupEntry j (insertEntry k v es) = if j = k then some v else lookupEntry j es := by
  induction es with
  | nil => rfl
  | cons d ds ih =>
    rw [insertEntry]
    split_ifs with h1 h2 h3 h4 h5 <;> simp_all [lookupEntry]

@[simp] theorem get?_insert (m : SortedMap κ β) (k j : κ) (v : β) :
    (m.insert k v).get? j = if j = k then some v else m.get? j :=
  lookupEntry_insertEntry k j v m.entries

@[simp] theorem get?_erase (m : SortedMap κ β) (k j : κ) :
    (m.erase k).get? j = if j = k then none else m.get? j := by
  split_ifs with h
  · rw [Option.eq_none_iff_forall_ne_some]
    intro v hv
    have hmem := get?_eq_some.mp hv
    simp [erase, h] at hmem
  · refine Option.ext fun v => ?_
    rw [get?_eq_some, get?_eq_some]
    simp [erase, h]

theorem isEmpty_iff {m : SortedMap κ β} : m.isEmpty ↔ ∀ k, m.get? k = none := by
  constructor
  · intro h k
    have hnil : m.entries = [] := by simpa [isEmpty] using h
    rw [get?, hnil]
    rfl
  · intro h
    cases hm : m.entries with
    | nil => simp [isEmpty, hm]
    | cons e es =>
      have hget : m.get? e.1 = some e.2 := by
        rw [get?_eq_some, hm]
        exact List.mem_cons_self
      rw [h] at hget
      cases hget

private theorem lookupEntry_map (f : κ → β → γ) (j : κ) (es : List (κ × β)) :
    lookupEntry j (es.map (fun e => (e.1, f e.1 e.2))) = (lookupEntry j es).map (f j) := by
  induction es with
  | nil => rfl
  | cons d ds ih =>
    simp only [List.map_cons, lookupEntry, ih]
    split_ifs with h
    · rw [h]; rfl
    · rfl

@[simp] theorem get?_map (f : κ → β → γ) (m : SortedMap κ β) (j : κ) :
    (m.map f).get? j = (m.get? j).map (f j) := lookupEntry_map f j m.entries

@[simp] theorem get?_modify (m : SortedMap κ β) (k j : κ) (f : β → β) :
    (m.modify k f).get? j = if j = k then (m.get? j).map f else m.get? j := by
  rw [modify, get?_map]
  split_ifs with h
  · rfl
  · cases m.get? j <;> rfl

/-- Lookups determine a map. -/
theorem ext_get? {m n : SortedMap κ β} (h : ∀ k, m.get? k = n.get? k) : m = n := by
  have hperm : ∀ e, e ∈ m.entries ↔ e ∈ n.entries := fun e => by
    rw [← get?_eq_some, ← get?_eq_some, h]
  refine ext (List.Perm.eq_of_pairwise (fun a b _ _ hab hba => absurd hab hba.not_gt)
    m.sorted n.sorted ?_)
  exact (List.perm_ext_iff_of_nodup (m.sorted.imp fun h he => h.ne (congrArg Prod.fst he))
    (n.sorted.imp fun h he => h.ne (congrArg Prod.fst he))).mpr hperm

end Lookup

section Keys

@[simp] theorem keys_map (f : κ → β → γ) (m : SortedMap κ β) : (m.map f).keys = m.keys := by
  simp [keys, map]

@[simp] theorem keys_modify (m : SortedMap κ β) (k : κ) (f : β → β) :
    (m.modify k f).keys = m.keys := keys_map _ _

@[simp] theorem length_keys (m : SortedMap κ β) : m.keys.length = m.size := by simp [keys, size]

@[simp] theorem size_map (f : κ → β → γ) (m : SortedMap κ β) : (m.map f).size = m.size := by
  simp [size, map]

theorem sorted_keys (m : SortedMap κ β) : m.keys.Pairwise (· < ·) :=
  List.pairwise_map.mpr m.sorted

theorem nodup_keys (m : SortedMap κ β) : m.keys.Nodup := m.sorted_keys.imp fun h => h.ne

theorem mem_keys_insert {m : SortedMap κ β} {k j : κ} {v : β} :
    j ∈ (m.insert k v).keys ↔ j = k ∨ j ∈ m.keys := by
  simp only [mem_keys, get?_insert]
  split_ifs with h <;> simp [h]

theorem lastKey_eq_some {m : SortedMap κ β} {k : κ} (h : m.lastKey = some k) :
    k ∈ m.keys ∧ ∀ j ∈ m.keys, j ≤ k := by
  obtain ⟨front, hfront⟩ := List.getLast?_eq_some_iff.mp h
  have hsorted := m.sorted_keys
  rw [hfront, List.pairwise_append] at hsorted
  rw [hfront]
  refine ⟨List.mem_append_right _ List.mem_cons_self, fun j hj => ?_⟩
  rcases List.mem_append.mp hj with hj | hj
  · exact (hsorted.2.2 j hj k List.mem_cons_self).le
  · exact (List.mem_singleton.mp hj).le

theorem lastKey_eq_none {m : SortedMap κ β} : m.lastKey = none ↔ m.keys = [] :=
  List.getLast?_eq_none_iff

/-- Binding a key that is there changes its value. -/
theorem insert_eq_modify {m : SortedMap κ β} {k : κ} (h : k ∈ m.keys) (v : β) :
    m.insert k v = m.modify k fun _ => v := by
  obtain ⟨w, hw⟩ := mem_keys.mp h
  refine ext_get? fun j => ?_
  rw [get?_insert, get?_modify]
  split_ifs with hj
  · rw [hj, hw, Option.map_some]
  · rfl

theorem keys_insert_of_mem {m : SortedMap κ β} {k : κ} (h : k ∈ m.keys) (v : β) :
    (m.insert k v).keys = m.keys := by
  rw [insert_eq_modify h, keys_modify]

theorem mem_values {m : SortedMap κ β} {v : β} : v ∈ m.values ↔ ∃ k, m.get? k = some v := by
  simp [values, get?_eq_some]

theorem get?_foldl_insert (f : κ → β) (ks : List κ) (n : SortedMap κ β) (j : κ) :
    (ks.foldl (fun n k => n.insert k (f k)) n).get? j =
      if j ∈ ks then some (f j) else n.get? j := by
  induction ks generalizing n with
  | nil => simp
  | cons k ks ih =>
    rw [List.foldl_cons, ih, get?_insert]
    by_cases hk : j = k <;> by_cases hm : j ∈ ks <;> simp [hk, hm]

/-- Inserting the keys of a map one after the other rebuilds its key set. -/
theorem foldl_insert_keys (f : κ → γ) (m : SortedMap κ β) :
    m.keys.foldl (fun n k => n.insert k (f k)) empty = m.map (fun k _ => f k) := by
  refine ext_get? fun j => ?_
  rw [get?_foldl_insert, get?_map]
  split_ifs with h
  · obtain ⟨v, hv⟩ := mem_keys.mp h
    rw [hv, Option.map_some]
  · rw [get?_eq_none.mpr h, get?_empty, Option.map_none]

theorem get?_foldl_insert_entries {es : List (κ × β)} (hnodup : (es.map Prod.fst).Nodup)
    (n : SortedMap κ β) (j : κ) (v : β) : (es.foldl (fun n e => n.insert e.1 e.2) n).get? j = some v ↔
      (j, v) ∈ es ∨ j ∉ es.map Prod.fst ∧ n.get? j = some v := by
  induction es generalizing n with
  | nil => simp
  | cons e es ih =>
    obtain ⟨hnotMem, hnodup⟩ := List.nodup_cons.mp hnodup
    rw [List.foldl_cons, ih hnodup, get?_insert]
    have hmem : (j, v) ∈ es → j ≠ e.1 := by
      rintro hv rfl
      exact hnotMem (List.mem_map.mpr ⟨(e.1, v), hv, rfl⟩)
    by_cases hj : j = e.1
    · subst hj
      have hpair : (e.1, v) = e ↔ e.2 = v := by
        rw [Prod.ext_iff]
        simp [eq_comm]
      simp only [if_true, Option.some.injEq, List.mem_cons, hpair, List.map_cons, hnotMem,
        not_false_iff, true_and, not_true_eq_false, false_and, or_false]
      exact or_comm
    · have hpair : (j, v) ≠ e := fun h => hj (congrArg Prod.fst h)
      simp [hj, hpair]

/-- A map is rebuilt from its entries, whatever their order. -/
theorem foldl_insert_perm {es : List (κ × β)} {m : SortedMap κ β} (h : es.Perm m.entries) :
    es.foldl (fun n e => n.insert e.1 e.2) empty = m := by
  have hnodup : (es.map Prod.fst).Nodup := (h.map Prod.fst).nodup_iff.mpr m.nodup_keys
  refine ext_get? fun j => Option.ext fun v => ?_
  rw [get?_foldl_insert_entries hnodup, get?_empty, h.mem_iff, get?_eq_some]
  simp

private theorem get?_foldl_modify (f : κ → β → γ → γ) (es : List (κ × β))
    (hs : es.Pairwise (fun a b => a.1 < b.1)) (n : SortedMap κ γ) (j : κ) :
    (es.foldl (fun n e => n.modify e.1 (f e.1 e.2)) n).get? j =
      match lookupEntry j es with
      | some v => (n.get? j).map (f j v)
      | none => n.get? j := by
  induction es generalizing n with
  | nil => rfl
  | cons d ds ih =>
    obtain ⟨hd, hs⟩ := List.pairwise_cons.mp hs
    rw [List.foldl_cons, ih hs, get?_modify, lookupEntry]
    split_ifs with hj
    · have hn : lookupEntry j ds = none := by
        rw [Option.eq_none_iff_forall_ne_some]
        intro v hv
        exact (hd _ ((lookupEntry_eq_some hs).mp hv)).ne hj.symm
      rw [hn, hj]
    · rfl

/-- Updating every key in turn, each with a value of another map, is a pointwise map. -/
theorem foldl_modify_entries (f : κ → β → γ → γ) (g : κ → β → γ) (m : SortedMap κ β) :
    m.entries.foldl (fun n e => n.modify e.1 (f e.1 e.2)) (m.map g) =
      m.map (fun k v => f k v (g k v)) := by
  refine ext_get? fun j => ?_
  rw [get?_foldl_modify f _ m.sorted, get?_map, get?_map]
  change (match m.get? j with | some v => _ | none => _) = _
  cases m.get? j <;> rfl

theorem modify_modify (m : SortedMap κ β) (k : κ) (f g : β → β) :
    (m.modify k f).modify k g = m.modify k (fun v => g (f v)) := by
  refine ext_get? fun j => ?_
  by_cases h : j = k <;> simp [h, Function.comp_def]

theorem modify_id (m : SortedMap κ β) (k : κ) : m.modify k (fun v => v) = m := by
  refine ext_get? fun j => ?_
  by_cases h : j = k <;> simp [h]

@[simp] theorem map_map {δ : Type} (f : κ → β → γ) (g : κ → γ → δ) (m : SortedMap κ β) :
    (m.map f).map g = m.map (fun k v => g k (f k v)) :=
  ext_get? fun j => by cases h : m.get? j <;> simp [h]

theorem map_congr {f g : κ → β → γ} {m : SortedMap κ β}
    (h : ∀ k, ∀ v ∈ m.values, f k v = g k v) : m.map f = m.map g := by
  refine ext (List.map_congr_left fun e he => ?_)
  rw [h e.1 e.2 (List.mem_map_of_mem he)]

end Keys

end SortedMap

end OpenNXT.Data
