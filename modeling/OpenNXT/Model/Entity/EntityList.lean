import Mathlib.Algebra.Order.Ring.Int
import Mathlib.Data.List.Perm.Basic
import Mathlib.Logic.Function.Basic

/-! Entities in numbered slots. -/
namespace OpenNXT.Model

/-- The `index` fields of the entities are kept with the list, the only one to write them. -/
structure EntityList (T : Type) (capacity : ℕ) where
  values : ℕ → Option T := fun _ => none
  size : ℕ := 0
  index : T → ℤ := fun _ => -1

inductive EntityListError
  /-- "Entity is in the wrong spot in EntityList. This should never happen." -/
  | wrongSpot
  /-- An index beyond the capacity. -/
  | outOfBounds

namespace EntityList
variable {T : Type} {capacity : ℕ}

def isFull (l : EntityList T capacity) : Bool := l.size == capacity

/-- The lowest free slot; an index is one more than its slot. -/
def add [DecidableEq T] (l : EntityList T capacity) (entity : T) : Bool × EntityList T capacity :=
  if l.isFull then (false, l)
  else
    match (List.range capacity).find? fun i => (l.values i).isNone with
    | none => (false, l)
    | some i => (true, { l with
        values := Function.update l.values i (some entity)
        index := Function.update l.index entity (i + 1)
        size := l.size + 1 })

def removeAt [DecidableEq T] (l : EntityList T capacity) (index : ℤ) :
    Except EntityListError (EntityList T capacity) :=
  if index < 0 then .ok l
  else if capacity ≤ index then .error .outOfBounds
  else
    match l.values index.toNat with
    | none => .ok l
    | some current =>
      if l.index current - 1 ≠ index then .error .wrongSpot
      else .ok { l with
        values := Function.update l.values index.toNat none
        index := Function.update l.index current (-1)
        size := l.size - 1 }

def remove [DecidableEq T] (l : EntityList T capacity) (entity : T) :
    Except EntityListError (EntityList T capacity) :=
  l.removeAt (l.index entity - 1)

def get (l : EntityList T capacity) (index : ℤ) : Option T :=
  if index < 1 || index > capacity then none else l.values (index - 1).toNat

/-- The list holds just these entities, each one where its index says. -/
structure Holds (l : EntityList T capacity) (entities : List T) : Prop where
  nodup : entities.Nodup
  slot : ∀ e ∈ entities, ∃ i < capacity, l.values i = some e ∧ l.index e = i + 1
  value : ∀ i e, l.values i = some e → i < capacity ∧ e ∈ entities ∧ l.index e = i + 1
  index : ∀ e, e ∉ entities → l.index e = -1

theorem holds_nil : ({} : EntityList T capacity).Holds [] where
  nodup := List.nodup_nil
  slot := by simp
  value := by simp
  index := by simp

variable {l : EntityList T capacity} {entities : List T}

theorem Holds.of_perm {entities' : List T} (h : l.Holds entities) (hp : entities.Perm entities') :
    l.Holds entities' where
  nodup := hp.nodup_iff.mp h.nodup
  slot := fun e he => h.slot e (hp.mem_iff.mpr he)
  value := by
    intro i e hi
    obtain ⟨hlt, he, hindex⟩ := h.value i e hi
    exact ⟨hlt, hp.mem_iff.mp he, hindex⟩
  index := fun e he => h.index e fun h' => he (hp.mem_iff.mp h')

theorem Holds.get (hl : l.Holds entities) (index : ℤ) :
    l.get index = none ∨ ∃ e ∈ entities, l.get index = some e := by
  rw [EntityList.get]
  split
  · exact .inl rfl
  · cases hvalue : l.values (index - 1).toNat with
    | none => exact .inl rfl
    | some e => exact .inr ⟨e, (hl.value _ e hvalue).2.1, rfl⟩

variable [DecidableEq T] {entity : T}

/-- A list that takes no entity is as before. -/
theorem add_eq_of_false (h : (l.add entity).1 = false) : (l.add entity).2 = l := by
  rw [add] at h ⊢
  split_ifs with hfull
  · rfl
  · rw [if_neg hfull] at h
    split at h
    next => rfl
    next => cases h

theorem Holds.add (hl : l.Holds entities) (hnew : entity ∉ entities)
    (h : (l.add entity).1 = true) : (l.add entity).2.Holds (entity :: entities) := by
  rw [EntityList.add] at h ⊢
  split_ifs with hfull
  · rw [if_pos hfull] at h
    cases h
  · rw [if_neg hfull] at h
    split at h
    next => cases h
    next i hfind =>
      have hfree : l.values i = none := by simpa using List.find?_some hfind
      have hlt : i < capacity := List.mem_range.mp (List.mem_of_find?_eq_some hfind)
      have hother {e : T} (he : e ∈ entities) : e ≠ entity := ne_of_mem_of_not_mem he hnew
      constructor
      · exact List.nodup_cons.mpr ⟨hnew, hl.nodup⟩
      · intro e he
        obtain rfl | he := List.mem_cons.mp he
        · exact ⟨i, hlt, Function.update_self .., Function.update_self ..⟩
        · obtain ⟨j, hj, hvalue, hindex⟩ := hl.slot e he
          have hne : j ≠ i := by
            intro hji
            rw [hji, hfree] at hvalue
            cases hvalue
          refine ⟨j, hj, ?_, ?_⟩
          · exact (Function.update_of_ne hne ..).trans hvalue
          · exact (Function.update_of_ne (hother he) ..).trans hindex
      · intro j e hj
        by_cases hji : j = i
        · rw [hji] at hj ⊢
          obtain rfl : entity = e := by simpa using hj
          exact ⟨hlt, List.mem_cons_self .., Function.update_self ..⟩
        · have hj : l.values j = some e := by simpa [Function.update_of_ne hji] using hj
          obtain ⟨hcap, he, hindex⟩ := hl.value j e hj
          exact ⟨hcap, List.mem_cons_of_mem _ he,
            (Function.update_of_ne (hother he) ..).trans hindex⟩
      · intro e he
        have hne : e ≠ entity := fun heq => he (heq ▸ List.mem_cons_self ..)
        exact (Function.update_of_ne hne ..).trans
          (hl.index e fun h => he (List.mem_cons_of_mem _ h))

theorem Holds.remove_of_notMem (hl : l.Holds entities) (he : entity ∉ entities) :
    l.remove entity = .ok l := by
  rw [remove, hl.index entity he, removeAt, if_pos (by omega)]

theorem Holds.remove (hl : l.Holds entities) (he : entity ∈ entities) :
    ∃ l', l.remove entity = .ok l' ∧ l'.Holds (entities.erase entity) := by
  obtain ⟨i, hlt, hvalue, hindex⟩ := hl.slot entity he
  have hi : l.index entity - 1 = i := by omega
  rw [EntityList.remove, hi, removeAt, if_neg (by omega), if_neg (by omega), Int.toNat_natCast,
    hvalue]
  dsimp only
  rw [if_neg (by omega)]
  refine ⟨_, rfl, ?_⟩
  have hmem {e : T} : e ∈ entities.erase entity ↔ e ≠ entity ∧ e ∈ entities :=
    hl.nodup.mem_erase_iff
  constructor
  · exact hl.nodup.erase entity
  · intro e he
    obtain ⟨hne, he⟩ := hmem.mp he
    obtain ⟨j, hj, hvalue', hindex'⟩ := hl.slot e he
    have hji : j ≠ i := by
      intro hji
      rw [hji, hvalue] at hvalue'
      exact hne (Option.some.inj hvalue').symm
    exact ⟨j, hj, (Function.update_of_ne hji ..).trans hvalue',
      (Function.update_of_ne hne ..).trans hindex'⟩
  · intro j e hj
    by_cases hji : j = i
    · rw [hji] at hj
      simp at hj
    · have hj : l.values j = some e := by simpa [Function.update_of_ne hji] using hj
      obtain ⟨hcap, he, hindex'⟩ := hl.value j e hj
      have hne : e ≠ entity := by
        intro heq
        rw [heq, hindex] at hindex'
        omega
      exact ⟨hcap, hmem.mpr ⟨hne, he⟩, (Function.update_of_ne hne ..).trans hindex'⟩
  · intro e he
    by_cases heq : e = entity
    · rw [heq]
      exact Function.update_self ..
    · exact (Function.update_of_ne heq ..).trans (hl.index e fun h => he (hmem.mpr ⟨heq, h⟩))

end EntityList
end OpenNXT.Model
