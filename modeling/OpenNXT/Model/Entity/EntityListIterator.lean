import Mathlib.Data.Finset.Card
import OpenNXT.Model.Entity.EntityList

/-! Iterators over a list of entities, which changes as they go on. -/
namespace OpenNXT.Model

namespace EntityList
variable {T : Type} {capacity : ℕ}

/-- `next()`, and the index of the iterator after it. `none` is a `NoSuchElementException`. -/
def nextFrom (l : EntityList T capacity) (index : ℕ) : Option T × ℕ :=
  if index ≤ capacity then
    match l.get (index + 1) with
    | some current => (some current, index + 1)
    | none => nextFrom l (index + 1)
  else (none, index)
termination_by capacity + 1 - index

/-- The entity stands in some slot. -/
def Contains (l : EntityList T capacity) (entity : T) : Prop := ∃ i, l.values i = some entity

def occupied (l : EntityList T capacity) : Finset ℕ :=
  (Finset.range capacity).filter fun i => (l.values i).isSome

/-- Every entity stands where its index says, and they are counted. -/
structure Numbered (l : EntityList T capacity) : Prop where
  holds : ∃ entities, l.Holds entities
  size : l.size = l.occupied.card

section Lists
variable {l : EntityList T capacity}

theorem mem_occupied {i : ℕ} : i ∈ l.occupied ↔ i < capacity ∧ (l.values i).isSome := by
  rw [occupied, Finset.mem_filter, Finset.mem_range]

theorem Numbered.value (hl : l.Numbered) {i : ℕ} {e : T} (h : l.values i = some e) :
    i < capacity ∧ l.index e = i + 1 := by
  obtain ⟨entities, hold⟩ := hl.holds
  obtain ⟨hlt, -, hindex⟩ := hold.value i e h
  exact ⟨hlt, hindex⟩

/-- A list is full just where every slot is occupied. -/
theorem Numbered.isFull_iff (hl : l.Numbered) :
    l.isFull = true ↔ ∀ i < capacity, (l.values i).isSome := by
  have hsub : l.occupied ⊆ Finset.range capacity := Finset.filter_subset _ _
  have hcard : l.isFull = true ↔ l.occupied.card = (Finset.range capacity).card := by
    rw [isFull, beq_iff_eq, hl.size, Finset.card_range]
  rw [hcard]
  constructor
  · intro h i hi
    have heq := Finset.eq_of_subset_of_card_le hsub h.ge
    have hmem : i ∈ l.occupied := by
      rw [heq]
      exact Finset.mem_range.mpr hi
    exact (mem_occupied.mp hmem).2
  · intro h
    apply congrArg
    apply Finset.Subset.antisymm hsub
    intro i hi
    have hlt := Finset.mem_range.mp hi
    exact mem_occupied.mpr ⟨hlt, h i hlt⟩

variable [DecidableEq T]

/-- The list with an entity in a free slot. -/
def put (l : EntityList T capacity) (i : ℕ) (entity : T) : EntityList T capacity where
  values := Function.update l.values i (some entity)
  index := Function.update l.index entity (i + 1)
  size := l.size + 1

/-- The list with a slot free again. -/
def clear (l : EntityList T capacity) (i : ℕ) (entity : T) : EntityList T capacity where
  values := Function.update l.values i none
  index := Function.update l.index entity (-1)
  size := l.size - 1

/-- An entity is added in the lowest free slot, unless all are occupied. -/
theorem Numbered.add_cases (hl : l.Numbered) (entity : T) :
    (l.add entity = (false, l) ∧ ∀ i < capacity, (l.values i).isSome) ∨
    ∃ i < capacity, l.values i = none ∧ (∀ j < i, (l.values j).isSome) ∧
      l.add entity = (true, l.put i entity) := by
  have hfull := hl.isFull_iff
  rw [add]
  split_ifs with h
  · exact .inl ⟨rfl, hfull.mp h⟩
  · right
    cases hfind : (List.range capacity).find? fun i => (l.values i).isNone with
    | none =>
      refine absurd (hfull.mpr fun i hi => ?_) h
      have hnot := List.find?_eq_none.mp hfind i (List.mem_range.mpr hi)
      rw [Option.isNone_iff_eq_none] at hnot
      exact Option.isSome_iff_ne_none.mpr hnot
    | some i =>
      obtain ⟨hnone, hmem, hlow⟩ := List.find?_range_eq_some.mp hfind
      refine ⟨i, List.mem_range.mp hmem, Option.isNone_iff_eq_none.mp hnone, ?_, rfl⟩
      intro j hj
      simpa using hlow j hj

theorem Numbered.add (hl : l.Numbered) {entity : T} (hnew : ¬ l.Contains entity) :
    (l.add entity).2.Numbered := by
  rcases hl.add_cases entity with ⟨hadd, -⟩ | ⟨i, hi, hfree, -, hadd⟩
  · rw [hadd]
    exact hl
  · obtain ⟨entities, hold⟩ := hl.holds
    have hmem : entity ∉ entities := by
      intro he
      obtain ⟨j, -, hj, -⟩ := hold.slot entity he
      exact hnew ⟨j, hj⟩
    have hnot : i ∉ l.occupied := by
      rw [mem_occupied, hfree]
      simp
    have hput : (l.put i entity).occupied = insert i l.occupied := by
      ext j
      rw [Finset.mem_insert, mem_occupied, mem_occupied]
      by_cases hji : j = i
      · subst hji
        simp [put, hi]
      · simp [put, hji]
    refine ⟨⟨entity :: entities, hold.add hmem (by rw [hadd])⟩, ?_⟩
    rw [hadd, hput, Finset.card_insert_of_notMem hnot, ← hl.size]
    rfl

/-- A removal does nothing, or clears a slot in which an entity stands. Beyond the capacity it
throws. -/
theorem Numbered.removeAt_cases (hl : l.Numbered) (index : ℤ) :
    (l.removeAt index = .ok l ∧ ∀ i : ℕ, (i : ℤ) = index → l.values i = none) ∨
    ((capacity : ℤ) ≤ index ∧ l.removeAt index = .error .outOfBounds) ∨
    ∃ (i : ℕ) (e : T), (i : ℤ) = index ∧ l.values i = some e ∧
      l.removeAt index = .ok (l.clear i e) := by
  rw [removeAt]
  split_ifs with hneg hcap
  · left
    refine ⟨rfl, ?_⟩
    intro i hi
    omega
  · exact .inr (.inl ⟨hcap, rfl⟩)
  · have hnat : (index.toNat : ℤ) = index := Int.toNat_of_nonneg (by omega)
    cases hvalue : l.values index.toNat with
    | none =>
      left
      refine ⟨rfl, ?_⟩
      intro i hi
      rw [show i = index.toNat by omega]
      exact hvalue
    | some e =>
      have hindex := (hl.value hvalue).2
      refine .inr (.inr ⟨index.toNat, e, hnat, hvalue, ?_⟩)
      dsimp only
      rw [if_neg (by omega)]
      rfl

theorem Numbered.clear (hl : l.Numbered) {i : ℕ} {e : T} (h : l.values i = some e) :
    (l.clear i e).Numbered := by
  obtain ⟨hlt, hindex⟩ := hl.value h
  obtain ⟨entities, hold⟩ := hl.holds
  obtain ⟨-, he, -⟩ := hold.value i e h
  obtain ⟨l', hremove, hold'⟩ := hold.remove he
  have hl' : l' = l.clear i e := by
    rw [remove, hindex, show (i : ℤ) + 1 - 1 = i by omega] at hremove
    rcases hl.removeAt_cases i with ⟨-, hnone⟩ | ⟨hcap, -⟩ | ⟨j, e', hj, hj', hok⟩
    · rw [hnone i rfl] at h
      cases h
    · omega
    · rw [show j = i by omega, h] at hj'
      cases hj'
      rw [show i = j by omega]
      rw [hok] at hremove
      exact (Except.ok.inj hremove).symm
  have hmem : i ∈ l.occupied := mem_occupied.mpr ⟨hlt, by rw [h]; rfl⟩
  have hclear : (l.clear i e).occupied = l.occupied.erase i := by
    ext j
    rw [Finset.mem_erase, mem_occupied, mem_occupied]
    by_cases hji : j = i
    · subst hji
      simp [EntityList.clear]
    · simp [EntityList.clear, hji]
  refine ⟨⟨_, hl' ▸ hold'⟩, ?_⟩
  rw [hclear, Finset.card_erase_of_mem hmem, ← hl.size]
  rfl

end Lists

section Scans
variable {l : EntityList T capacity}

end Scans

end EntityList

/-- A list with an iterator over it, and what that has yielded, each entity with the index it had. -/
structure ListIteration (T : Type) (capacity : ℕ) where
  list : EntityList T capacity := {}
  index : ℕ := 0
  yielded : List (T × ℤ) := []

inductive ListCall (T : Type)
  | add (entity : T)
  | remove (entity : T)
  | removeAt (index : ℤ)
  | next

namespace ListIteration
open EntityList
variable {T : Type} {capacity : ℕ} [DecidableEq T]

/-- A call that throws leaves the list as it is. -/
def apply (s : ListIteration T capacity) : ListCall T → ListIteration T capacity
  | .add entity => { s with list := (s.list.add entity).2 }
  | .remove entity => { s with list := (s.list.remove entity).toOption.getD s.list }
  | .removeAt index => { s with list := (s.list.removeAt index).toOption.getD s.list }
  | .next =>
    match s.list.nextFrom s.index with
    | (none, index) => { s with index := index }
    | (some e, index) =>
      { s with index := index, yielded := s.yielded ++ [(e, s.list.index e)] }

def after (s : ListIteration T capacity) (calls : List (ListCall T)) : ListIteration T capacity :=
  calls.foldl apply s

/-- An entity is added where it is not in the list. -/
def Allows (s : ListIteration T capacity) (call : ListCall T) : Prop :=
  ∀ entity, call = .add entity → ¬ s.list.Contains entity

def Legal (s : ListIteration T capacity) (calls : List (ListCall T)) : Prop :=
  ∀ before call rest, calls = before ++ call :: rest → (s.after before).Allows call

/-- The entity is in the list all through the calls. -/
def Stays (s : ListIteration T capacity) (calls : List (ListCall T)) (entity : T) : Prop :=
  ∀ before rest, calls = before ++ rest → (s.after before).list.Contains entity

section Steps
variable {s : ListIteration T capacity} {call : ListCall T}

end Steps

section Runs
variable {s : ListIteration T capacity} {calls : List (ListCall T)} {call : ListCall T}

theorem Legal.of_append (h : s.Legal (calls ++ [call])) :
    s.Legal calls ∧ (s.after calls).Allows call := by
  refine ⟨?_, h calls call [] rfl⟩
  intro before c rest hsplit
  exact h before c (rest ++ [call]) (by rw [hsplit, List.append_assoc, List.cons_append])

theorem Stays.of_append {e : T} (h : s.Stays (calls ++ [call]) e) :
    s.Stays calls e ∧ (s.after (calls ++ [call])).list.Contains e := by
  refine ⟨?_, h (calls ++ [call]) [] (List.append_nil _).symm⟩
  intro before rest hsplit
  exact h before (rest ++ [call]) (by rw [hsplit, List.append_assoc])

end Runs

/-- The list after some calls, which add entities that are not in it. -/
def Reachable (l : EntityList T capacity) : Prop :=
  ∃ calls, Legal ({} : ListIteration T capacity) calls ∧ l = (after {} calls).list

end ListIteration

open EntityList ListIteration

end OpenNXT.Model
