import Mathlib.Data.Int.Notation
import Mathlib.Data.List.Basic

/-! Arrays and objects behind references. An index outside of its array ends a run. -/
namespace OpenNXT.Memory

abbrev Ref := ℕ

structure Heap (ω α : Type) where
  arrays : List (List α) := []
  objects : List ω := []

abbrev Run (ω α : Type) := StateT (Heap ω α) Option

variable {ω α : Type}

/-- `array[i]`. -/
def load (r : Ref) (i : ℤ) : Run ω α α := fun h => do
  let xs ← h.arrays[r]?
  if i < 0 then none
  else
    let x ← xs[i.toNat]?
    return (x, h)

/-- `array[i] = x`. -/
def store (r : Ref) (i : ℤ) (x : α) : Run ω α Unit := fun h => do
  let xs ← h.arrays[r]?
  if i < 0 ∨ xs.length ≤ i.toNat then none
  else return ((), { h with arrays := h.arrays.set r (xs.set i.toNat x) })

/-- `array.length`. -/
def length (r : Ref) : Run ω α ℕ := fun h => do
  let xs ← h.arrays[r]?
  return (xs.length, h)

def newArray (xs : List α) : Run ω α Ref := fun h =>
  some (h.arrays.length, { h with arrays := h.arrays ++ [xs] })

/-- The fields of an object. -/
def fields (o : Ref) : Run ω α ω := fun h => do
  let x ← h.objects[o]?
  return (x, h)

def setFields (o : Ref) (f : ω → ω) : Run ω α Unit := fun h => do
  let x ← h.objects[o]?
  return ((), { h with objects := h.objects.set o (f x) })

def newObject (x : ω) : Run ω α Ref := fun h =>
  some (h.objects.length, { h with objects := h.objects ++ [x] })

/-- `System.arraycopy` between two arrays. -/
def arraycopy (source : Ref) (sourcePos : ℤ) (target : Ref) (targetPos : ℤ) (n : ℤ) :
    Run ω α Unit := fun h => do
  let xs ← h.arrays[source]?
  let ys ← h.arrays[target]?
  if sourcePos < 0 ∨ targetPos < 0 ∨ n < 0 ∨ xs.length < sourcePos + n ∨
      ys.length < targetPos + n then none
  else
    let copied := (xs.drop sourcePos.toNat).take n.toNat
    let zs := ys.take targetPos.toNat ++ copied ++ ys.drop (targetPos + n).toNat
    return ((), { h with arrays := h.arrays.set target zs })

/-- What was there is there and holds what it held. -/
structure Heap.Grows (h h' : Heap ω α) : Prop where
  arrays : h.arrays <+: h'.arrays
  objects : h.objects <+: h'.objects

namespace Heap.Grows
variable {h h' h'' : Heap ω α}

theorem refl (h : Heap ω α) : h.Grows h := ⟨List.prefix_rfl, List.prefix_rfl⟩

theorem trans (first : h.Grows h') (second : h'.Grows h'') : h.Grows h'' :=
  ⟨first.arrays.trans second.arrays, first.objects.trans second.objects⟩

theorem array (hg : h.Grows h') {r : Ref} {xs : List α} (hr : h.arrays[r]? = some xs) :
    h'.arrays[r]? = some xs := by
  obtain ⟨more, hmore⟩ := hg.arrays
  have hlt := (List.getElem?_eq_some_iff.mp hr).1
  rw [← hmore, List.getElem?_append_left hlt, hr]

theorem object (hg : h.Grows h') {o : Ref} {x : ω} (ho : h.objects[o]? = some x) :
    h'.objects[o]? = some x := by
  obtain ⟨more, hmore⟩ := hg.objects
  have hlt := (List.getElem?_eq_some_iff.mp ho).1
  rw [← hmore, List.getElem?_append_left hlt, ho]

end Heap.Grows

section Runs
variable {h : Heap ω α} {r o : Ref} {xs : List α}

theorem load_run (hr : h.arrays[r]? = some xs) {i : ℕ} (hi : i < xs.length) :
    (load r i : Run ω α α) h = some (xs[i], h) := by
  simp [load, hr, hi]

theorem store_run (hr : h.arrays[r]? = some xs) {i : ℕ} (hi : i < xs.length) (x : α) :
    (store r i x : Run ω α Unit) h =
      some ((), { h with arrays := h.arrays.set r (xs.set i x) }) := by
  simp [store, hr, hi]

theorem length_run (hr : h.arrays[r]? = some xs) :
    (length r : Run ω α ℕ) h = some (xs.length, h) := by
  simp [length, hr]

theorem fields_run {x : ω} (ho : h.objects[o]? = some x) :
    (fields o : Run ω α ω) h = some (x, h) := by
  simp [fields, ho]

theorem setFields_run {x : ω} (ho : h.objects[o]? = some x) (f : ω → ω) :
    (setFields o f : Run ω α Unit) h =
      some ((), { h with objects := h.objects.set o (f x) }) := by
  simp [setFields, ho]

/-- A whole array is copied over another one of its length. -/
theorem arraycopy_run {s t : Ref} {xs ys : List α} (hs : h.arrays[s]? = some xs)
    (ht : h.arrays[t]? = some ys) {n : ℕ} (hx : xs.length = n) (hy : ys.length = n) :
    (arraycopy s 0 t 0 n : Run ω α Unit) h =
      some ((), { h with arrays := h.arrays.set t xs }) := by
  have htake : xs.take n = xs := List.take_of_length_le (by omega)
  have hdrop : ys.drop n = [] := List.drop_eq_nil_of_le (by omega)
  simp [arraycopy, hs, ht, hx, hy, htake, hdrop]

theorem bind_run {β γ : Type} {x : Run ω α β} {f : β → Run ω α γ} {b : β} {h' : Heap ω α}
    (hx : x h = some (b, h')) : (x >>= f) h = f b h' := by
  change (x h).bind _ = _
  rw [hx]
  rfl

end Runs

end OpenNXT.Memory
