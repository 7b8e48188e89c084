import Mathlib.Data.List.Infix
import OpenNXT.Buffer.BigEndian

/-! Words as bit strings, most significant bit first, and strings of which one goes on the
other. -/
namespace OpenNXT.Buffer

/-- The `n` low-order bits of a word. -/
def putBits : ℕ → Word → List Bool
  | 0, _ => []
  | n + 1, v => v.getLsbD n :: putBits n v

@[simp] theorem length_putBits (n : ℕ) (v : Word) : (putBits n v).length = n := by
  induction n with
  | zero => rfl
  | succ n ih => rw [putBits, List.length_cons, ih]

theorem putBits_eq_iff_getLsbD (n : ℕ) (v w : Word) :
    putBits n v = putBits n w ↔ ∀ i < n, v.getLsbD i = w.getLsbD i := by
  induction n with
  | zero => simp [putBits]
  | succ n ih =>
    rw [putBits, putBits, List.cons.injEq, ih]
    constructor
    · intro h i hi
      obtain hlt | rfl := Nat.lt_succ_iff_lt_or_eq.mp hi
      · exact h.2 i hlt
      · exact h.1
    · intro h
      exact ⟨h n (by omega), fun i hi => h i (by omega)⟩

/-- All the bits of a narrow word. -/
def fieldBits {n : ℕ} (v : BitVec n) : List Bool := putBits n (v.setWidth 32)

/-- Only the low-order bits are put. -/
theorem fieldBits_setWidth {n : ℕ} (hn : n ≤ 32) (v : Word) :
    fieldBits (v.setWidth n) = putBits n v := by
  rw [fieldBits, putBits_eq_iff_getLsbD]
  intro i hi
  have h32 : i < 32 := by omega
  simp [hi, h32]

theorem fieldBits_inj {n : ℕ} (hn : n ≤ 32) (v w : BitVec n) :
    fieldBits v = fieldBits w ↔ v = w := by
  rw [fieldBits, fieldBits, putBits_eq_iff_getLsbD]
  constructor
  · intro h
    apply BitVec.eq_of_getLsbD_eq
    intro i hi
    have h32 : i < 32 := by omega
    simpa [h32] using h i hi
  · intro h i _
    rw [h]

/-- Bytes of eight bits; the last one is filled with zeros. -/
def packBits : List Bool → List Byte
  | [] => []
  | b₇ :: b₆ :: b₅ :: b₄ :: b₃ :: b₂ :: b₁ :: b₀ :: bits =>
    packByte [b₇, b₆, b₅, b₄, b₃, b₂, b₁, b₀] :: packBits bits
  | bits => [packByte bits]
where
  /-- At most eight bits, from the most significant down. -/
  packByte (bits : List Bool) : Byte :=
    bits.zipIdx.foldl (fun byte b => if b.1 then byte ||| BitVec.twoPow 8 (7 - b.2) else byte) 0#8

/-- One string is where the other begins. -/
def Comparable {α : Type*} (xs ys : List α) : Prop := xs <+: ys ∨ ys <+: xs

section Comparable
variable {α : Type*} {xs xs' ys ys' : List α}

theorem Comparable.symm (h : Comparable xs ys) : Comparable ys xs := Or.symm h

theorem comparable_self (xs : List α) : Comparable xs xs := Or.inl (List.prefix_refl xs)

theorem comparable_nil (xs : List α) : Comparable [] xs := Or.inl List.nil_prefix

@[simp] theorem comparable_cons_iff (x x' : α) :
    Comparable (x :: xs) (x' :: xs') ↔ x = x' ∧ Comparable xs xs' := by
  simp only [Comparable, List.cons_prefix_cons]
  constructor
  · intro h
    obtain ⟨rfl, h⟩ | ⟨rfl, h⟩ := h
    · exact ⟨rfl, Or.inl h⟩
    · exact ⟨rfl, Or.inr h⟩
  · intro h
    obtain ⟨rfl, h⟩ := h
    exact h.imp (fun h => ⟨rfl, h⟩) (fun h => ⟨rfl, h⟩)

/-- Heads of one length are compared on their own. -/
theorem comparable_append_iff (hl : xs.length = xs'.length) :
    Comparable (xs ++ ys) (xs' ++ ys') ↔ xs = xs' ∧ Comparable ys ys' := by
  induction xs generalizing xs' with
  | nil =>
    obtain rfl := List.length_eq_zero_iff.mp hl.symm
    simp
  | cons x xs ih =>
    obtain _ | ⟨x', xs'⟩ := xs'
    · simp at hl
    · rw [List.cons_append, List.cons_append, comparable_cons_iff, ih (by simpa using hl),
        List.cons.injEq, and_assoc]

theorem comparable_iff_of_length (hl : xs.length = xs'.length) :
    Comparable xs xs' ↔ xs = xs' := by
  have h : Comparable (xs ++ []) (xs' ++ []) ↔ xs = xs' ∧ Comparable ([] : List α) [] :=
    comparable_append_iff hl
  rw [List.append_nil, List.append_nil] at h
  rw [h]
  exact and_iff_left (comparable_self [])

end Comparable

theorem comparable_fieldBits_append_iff {n : ℕ} (hn : n ≤ 32) (v w : BitVec n)
    (xs ys : List Bool) :
    Comparable (fieldBits v ++ xs) (fieldBits w ++ ys) ↔ v = w ∧ Comparable xs ys := by
  rw [comparable_append_iff (by simp [fieldBits]), fieldBits_inj hn]

theorem comparable_fieldBits_iff {n : ℕ} (hn : n ≤ 32) (v w : BitVec n) :
    Comparable (fieldBits v) (fieldBits w) ↔ v = w := by
  rw [comparable_iff_of_length (by simp [fieldBits]), fieldBits_inj hn]

end OpenNXT.Buffer
