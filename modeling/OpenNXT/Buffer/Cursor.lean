import OpenNXT.Buffer.BigEndian

/-! Byte strings read at a position. -/
namespace OpenNXT.Buffer

/-- A slice stops at the end of the bytes. -/
def sliceAt (bs : List Byte) (i n : ℕ) : List Byte := (bs.drop i).take n

/-- The number of `n` bytes at a position. -/
def intAt (bs : List Byte) (i n : ℕ) : ℕ := ofBytes (sliceAt bs i n)

/-- The bytes have the others in them, from a position on. -/
def Stands (bs : List Byte) (i : ℕ) (cs : List Byte) : Prop :=
  ∃ pre post, bs = pre ++ (cs ++ post) ∧ pre.length = i

theorem intAt_lt (bs : List Byte) (i n : ℕ) : intAt bs i n < 256 ^ n := by
  have hlt := ofBytes_lt (sliceAt bs i n)
  have hlen : (sliceAt bs i n).length ≤ n := List.length_take_le _ _
  exact lt_of_lt_of_le hlt (Nat.pow_le_pow_right (by omega) hlen)

namespace Stands
variable {bs cs ds : List Byte} {i : ℕ}

theorem start (bs : List Byte) : Stands bs 0 bs := ⟨[], [], (List.append_nil bs).symm, rfl⟩

theorem left (h : Stands bs i (cs ++ ds)) : Stands bs i cs := by
  obtain ⟨pre, post, hbs, hi⟩ := h
  exact ⟨pre, ds ++ post, by rw [hbs, List.append_assoc], hi⟩

theorem right (h : Stands bs i (cs ++ ds)) : Stands bs (i + cs.length) ds := by
  obtain ⟨pre, post, hbs, hi⟩ := h
  refine ⟨pre ++ cs, post, ?_, by rw [List.length_append, hi]⟩
  rw [hbs, List.append_assoc, List.append_assoc]

/-- The rest after a field, at a position that is known. -/
theorem after (h : Stands bs i (cs ++ ds)) {j : ℕ} (hj : i + cs.length = j) : Stands bs j ds := by
  rw [← hj]
  exact h.right

theorem tail {b : Byte} (h : Stands bs i (b :: cs)) : Stands bs (i + 1) cs := by
  rw [← List.singleton_append] at h
  exact h.right

theorem le (h : Stands bs i cs) : i + cs.length ≤ bs.length := by
  obtain ⟨pre, post, hbs, hi⟩ := h
  rw [hbs, List.length_append, List.length_append, hi]
  omega

theorem head {b : Byte} (h : Stands bs i (b :: cs)) : bs[i]? = some b := by
  obtain ⟨pre, post, hbs, hi⟩ := h
  rw [hbs, ← hi, List.getElem?_append_right le_rfl, Nat.sub_self]
  rfl

theorem slice (h : Stands bs i cs) : sliceAt bs i cs.length = cs := by
  obtain ⟨pre, post, hbs, hi⟩ := h
  rw [sliceAt, hbs, ← hi, List.drop_left, List.take_left]

/-- A number that fits its bytes. -/
theorem int {n v : ℕ} (h : Stands bs i (toBytes n v)) (hv : v < 256 ^ n) : intAt bs i n = v := by
  have hslice := h.slice
  rw [length_toBytes] at hslice
  rw [intAt, hslice, ofBytes_toBytes, Nat.mod_eq_of_lt hv]

end Stands

end OpenNXT.Buffer
