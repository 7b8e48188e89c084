import OpenNXT.Buffer.IndexedBuf

/-! The first occurrence of some bytes in an array, and what is written over it. -/
namespace OpenNXT.Ext
open Buffer ByteBuf

/-- The first index at which all bytes of the needle are; `none` is -1. -/
def indexOf (data needle : List Byte) : Option ℕ :=
  (List.range (data.length + 1 - needle.length)).find? fun i =>
    needle.isPrefixOf (data.drop i)

/-- The array behind the call, and whether the needle was found; `none` is an index outside of it. -/
def replaceFirst (data needle replacement : List Byte) : Option (List Byte × Bool) :=
  match indexOf data needle with
  | none => some (data, false)
  | some i =>
    if i + replacement.length ≤ data.length then some (overwrite data i replacement, true) else none

variable {data needle : List Byte} {i : ℕ}

theorem indexOf_eq_some (h : indexOf data needle = some i) :
    needle <+: data.drop i ∧ i + needle.length ≤ data.length := by
  have hmem := List.mem_of_find?_eq_some h
  have hpre := List.isPrefixOf_iff_prefix.mp
    (@List.find?_some _ (fun i => needle.isPrefixOf (data.drop i)) _ _ h)
  rw [List.mem_range] at hmem
  exact ⟨hpre, by omega⟩

theorem indexOf_eq_none (hnone : indexOf data needle = none) (i : ℕ) : ¬ needle <+: data.drop i := by
  intro hpre
  have hlength := hpre.length_le
  rw [List.length_drop] at hlength
  by_cases hi : i < data.length + 1 - needle.length
  · have hfind := List.find?_eq_none.mp hnone i (List.mem_range.mpr hi)
    exact hfind (List.isPrefixOf_iff_prefix.mpr hpre)
  · cases needle with
    | nil =>
      have hfind := List.find?_eq_none.mp hnone 0
        (List.mem_range.mpr (by rw [List.length_nil]; omega))
      exact hfind rfl
    | cons b needle =>
      rw [List.length_cons] at hlength hi
      omega

/-- Nothing is found where the first byte of the needle does not occur. -/
theorem indexOf_of_notMem {b : Byte} (h : b ∉ data) : indexOf data (b :: needle) = none := by
  refine Option.eq_none_iff_forall_ne_some.mpr fun i hi => h ?_
  obtain ⟨⟨more, hmore⟩, -⟩ := indexOf_eq_some hi
  refine List.mem_of_mem_drop (i := i) ?_
  rw [← hmore]
  exact List.mem_cons_self

theorem getElem?_overwrite_inside {bytes : List Byte} {x : ℕ} (h : i + bytes.length ≤ data.length)
    (hlow : i ≤ x) (hhigh : x < i + bytes.length) :
    (overwrite data i bytes)[x]? = bytes[x - i]? := by
  have htake : (data.take i).length = i := List.length_take_of_le (by omega)
  rw [overwrite, List.getElem?_append_right (by omega), htake,
    List.getElem?_append_left (by omega)]

end OpenNXT.Ext
