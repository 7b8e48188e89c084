import OpenNXT.Buffer.ByteBuf
import OpenNXT.Filesystem.RoundTrip

/-! Smart integers of the game packets, next to those of the cache files. -/
namespace OpenNXT.Net.Buf
open Buffer Filesystem
open Filesystem.ReferenceTable (putSmartInt getSmartInt)

/-- Four bytes from 32767 on, else two; every negative number is 32767 in two bytes. -/
def GamePacketBuilder.putLargeSmart (value : Word) : List Byte :=
  if 32767 ≤ value.toInt then writeInt (value - 0x7fffffff - 1)
  else writeShort (if 0 ≤ value.toInt then value else 32767)

/-- 32767 in two bytes is -1. -/
def readSmartInt : Reader Word := fun buffer =>
  match buffer with
  | [] => none
  | b :: _ =>
    if b.msb then (do let value ← readInt; return value &&& 0x7fffffff : Reader Word) buffer
    else
      (do let value ← readUnsignedShort; return if value = 32767 then -1 else value : Reader Word)
        buffer

section Agreement
open GamePacketBuilder

/-- Both writers write the same bytes for the values, and both readers read the values back. -/
structure SmartIntsAgree (values : List Word) : Prop where
  write : values.flatMap putLargeSmart = values.flatMap putSmartInt
  read : Reads (Reader.times values.length readSmartInt) (values.flatMap putLargeSmart) values
  get : Reads (Reader.times values.length getSmartInt) (values.flatMap putSmartInt) values

theorem putLargeSmart_eq (value : Word) : putLargeSmart value = putSmartInt value := by
  unfold putLargeSmart putSmartInt
  split_ifs <;> rfl

theorem readSmartInt_cons (b : Byte) (bs : List Byte) : readSmartInt (b :: bs) =
    if b.msb then (do let value ← readInt; return value &&& 0x7fffffff : Reader Word) (b :: bs)
    else
      (do let value ← readUnsignedShort; return if value = 32767 then -1 else value : Reader Word)
        (b :: bs) := rfl

private theorem reads_wide {v : Word} (hv : 0 ≤ v.toInt) :
    Reads readSmartInt (putInt (v - 0x7fffffff - 1)) v := by
  intro rest
  obtain ⟨b, bs, (hput : putInt _ = b :: bs), hmsb⟩ :=
    ReferenceTable.exists_putWord 3 (v - 0x7fffffff - 1)
  have hread := ReferenceTable.reads_masked hv rest
  rw [hput, List.cons_append] at hread ⊢
  rw [readSmartInt_cons, hmsb, if_pos (ReferenceTable.msb_wide hv)]
  exact hread

private theorem reads_narrow {v : Word} (hv : v.toNat < 2 ^ 15) :
    Reads readSmartInt (writeShort v) (if v = 32767 then -1 else v) := by
  intro rest
  obtain ⟨b, bs, (hput : writeShort v = b :: bs), hmsb⟩ :=
    ReferenceTable.exists_putWord 1 (v.setWidth 16)
  have hread := (reads_unsignedShort (v := v) (by omega)).map
    (fun value => if value = 32767 then -1 else value) rest
  rw [hput, List.cons_append] at hread ⊢
  rw [readSmartInt_cons, hmsb, ReferenceTable.msb_narrow hv, if_neg Bool.false_ne_true]
  exact hread

private theorem eq_neg_one_iff {v : Word} : v = -1 ↔ v.toInt = -1 :=
  ⟨fun h => by rw [h]; rfl, fun h => BitVec.eq_of_toInt_eq h⟩

/-- From -1 on the bytes say the value. -/
theorem reads_readSmartInt {v : Word} (hv : -1 ≤ v.toInt) : Reads readSmartInt (putLargeSmart v) v := by
  unfold putLargeSmart
  split_ifs with hwide hpos
  · exact reads_wide (by omega)
  · have hnat := toInt_eq_of_lt (toNat_lt_of_nonneg hpos)
    have hread := reads_narrow (v := v) (by omega)
    have hne : v ≠ 32767 := by
      rintro rfl
      exact hwide le_rfl
    rwa [if_neg hne] at hread
  · have hneg : v = -1 := eq_neg_one_iff.mpr (by omega)
    rw [hneg]
    exact reads_narrow (v := 32767) (by decide)

/-- The reader of the cache files knows no -1. -/
theorem reads_getSmartInt {v : Word} (hv : -1 ≤ v.toInt) :
    Reads getSmartInt (putSmartInt v) (if v = -1 then 32767 else v) := by
  by_cases hneg : v = -1
  · rw [if_pos hneg, hneg]
    exact ReferenceTable.reads_narrow (v := 32767) (by decide)
  · have hne := mt eq_neg_one_iff.mpr hneg
    rw [if_neg hneg]
    exact ReferenceTable.reads_smartInt v (by omega)

/-- Values that are read back one by one as `f` says. -/
private theorem reads_values {write : Word → List Byte} {r : Reader Word} (f : Word → Word)
    {values : List Word} (h : ∀ v ∈ values, Reads r (write v) (f v)) :
    Reads (Reader.times values.length r) (values.flatMap write) (values.map f) := by
  induction values with
  | nil => exact Reads.pure []
  | cons v values ih =>
    have hrest := ih fun w hw => h w (List.mem_cons_of_mem v hw)
    exact Reads.bind (h v (List.mem_cons_self ..)) (hrest.map (List.cons (f v)))

/-- All four agree on values from -1 on just where none is -1. -/
theorem smartIntsAgree_iff {values : List Word} (h : ∀ v ∈ values, -1 ≤ v.toInt) :
    SmartIntsAgree values ↔ -1 ∉ values := by
  have hget := reads_values (fun v => if v = -1 then 32767 else v) fun v hv => reads_getSmartInt (h v hv)
  constructor
  · rintro ⟨-, -, hback⟩ hneg
    have hmap := hget.unique hback
    nth_rewrite 2 [← List.map_id values] at hmap
    have hv := List.map_inj_left.mp hmap (-1) hneg
    revert hv
    decide
  · intro hneg
    refine ⟨?_, ?_, ?_⟩
    · exact congrArg (values.flatMap ·) (funext putLargeSmart_eq)
    · have hread := reads_values id fun v hv => reads_readSmartInt (h v hv)
      rwa [List.map_id] at hread
    · have hmap : values.map (fun v => if v = -1 then 32767 else v) = values.map id := by
        apply List.map_inj_left.mpr
        intro v hv
        have hne : v ≠ -1 := ne_of_mem_of_not_mem hv hneg
        exact if_neg hne
      rwa [hmap, List.map_id] at hget

theorem smartIntsAgree_bounds : SmartIntsAgree [0, 32766, 32767, 2147483647] := by
  apply (smartIntsAgree_iff _).mpr
  · decide
  · intro v hv
    simp only [List.mem_cons, List.not_mem_nil, or_false] at hv
    rcases hv with rfl | rfl | rfl | rfl <;> decide

/-- What is read back of -1 is 32767. -/
theorem not_smartIntsAgree_neg_one : ¬ SmartIntsAgree [-1] := by
  rintro ⟨-, -, hget⟩
  have hback := hget.run
  revert hback
  decide

end Agreement

end OpenNXT.Net.Buf
