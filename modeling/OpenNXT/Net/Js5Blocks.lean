import OpenNXT.Net.Js5Encoder
import Mathlib.Logic.Function.Basic
import Mathlib.Data.Nat.Bitwise

/-! The stream of a JS5 connection as a schedule of blocks. -/
namespace OpenNXT.Net
open Buffer

/-- What a block says it belongs to. -/
structure Target where
  priority : Bool
  index : Byte
  archive : Word
  deriving DecidableEq

/-- In front of a block on a connection without an XOR key. -/
def Target.header (t : Target) : List Byte := blockHeader 0 t.priority t.index t.archive

/-- A file as it is served: its own header announces its length, and with its trailer it is an
array. -/
def Served (data : List Byte) : Prop :=
  ∃ length : Word, js5ResponseLength data = some length ∧ length.toInt = data.length ∧
    data.length + 2 < 2 ^ 31

/-- `Blocks rest stream rest'`: whole blocks, each with the next of what is left of one file, lead
from `rest` to `rest'`. -/
inductive Blocks : (Target → List Byte) → List Byte → (Target → List Byte) → Prop
  | nil (rest : Target → List Byte) : Blocks rest [] rest
  | cons (t : Target) {rest rest' : Target → List Byte} {stream : List Byte} (h : rest t ≠ [])
      (more : Blocks (Function.update rest t ((rest t).drop maxResponseBlockPayloadBytes))
        stream rest') :
      Blocks rest (t.header ++ (rest t).take maxResponseBlockPayloadBytes ++ stream) rest'

section Header

/-- The header of a served file counts the bytes behind it. -/
theorem Served.header {data : List Byte} (h : Served data) :
    ∃ compression fileSize payload, data = compression :: putInt fileSize ++ payload ∧
      (fileSize + if compression = 0 then 5 else 9 : Word).toInt = data.length ∧
      data.length + 2 < 2 ^ 31 := by
  obtain ⟨length, hlength, hint, hbound⟩ := h
  unfold js5ResponseLength at hlength
  split at hlength
  · next b b₁ b₂ b₃ b₄ payload =>
    refine ⟨b, BitVec.ofNat 32 (ofBytes [b₁, b₂, b₃, b₄]), payload, ?_, ?_, hbound⟩
    · have hput : putInt (BitVec.ofNat 32 (ofBytes [b₁, b₂, b₃, b₄])) = [b₁, b₂, b₃, b₄] :=
        putWord_ofBytes [b₁, b₂, b₃, b₄]
      rw [hput]
      rfl
    · rw [← hint, ← Option.some.inj hlength]
      congr 1
      split_ifs <;> bv_omega
  · cases hlength

theorem Served.five_le {data : List Byte} (h : Served data) : 5 ≤ data.length := by
  obtain ⟨compression, fileSize, payload, rfl, -⟩ := h.header
  simp only [List.cons_append, List.length_cons, List.length_append, length_putWord]
  omega

theorem xorByte_zero (b : Byte) : xorByte 0 b = b := by
  unfold xorByte
  have hzero : b.setWidth 32 ^^^ (0 : Word) = b.setWidth 32 := BitVec.xor_zero
  rw [hzero]
  exact BitVec.setWidth_setWidth_of_le b (by omega)

theorem Target.header_eq (t : Target) : t.header =
    t.index :: putInt (if t.priority then t.archive else t.archive ||| 0x80000000) := by
  have hxor : (xorByte 0 : Byte → Byte) = id := funext xorByte_zero
  unfold Target.header blockHeader
  simp only [hxor, List.map_id]

@[simp] theorem Target.length_header (t : Target) : t.header.length = 5 := by
  rw [t.header_eq]
  simp

/-- The client reads the archive from the low bits. -/
theorem archive_of_header (t : Target) (h : t.archive.msb = false) :
    (if t.priority then t.archive else t.archive ||| 0x80000000) &&& 0x7fffffff = t.archive := by
  have hlt : t.archive.toNat < 2 ^ 31 := by
    rw [BitVec.msb_eq_false_iff_two_mul_lt] at h
    omega
  have hmask : ∀ w : Word, (w &&& 0x7fffffff).toNat = w.toNat % 2 ^ 31 := by
    intro w
    rw [BitVec.toNat_and]
    exact Nat.and_two_pow_sub_one_eq_mod w.toNat 31
  apply BitVec.eq_of_toNat_eq
  rw [hmask]
  split_ifs
  · exact Nat.mod_eq_of_lt hlt
  · rw [BitVec.toNat_or, Nat.or_mod_two_pow, Nat.mod_eq_of_lt hlt]
    change t.archive.toNat ||| 0 = t.archive.toNat
    exact Nat.or_zero _

/-- And the priority from the high bit. -/
theorem priority_of_header (t : Target) (h : t.archive.msb = false) :
    decide ((if t.priority then t.archive else t.archive ||| 0x80000000) &&& 0x80000000 = 0) =
      t.priority := by
  have hbit : t.archive &&& BitVec.twoPow 32 31 = 0 := by
    have hlast : t.archive.getLsbD 31 = false := by
      rw [BitVec.msb_eq_getLsbD_last] at h
      exact h
    rw [BitVec.and_twoPow, hlast, if_neg Bool.false_ne_true]
    rfl
  change decide ((if t.priority then t.archive else t.archive ||| BitVec.twoPow 32 31) &&&
    BitVec.twoPow 32 31 = 0) = _
  cases t.priority with
  | true => simp [hbit]
  | false =>
    have : (t.archive ||| BitVec.twoPow 32 31) &&& BitVec.twoPow 32 31 = BitVec.twoPow 32 31 := by
      ext i hi
      by_cases hi' : i = 31 <;> simp [hi']
    rw [if_neg (by simp), this]
    decide

end Header

namespace Blocks
variable {rest rest' rest'' : Target → List Byte} {stream stream' : List Byte}

theorem append (h : Blocks rest stream rest') (h' : Blocks rest' stream' rest'') :
    Blocks rest (stream ++ stream') rest'' := by
  induction h with
  | nil => exact h'
  | cons t hne _ ih =>
    have hmore := Blocks.cons t hne (ih h')
    rwa [← List.append_assoc] at hmore

/-- One block. -/
theorem single (t : Target) (h : rest t ≠ []) :
    Blocks rest (t.header ++ (rest t).take maxResponseBlockPayloadBytes)
      (Function.update rest t ((rest t).drop maxResponseBlockPayloadBytes)) := by
  have hone := Blocks.cons t h (Blocks.nil _)
  rwa [List.append_nil] at hone

/-- A file that is not in the stream may be anything. -/
theorem frame (h : Blocks rest stream rest') {t : Target} (ht : rest t = []) (data : List Byte) :
    rest' t = [] ∧ Blocks (Function.update rest t data) stream (Function.update rest' t data) := by
  induction h with
  | nil rest => exact ⟨ht, Blocks.nil _⟩
  | cons u hne _ ih =>
    rename_i rest rest' stream hmore
    have hut : u ≠ t := by
      rintro rfl
      exact hne ht
    have hsame : Function.update rest t data u = rest u := Function.update_of_ne hut _ _
    obtain ⟨hnil, hblocks⟩ := ih (by rw [Function.update_of_ne hut.symm]; exact ht)
    refine ⟨hnil, ?_⟩
    have hcons : Blocks (Function.update rest t data)
        (u.header ++ (Function.update rest t data u).take maxResponseBlockPayloadBytes ++ stream)
        (Function.update rest' t data) := by
      apply Blocks.cons u (by rwa [hsame])
      rw [hsame, Function.update_comm hut.symm]
      exact hblocks
    rwa [hsame] at hcons

/-- In `stream` the first block for `t` comes right behind `before`. -/
def BeginsAt (files : Target → List Byte) (stream : List Byte) (t : Target) (before : List Byte) :
    Prop :=
  ∃ rest tail, Blocks files before rest ∧ rest t = files t ∧ files t ≠ [] ∧
    stream = before ++ (t.header ++ (files t).take maxResponseBlockPayloadBytes ++ tail) ∧
    Blocks (Function.update rest t ((files t).drop maxResponseBlockPayloadBytes)) tail fun _ => []

/-- Every file of a stream begins somewhere. -/
theorem exists_beginsAt (h : Blocks rest stream rest') (hend : rest' = fun _ => []) {t : Target}
    (ht : rest t ≠ []) : ∃ before, BeginsAt rest stream t before := by
  induction h with
  | nil => exact absurd (congrFun hend t) ht
  | cons u hne hmore ih =>
    rename_i rest rest' stream
    subst hend
    by_cases hut : u = t
    · subst hut
      exact ⟨[], rest, stream, Blocks.nil rest, rfl, hne, rfl, hmore⟩
    · have hsame : Function.update rest u ((rest u).drop maxResponseBlockPayloadBytes) t = rest t :=
        Function.update_of_ne (Ne.symm hut) _ _
      obtain ⟨before, after, tail, hbefore, hafter, -, hstream, htail⟩ := ih rfl (by rwa [hsame])
      rw [hsame] at hafter hstream htail
      refine ⟨_, after, tail, Blocks.cons u hne hbefore, hafter, ht, ?_, htail⟩
      rw [hstream]
      simp only [List.append_assoc]

theorem BeginsAt.blocks {t : Target} {before : List Byte} (h : BeginsAt rest stream t before) :
    Blocks rest stream fun _ => [] := by
  obtain ⟨after, tail, hbefore, hafter, hne, rfl, htail⟩ := h
  rw [← hafter] at hne htail ⊢
  exact hbefore.append (Blocks.cons t hne htail)

end Blocks

namespace Js5Encoder

/-- The blocks of one file, as a client sees them. -/
def response (t : Target) (data : List Byte) : List Byte :=
  if _h : data = [] then []
  else t.header ++ data.take maxResponseBlockPayloadBytes ++
    response t (data.drop maxResponseBlockPayloadBytes)
termination_by data.length
decreasing_by
  have := List.length_pos_iff.mpr _h
  rw [List.length_drop]
  simp only [maxResponseBlockPayloadBytes]
  omega

theorem response_nil (t : Target) : response t [] = [] := by
  rw [response, dif_pos rfl]

theorem response_of_ne (t : Target) {data : List Byte} (h : data ≠ []) :
    response t data = t.header ++ data.take maxResponseBlockPayloadBytes ++
      response t (data.drop maxResponseBlockPayloadBytes) := by
  rw [response, dif_neg h]

theorem encodeBlocks_eq (t : Target) (data : List Byte) :
    encodeBlocks 0 t.priority t.index t.archive data data.length = some (response t data) := by
  induction hn : data.length using Nat.strongRecOn generalizing data with
  | _ n ih =>
    by_cases hnil : data = []
    · subst hnil
      rw [encodeBlocks, dif_pos (Or.inl rfl), response_nil]
    · have hpos := List.length_pos_iff.mpr hnil
      have hxor : (xorByte 0 : Byte → Byte) = id := funext xorByte_zero
      have hblock : (min (maxResponseBlockPayloadBytes : ℤ) n).toNat =
          min maxResponseBlockPayloadBytes n := by omega
      have hdrop : data.drop (min maxResponseBlockPayloadBytes n) =
          data.drop maxResponseBlockPayloadBytes := by
        rcases Nat.le_total n maxResponseBlockPayloadBytes with hle | hle
        · rw [min_eq_right hle, List.drop_of_length_le (by omega), List.drop_of_length_le (by omega)]
        · rw [min_eq_left hle]
      have hleft : (n : ℤ) - min (maxResponseBlockPayloadBytes : ℤ) n =
          ((data.drop maxResponseBlockPayloadBytes).length : ℕ) := by
        rw [List.length_drop, hn]
        simp only [maxResponseBlockPayloadBytes]
        omega
      have hmore := ih (data.drop maxResponseBlockPayloadBytes).length
        (by rw [List.length_drop, hn]; simp only [maxResponseBlockPayloadBytes]; omega) _ rfl
      have htake : data.take (min maxResponseBlockPayloadBytes n) =
          data.take maxResponseBlockPayloadBytes := by
        rcases Nat.le_total n maxResponseBlockPayloadBytes with hle | hle
        · rw [min_eq_right hle, List.take_of_length_le (by omega), List.take_of_length_le (by omega)]
        · rw [min_eq_left hle]
      rw [encodeBlocks, dif_neg (by rw [not_or]; exact ⟨hnil, by omega⟩), if_neg (by omega)]
      rw [hblock, hdrop, hleft, hmore, htake, response_of_ne t hnil, hxor, List.map_id]
      rfl

/-- The master table is answered with its blocks. -/
theorem encode_eq (t : Target) {data : List Byte} (h : Served data) :
    encode 0 t.priority t.index t.archive data = some (response t data) := by
  obtain ⟨length, hlength, hint, -⟩ := h
  unfold encode
  rw [hlength]
  change encodeBlocks 0 t.priority t.index t.archive data length.toInt = _
  rw [hint, encodeBlocks_eq]

theorem blocks_response (t : Target) (data : List Byte) (rest : Target → List Byte)
    (h : rest t = data) : Blocks rest (response t data) (Function.update rest t []) := by
  induction hn : data.length using Nat.strongRecOn generalizing data rest with
  | _ n ih =>
    by_cases hnil : data = []
    · have hsame : Function.update rest t [] = rest := by
        rw [← hnil, ← h]
        exact Function.update_eq_self _ _
      rw [hnil, response_nil, hsame]
      exact Blocks.nil rest
    · have hpos := List.length_pos_iff.mpr hnil
      have hmore := ih (data.drop maxResponseBlockPayloadBytes).length
        (by rw [List.length_drop, hn]; simp only [maxResponseBlockPayloadBytes]; omega) _
        (Function.update rest t (data.drop maxResponseBlockPayloadBytes))
        (Function.update_self _ _ _) rfl
      rw [Function.update_idem] at hmore
      rw [response_of_ne t hnil]
      subst h
      exact Blocks.cons t hnil hmore

theorem length_response (t : Target) (data : List Byte) : data.length ≤ (response t data).length := by
  induction hn : data.length using Nat.strongRecOn generalizing data with
  | _ n ih =>
    by_cases hnil : data = []
    · subst hnil
      exact hn ▸ Nat.zero_le _
    · have hpos := List.length_pos_iff.mpr hnil
      have hmore := ih (data.drop maxResponseBlockPayloadBytes).length
        (by rw [List.length_drop, hn]; simp only [maxResponseBlockPayloadBytes]; omega) _ rfl
      rw [response_of_ne t hnil]
      simp only [List.length_append, List.length_take, List.length_drop] at hmore ⊢
      omega

/-- The first part of a file is sent in a front of the stream of all of it, and as much as it
lacks is left over. -/
theorem response_split (t : Target) (data : List Byte) (m : ℕ) (hm : m ≤ data.length) :
    ∃ more, response t data = response t (data.take m) ++ more ∧
      data.length ≤ more.length + m := by
  induction hn : data.length using Nat.strongRecOn generalizing data m with
  | _ n ih =>
    by_cases hzero : m = 0
    · subst hzero
      refine ⟨response t data, by rw [List.take_zero, response_nil, List.nil_append], ?_⟩
      have := length_response t data
      omega
    · have hnil : data ≠ [] := by
        rintro rfl
        simp only [List.length_nil] at hm
        omega
      have hfront : data.take m ≠ [] := by
        rw [← List.length_pos_iff, List.length_take]
        omega
      rw [response_of_ne t hnil, response_of_ne t hfront, List.take_take, List.drop_take]
      rcases Nat.le_total m maxResponseBlockPayloadBytes with hle | hle
      · have hcut : data.take maxResponseBlockPayloadBytes =
            data.take m ++ (data.take maxResponseBlockPayloadBytes).drop m := by
          have := List.take_append_drop m (data.take maxResponseBlockPayloadBytes)
          rwa [List.take_take, min_eq_left hle, eq_comm] at this
        refine ⟨(data.take maxResponseBlockPayloadBytes).drop m ++
          response t (data.drop maxResponseBlockPayloadBytes), ?_, ?_⟩
        · rw [min_eq_right hle, Nat.sub_eq_zero_of_le hle, List.take_zero, response_nil,
            List.append_nil]
          conv_lhs => rw [hcut]
          simp only [List.append_assoc]
        · have := length_response t (data.drop maxResponseBlockPayloadBytes)
          simp only [List.length_append, List.length_drop, List.length_take] at this ⊢
          omega
      · obtain ⟨more, hmore, hlen⟩ := ih (data.drop maxResponseBlockPayloadBytes).length
          (by rw [List.length_drop, hn]; simp only [maxResponseBlockPayloadBytes] at hle ⊢; omega)
          (data.drop maxResponseBlockPayloadBytes) (m - maxResponseBlockPayloadBytes)
          (by rw [List.length_drop]; omega) rfl
        refine ⟨more, ?_, ?_⟩
        · rw [min_eq_left hle, hmore]
          simp only [List.append_assoc]
        · rw [List.length_drop] at hlen
          omega

end Js5Encoder

end OpenNXT.Net
