import OpenNXT.Net.Buf.GamePacketData

/-! The numbers the reader gets back from what the builder put, with a sign and without one. -/
namespace OpenNXT.Net.Buf
open Buffer

/-- The numbers of a type in two's complement. -/
def DataType.FitsSigned (type : DataType) (v : Long) : Prop :=
  -2 ^ (type.bytes * 8 - 1) ≤ v.toInt ∧ v.toInt < 2 ^ (type.bytes * 8 - 1)

/-- The numbers of a type without a sign. -/
def DataType.FitsUnsigned (type : DataType) (v : Long) : Prop :=
  0 ≤ v.toInt ∧ v.toInt < 2 ^ (type.bytes * 8)

/-- The orders that shift an `Int`. -/
def DataOrder.IsMiddle (order : DataOrder) : Prop := order = .middle ∨ order = .inversedMiddle

instance (order : DataOrder) : Decidable order.IsMiddle := inferInstanceAs (Decidable (_ ∨ _))

/-- The correction of a sign is an `Int` as well, and for integers it wraps to zero. -/
def LosesSign (type : DataType) (order : DataOrder) (v : Long) : Prop :=
  type = .int ∧ ¬ order.IsMiddle ∧ v.toInt < 0

instance (type : DataType) (order : DataOrder) (v : Long) : Decidable (LosesSign type order v) :=
  inferInstanceAs (Decidable (_ ∧ _))

/-- A top bit shifted into an `Int` is a sign. -/
def GainsSign (order : DataOrder) (v : Long) : Prop := order.IsMiddle ∧ 2 ^ 31 ≤ v.toInt

instance (order : DataOrder) (v : Long) : Decidable (GainsSign order v) :=
  inferInstanceAs (Decidable (_ ∧ _))

section SignExtension
open GamePacketBuilder GamePacketReader

/-- The upper half repeats the top bit of the lower one. -/
def Extended (x : Long) : Prop := ∀ j < 64, x.getLsbD j = x.getLsbD (min j 31)

theorem extended_signExtend (w : Word) : Extended (w.signExtend 64) := by
  intro j hj
  by_cases hlow : j < 32
  · rw [Nat.min_eq_left (by omega)]
  · rw [Nat.min_eq_right (by omega), BitVec.getLsbD_signExtend, BitVec.getLsbD_signExtend,
      if_neg hlow, if_pos (by omega), BitVec.msb_eq_getLsbD_last]
    simp [hj]

theorem Extended.or {x y : Long} (hx : Extended x) (hy : Extended y) : Extended (x ||| y) := by
  intro j hj
  rw [BitVec.getLsbD_or, BitVec.getLsbD_or, hx j hj, hy j hj]

theorem Extended.eq_signExtend {x : Long} (hx : Extended x) : x = (x.setWidth 32).signExtend 64 := by
  apply BitVec.eq_of_getLsbD_eq
  intro j hj
  by_cases hlow : j < 32
  · rw [BitVec.getLsbD_signExtend, if_pos hlow]
    simp [hj, hlow]
  · rw [hx j hj, Nat.min_eq_right (by omega), BitVec.getLsbD_signExtend, if_neg hlow,
      BitVec.msb_eq_getLsbD_last]
    simp [hj]

/-- What an integer in a middle order is got back as. -/
theorem extended_getBytes {ps : List ℕ} {acc w : Long} {bs rest : List Byte} (hacc : Extended acc)
    (h : getBytes intValueAt ps acc bs = some (w, rest)) : Extended w := by
  induction ps generalizing acc bs with
  | nil =>
    cases h
    exact hacc
  | cons i ps ih =>
    rw [getBytes, Reader.bind_apply] at h
    obtain ⟨⟨b, tail⟩, -, hrest⟩ := Option.bind_eq_some_iff.mp h
    exact ih (hacc.or (extended_signExtend _)) hrest

end SignExtension

section Values
open GamePacketBuilder GamePacketReader

/-- What the reader gets back: the low bytes, with the sign of an integer where the order is a middle
one. -/
def gotten (type : DataType) (order : DataOrder) (v : Long) : Long :=
  if order.IsMiddle then (v.setWidth 32).signExtend 64
  else (v.setWidth (type.bytes * 8)).setWidth 64

theorem reads_gotten {type : DataType} {order : DataOrder} {transformation : DataTransformation}
    {v : Long} {bs : List Byte} (h : put type order transformation v = some bs) :
    Reads (get type order transformation) bs (gotten type order v) := by
  obtain ⟨w, hread, hlow, hwide⟩ := reads_get h
  have hw : w = gotten type order v := by
    unfold gotten
    split_ifs with hmid
    · have hs : Supported type order transformation := by
        by_contra hs
        rw [put, if_neg hs] at h
        cases h
      obtain ⟨rfl, rfl⟩ := hs hmid
      have hrun := hread.run
      have hor : order = .middle ∨ order = .inversedMiddle := hmid
      rw [GamePacketReader.get, if_pos hs, if_pos hor] at hrun
      have hext := extended_getBytes (by intro j _; simp) hrun
      have hlow' : w.setWidth 32 = v.setWidth 32 := hlow
      rw [hext.eq_signExtend, hlow']
    · apply hwide
      cases order with
      | big => exact Or.inl rfl
      | little => exact Or.inr rfl
      | inversedMiddle => exact absurd (Or.inr rfl) hmid
      | middle => exact absurd (Or.inl rfl) hmid
  rwa [← hw]

/-- Without a sign the value is its residue. -/
theorem toInt_gotten_of_not_middle {type : DataType} {order : DataOrder} (hmid : ¬ order.IsMiddle)
    (htype : type ≠ .long) (v : Long) :
    (gotten type order v).toInt = v.toInt % 2 ^ (type.bytes * 8) := by
  rw [gotten, if_neg hmid, BitVec.toInt_eq_toNat_cond, BitVec.toInt_eq_toNat_cond,
    BitVec.toNat_setWidth, BitVec.toNat_setWidth]
  have hlt := v.isLt
  cases type with
  | long => exact absurd rfl htype
  | byte => simp only [DataType.bytes]; split_ifs <;> omega
  | short => simp only [DataType.bytes]; split_ifs <;> omega
  | medium => simp only [DataType.bytes]; split_ifs <;> omega
  | int => simp only [DataType.bytes]; split_ifs <;> omega

theorem toInt_gotten_of_middle {order : DataOrder} (hmid : order.IsMiddle) (type : DataType)
    (v : Long) : (gotten type order v).toInt = (v.toInt + 2 ^ 31) % 2 ^ 32 - 2 ^ 31 := by
  rw [gotten, if_pos hmid, BitVec.toInt_signExtend_of_le (by omega), BitVec.toInt_setWidth,
    Int.bmod_def, BitVec.toInt_eq_toNat_cond]
  have hlt := v.isLt
  split_ifs <;> omega

theorem gotten_long {order : DataOrder} (hmid : ¬ order.IsMiddle) (v : Long) :
    gotten .long order v = v := by
  rw [gotten, if_neg hmid]
  simp [DataType.bytes]

private theorem toInt_signedMax {type : DataType} (htype : type ≠ .long) :
    ((signedMax type).signExtend 64).toInt = 2 ^ (type.bytes * 8 - 1) - 1 := by
  cases type with
  | long => exact absurd rfl htype
  | byte | short | medium | int => decide

/-- The correction of an integer has wrapped to zero. -/
private theorem toInt_correction {type : DataType} (htype : type ≠ .long) :
    (((signedMax type + 1) * 2).signExtend 64).toInt =
      if type = .int then 0 else 2 ^ (type.bytes * 8) := by
  cases type with
  | long => exact absurd rfl htype
  | byte | short | medium | int => decide

theorem toInt_toSigned {type : DataType} (htype : type ≠ .long) {w : Long}
    (hlow : -2 ^ 31 ≤ w.toInt) (hhigh : w.toInt < 2 ^ 32) :
    (toSigned type w).toInt =
      if type ≠ .int ∧ 2 ^ (type.bytes * 8 - 1) ≤ w.toInt then w.toInt - 2 ^ (type.bytes * 8)
      else w.toInt := by
  have hmax := toInt_signedMax htype
  have hcorrection := toInt_correction htype
  have hslt : ((signedMax type).signExtend 64).slt w ↔ 2 ^ (type.bytes * 8 - 1) ≤ w.toInt := by
    rw [BitVec.slt_iff_toInt_lt, hmax]
    omega
  have hbytes : (2 : ℤ) ^ (type.bytes * 8) ≤ 2 ^ 32 ∨ type = .long := by
    cases type with
    | long => exact Or.inr rfl
    | byte | short | medium | int => exact Or.inl (by decide)
  have hpos : (0 : ℤ) ≤ 2 ^ (type.bytes * 8) := by positivity
  unfold toSigned
  by_cases hgreater : 2 ^ (type.bytes * 8 - 1) ≤ w.toInt
  · rw [if_pos ⟨htype, hslt.mpr hgreater⟩, BitVec.toInt_sub, hcorrection]
    by_cases hint : type = .int
    · rw [if_pos hint, if_neg (fun h => h.1 hint), Int.sub_zero]
      exact Int.bmod_eq_of_le_mul_two (by omega) (by omega)
    · rw [if_neg hint, if_pos ⟨hint, hgreater⟩]
      obtain hle | hlong := hbytes
      · exact Int.bmod_eq_of_le_mul_two (by omega) (by omega)
      · exact absurd hlong htype
  · rw [if_neg fun h => hgreater (hslt.mp h.2), if_neg fun h => hgreater h.2]

end Values

section Numbers
open GamePacketBuilder GamePacketReader

private theorem not_middle_of_ne_int {type : DataType} {order : DataOrder}
    {transformation : DataTransformation} {v : Long} {bs : List Byte}
    (h : put type order transformation v = some bs) (htype : type ≠ .int) : ¬ order.IsMiddle := by
  intro hmid
  rw [put] at h
  split_ifs at h with hs
  exact htype (hs hmid).2

private theorem reads_map_iff {r : Reader Long} {f : Long → Long} {bs : List Byte} {v w : Long}
    (h : Reads r bs w) : Reads (do let x ← r; return f x) bs v ↔ (f w).toInt = v.toInt := by
  have hread := h.map f
  constructor
  · intro hv
    rw [hread.unique hv]
  · intro heq
    rwa [BitVec.eq_of_toInt_eq heq] at hread

theorem toInt_toSigned_gotten {type : DataType} {order : DataOrder} {v : Long}
    (hmid : order.IsMiddle → type = .int) (hv : type.FitsSigned v) :
    (toSigned type (gotten type order v)).toInt =
      if LosesSign type order v then v.toInt + 2 ^ 32 else v.toInt := by
  obtain ⟨hlow, hhigh⟩ := hv
  by_cases hlong : type = .long
  · have hnot : ¬ LosesSign type order v := by
      intro hloses
      rw [hloses.1] at hlong
      cases hlong
    have hplain : ¬ order.IsMiddle := by
      intro h
      rw [hmid h] at hlong
      cases hlong
    rw [if_neg hnot, hlong, gotten_long hplain]
    exact congrArg BitVec.toInt (if_neg fun h => h.1 rfl)
  · by_cases hm : order.IsMiddle
    · have hnot : ¬ LosesSign type order v := fun hloses => hloses.2.1 hm
      have hgot := toInt_gotten_of_middle hm type v
      obtain rfl := hmid hm
      have hlow' : -2 ^ 31 ≤ v.toInt := hlow
      have hhigh' : v.toInt < 2 ^ 31 := hhigh
      rw [toInt_toSigned hlong (by omega) (by omega), if_neg (fun h => h.1 rfl), if_neg hnot, hgot]
      omega
    · have hgot := toInt_gotten_of_not_middle hm hlong v
      cases type with
      | long => exact absurd rfl hlong
      | int =>
        simp only [DataType.bytes] at hlow hhigh hgot
        rw [toInt_toSigned hlong (by omega) (by omega), if_neg (fun h => h.1 rfl), hgot]
        split_ifs with hloses
        · have hneg := hloses.2.2
          omega
        · have hpos : ¬ v.toInt < 0 := fun h => hloses ⟨rfl, hm, h⟩
          omega
      | byte | short | medium =>
        simp only [DataType.bytes] at hlow hhigh hgot
        have hnot : ∀ t ≠ DataType.int, ¬ LosesSign t order v := fun t ht hloses => ht hloses.1
        rw [toInt_toSigned hlong (by omega) (by omega), if_neg (hnot _ (by decide)), hgot]
        by_cases hneg : v.toInt < 0
        · rw [if_pos ⟨by decide, by simp only [DataType.bytes]; omega⟩]
          simp only [DataType.bytes]
          omega
        · rw [if_neg fun hgreater => absurd hgreater.2 (by simp only [DataType.bytes]; omega)]
          omega

/-- A signed read gives the number back, except for a negative integer outside the middle orders. -/
theorem reads_getSigned_iff {type : DataType} {order : DataOrder}
    {transformation : DataTransformation} {v : Long} {bs : List Byte}
    (h : put type order transformation v = some bs) (hv : type.FitsSigned v) :
    Reads (getSigned type order transformation) bs v ↔ ¬ LosesSign type order v := by
  have hmid : order.IsMiddle → type = .int := by
    intro hm
    by_contra htype
    exact not_middle_of_ne_int h htype hm
  rw [getSigned, reads_map_iff (reads_gotten h), toInt_toSigned_gotten hmid hv]
  split_ifs with hloses
  · constructor
    · intro heq
      omega
    · intro hnot
      exact absurd hloses hnot
  · exact iff_of_true rfl hloses

theorem reads_getSigned_short : ∃ bs, put .short .little .add (-2) = some bs ∧
    Reads (getSigned .short .little .add) bs (-2) := by
  have hput : put .short .little .add (-2) = some [0x7e, 0xff] := by decide
  have hfits : DataType.short.FitsSigned (-2) := ⟨by decide, by decide⟩
  exact ⟨_, hput, (reads_getSigned_iff hput hfits).mpr (by decide)⟩

/-- Minus one comes back as the largest number without a sign. -/
theorem getSigned_int : ∃ bs, put .int .big .none (-1) = some bs ∧
    DataType.int.FitsSigned (-1) ∧ getSigned .int .big .none bs = some (4294967295, []) := by
  have hfits : DataType.int.FitsSigned (-1) := ⟨by decide, by decide⟩
  exact ⟨[0xff, 0xff, 0xff, 0xff], by decide, hfits, by decide⟩

/-- An unsigned read gives the number back, except where a middle order has a top bit. -/
theorem reads_getUnsigned_iff {type : DataType} {order : DataOrder}
    {transformation : DataTransformation} {v : Long} {bs : List Byte} (htype : type ≠ .long)
    (h : put type order transformation v = some bs) (hv : type.FitsUnsigned v) :
    Reads (getUnsigned type order transformation) bs v ↔ ¬ GainsSign order v := by
  obtain ⟨hlow, hhigh⟩ := hv
  have hmask : ∀ x : Long, x &&& -1 = x := by
    intro x
    exact BitVec.and_allOnes
  rw [getUnsigned, reads_map_iff (reads_gotten h), hmask]
  by_cases hm : order.IsMiddle
  · have hint : type = .int := by
      by_contra hne
      exact not_middle_of_ne_int h hne hm
    rw [hint] at hhigh
    simp only [DataType.bytes] at hhigh
    rw [toInt_gotten_of_middle hm, GainsSign, and_iff_right hm]
    omega
  · rw [toInt_gotten_of_not_middle hm htype, Int.emod_eq_of_lt hlow hhigh]
    exact iff_of_true rfl fun hgains => hm hgains.1

theorem reads_getUnsigned_middle : ∃ bs, put .int .middle .none 2000000000 = some bs ∧
    Reads (getUnsigned .int .middle .none) bs 2000000000 := by
  have hput : put .int .middle .none 2000000000 = some [0x94, 0x00, 0x77, 0x35] := by decide
  have hfits : DataType.int.FitsUnsigned 2000000000 := ⟨by decide, by decide⟩
  exact ⟨_, hput, (reads_getUnsigned_iff (by decide) hput hfits).mpr (by decide)⟩

/-- The largest number without a sign comes back as minus one. -/
theorem getUnsigned_middle : ∃ bs, put .int .middle .none 4294967295 = some bs ∧
    DataType.int.FitsUnsigned 4294967295 ∧ getUnsigned .int .middle .none bs = some (-1, []) := by
  have hfits : DataType.int.FitsUnsigned 4294967295 := ⟨by decide, by decide⟩
  exact ⟨[0xff, 0xff, 0xff, 0xff], by decide, hfits, by decide⟩

end Numbers

end OpenNXT.Net.Buf
