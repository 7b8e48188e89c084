import OpenNXT.Model.Entity.RegionEntries

/-! What the bits for a local player can be, and what they mean. -/
namespace OpenNXT.Model
open Buffer PlayerInfoEncoder RegionEntry

namespace Displacement

def near (d : Displacement) : Bool := absLt d.x 16 && absLt d.y 16

def nearField (speed : MovementSpeed) (d : Displacement) : BitVec 15 :=
  (fiveBits d.y + fiveBits d.x <<< 5 + (d.plane &&& 0x3) <<< 10 +
    (speed.id + 1) <<< 12).setWidth 15

def farField (d : Displacement) : BitVec 30 :=
  ((d.y &&& 0x3fff) + (d.x &&& 0x3fff) <<< 14 + (d.plane &&& 0x3) <<< 28).setWidth 30

/-- What the five bits of an offset count for, with a carry. -/
def offset (v : Word) : ℤ := if v.toInt < 0 then v.toInt + 32 else v.toInt

/-- What a near teleport sends of a displacement. -/
def nearSum (d : Displacement) : ℤ := offset d.y + 32 * offset d.x + 1024 * (d.plane.toNat % 4)

/-- A displacement of one or two steps. -/
def Short (d : Displacement) : Prop :=
  (-2 ≤ d.x.toInt ∧ d.x.toInt ≤ 2) ∧ (-2 ≤ d.y.toInt ∧ d.y.toInt ≤ 2) ∧ d.plane = 0

theorem toNat_nearField (speed : MovementSpeed) (d : Displacement) :
    ((nearField speed d).toNat : ℤ) = (nearSum d + 4096 * (speed.id + 1).toNat) % 2 ^ 15 := by
  have hfive (v : Word) : ((fiveBits v).toNat : ℤ) % 2 ^ 32 = offset v % 2 ^ 32 := by
    have hzero : v.slt 0 = true ↔ v.toInt < 0 := BitVec.slt_iff_toInt_lt
    have hint := BitVec.toInt_eq_toNat_cond v
    have hsum : (v + 32).toNat = (v.toNat + 32) % 2 ^ 32 := BitVec.toNat_add v 32
    rw [fiveBits, offset]
    by_cases hneg : v.toInt < 0
    · rw [if_pos (hzero.mpr hneg), if_pos hneg]
      split_ifs at hint <;> omega
    · rw [if_neg (fun h => hneg (hzero.mp h)), if_neg hneg]
      split_ifs at hint <;> omega
  have hplane : (d.plane &&& 0x3).toNat = d.plane.toNat % 4 :=
    toNat_and_mask (k := 2) rfl d.plane
  have hx := hfive d.x
  have hy := hfive d.y
  rw [nearField, nearSum, BitVec.toNat_setWidth, BitVec.toNat_add, BitVec.toNat_add,
    BitVec.toNat_add, BitVec.toNat_shiftLeft, BitVec.toNat_shiftLeft, BitVec.toNat_shiftLeft,
    hplane, Nat.shiftLeft_eq, Nat.shiftLeft_eq, Nat.shiftLeft_eq]
  omega

private theorem bounds_of_absLt {v : Word} (h : absLt v 16) :
    (-16 < v.toInt ∧ v.toInt < 16) ∨ v.toInt = -2 ^ 31 := by
  have h16 : (16 : Word).toInt = 16 := rfl
  have hint := BitVec.toInt_eq_toNat_cond v
  have hneg : (-v).toNat = (2 ^ 32 - v.toNat) % 2 ^ 32 := BitVec.toNat_neg v
  rw [absLt, BitVec.slt_iff_toInt_lt, h16, BitVec.abs_eq, BitVec.msb_eq_decide] at h
  simp only [decide_eq_true_eq] at h
  split at h <;> rw [BitVec.toInt_eq_toNat_cond] at h <;> split_ifs at h hint <;> omega

/-- A near teleport fills at most the field above it. -/
private theorem nearSum_mod {d : Displacement} (h : d.near) :
    ∃ s : ℤ, 0 ≤ s ∧ s ≤ 4128 ∧ nearSum d % 2 ^ 15 = s % 2 ^ 15 := by
  obtain ⟨hx, hy⟩ : absLt d.x 16 = true ∧ absLt d.y 16 = true := by simpa [near] using h
  have hoffset {v : Word} (hv : absLt v 16) :
      ∃ s : ℤ, 0 ≤ s ∧ s ≤ 32 ∧ offset v % 2 ^ 15 = s % 2 ^ 15 := by
    rw [offset]
    obtain hv | hv := bounds_of_absLt hv
    · split_ifs
      · exact ⟨v.toInt + 32, by omega, by omega, rfl⟩
      · exact ⟨v.toInt, by omega, by omega, rfl⟩
    · rw [hv]
      exact ⟨32, by omega, by omega, rfl⟩
  obtain ⟨x, hx0, hx32, hx⟩ := hoffset hx
  obtain ⟨y, hy0, hy32, hy⟩ := hoffset hy
  refine ⟨y + 32 * x + 1024 * (d.plane.toNat % 4), by omega, by omega, ?_⟩
  rw [nearSum]
  omega

private theorem nearSum_short {d : Displacement} (h : d.Short) :
    0 ≤ nearSum d ∧ nearSum d < 1024 := by
  obtain ⟨hx, hy, hplane⟩ := h
  have h0 : (0 : Word).toNat = 0 := rfl
  rw [nearSum, offset, offset, hplane, h0]
  split_ifs <;> omega

private theorem eq_of_nearSum_short {d d' : Displacement} (h : d.Short) (h' : d'.Short)
    (hsum : nearSum d = nearSum d') : d = d' := by
  obtain ⟨hx, hy, hplane⟩ := h
  obtain ⟨hx', hy', hplane'⟩ := h'
  have h0 : (0 : Word).toNat = 0 := rfl
  rw [nearSum, nearSum, offset, offset, offset, offset, hplane, hplane', h0] at hsum
  have heq : d.x.toInt = d'.x.toInt ∧ d.y.toInt = d'.y.toInt := by
    split_ifs at hsum <;> omega
  obtain ⟨x, y, plane⟩ := d
  obtain ⟨x', y', plane'⟩ := d'
  rw [BitVec.toInt_inj, BitVec.toInt_inj] at heq
  simp_all

private theorem toNat_speed (speed : MovementSpeed) :
    (speed.id + 1).toNat ≤ 4 ∧ (speed ≠ .instant → (speed.id + 1).toNat < 4) := by
  cases speed <;> decide

private theorem speed_inj {speed speed' : MovementSpeed}
    (h : (speed.id + 1).toNat = (speed'.id + 1).toNat) : speed = speed' := by
  revert h
  cases speed <;> cases speed' <;> decide

/-- A near field gives the speed, and the displacement of all but the fastest players. -/
theorem eq_of_nearField {speed speed' : MovementSpeed} {d d' : Displacement}
    (hn : d.near) (hn' : d'.near) (hs : speed = .instant ∨ d.Short)
    (hs' : speed' = .instant ∨ d'.Short) (h : nearField speed d = nearField speed' d') :
    speed = speed' ∧
      (d = d' ∨ (speed = .instant ∧ nearSum d % 2 ^ 15 = nearSum d' % 2 ^ 15)) := by
  have hfield := congrArg (fun f : BitVec 15 => (f.toNat : ℤ)) h
  simp only [toNat_nearField] at hfield
  obtain ⟨s, hs0, hs1, hsum⟩ := nearSum_mod hn
  obtain ⟨s', hs0', hs1', hsum'⟩ := nearSum_mod hn'
  have hle := toNat_speed speed
  have hle' := toNat_speed speed'
  by_cases hi : speed = .instant
  · by_cases hi' : speed' = .instant
    · refine ⟨hi.trans hi'.symm, .inr ⟨hi, ?_⟩⟩
      rw [hi, hi'] at hfield
      omega
    · have hshort' := nearSum_short (hs'.resolve_left hi')
      have hlt' := hle'.2 hi'
      have hfour : (speed.id + 1).toNat = 4 := by rw [hi]; rfl
      omega
  · have hshort := hs.resolve_left hi
    have hlt := hle.2 hi
    have hbound := nearSum_short hshort
    by_cases hi' : speed' = .instant
    · have hfour : (speed'.id + 1).toNat = 4 := by rw [hi']; rfl
      omega
    · have hshort' := hs'.resolve_left hi'
      have hlt' := hle'.2 hi'
      have hbound' := nearSum_short hshort'
      refine ⟨speed_inj (by omega), .inl (eq_of_nearSum_short hshort hshort' (by omega))⟩

theorem nearField_instant_eq {d d' : Displacement}
    (h : nearSum d % 2 ^ 15 = nearSum d' % 2 ^ 15) :
    nearField .instant d = nearField .instant d' := by
  have hnat : ((nearField .instant d).toNat : ℤ) = (nearField .instant d').toNat := by
    rw [toNat_nearField, toNat_nearField]
    omega
  apply BitVec.eq_of_toNat_eq
  omega

theorem farField_eq_iff (d d' : Displacement) :
    farField d = farField d' ↔ d.x.toNat % 2 ^ 14 = d'.x.toNat % 2 ^ 14 ∧
      d.y.toNat % 2 ^ 14 = d'.y.toNat % 2 ^ 14 ∧ d.plane.toNat % 4 = d'.plane.toNat % 4 := by
  have hnat (d : Displacement) : (farField d).toNat = d.y.toNat % 2 ^ 14 +
      d.x.toNat % 2 ^ 14 * 2 ^ 14 + d.plane.toNat % 4 * 2 ^ 28 := by
    rw [farField, BitVec.toNat_setWidth, BitVec.toNat_add, BitVec.toNat_add,
      BitVec.toNat_shiftLeft, BitVec.toNat_shiftLeft, toNat_and_mask (k := 14) rfl,
      toNat_and_mask (k := 14) rfl, toNat_and_mask (k := 2) rfl, Nat.shiftLeft_eq,
      Nat.shiftLeft_eq]
    omega
  rw [← BitVec.toNat_inj, hnat, hnat]
  omega

end Displacement

/-- The steps of the walk opcodes. -/
def walkSteps : List (Word × Word) :=
  [(-1, -1), (0, -1), (1, -1), (-1, 0), (1, 0), (-1, 1), (0, 1), (1, 1)]

/-- The steps of the run opcodes. -/
def runSteps : List (Word × Word) :=
  [(-2, -2), (-1, -2), (0, -2), (1, -2), (2, -2), (-2, -1), (2, -1), (-2, 0), (2, 0), (-2, 1),
    (2, 1), (-2, 2), (-1, 2), (0, 2), (1, 2), (2, 2)]

/-- The directions that a first step around a corner can have. -/
def firstSteps : List CompassPoint := [.north, .west, .east, .south]

def alongGround (step : Word × Word) : Displacement := ⟨step.1, step.2, 0⟩

private theorem ok_or_of_ite {c : Prop} [Decidable c] {k opcode : Word}
    {other : Except PlayerInfoError Word} (h : (if c then .ok k else other) = .ok opcode) :
    (c ∧ k = opcode) ∨ other = .ok opcode := by
  split_ifs at h with hc
  · exact .inl ⟨hc, Except.ok.inj h⟩
  · exact .inr h

theorem walkSteps_of_getWalkOpcode {dx dy opcode : Word}
    (h : getWalkOpcode dx dy = .ok opcode) :
    walkSteps.getD (opcode.setWidth 3).toNat (0, 0) = (dx, dy) := by
  unfold getWalkOpcode at h
  repeat
    obtain ⟨⟨rfl, rfl⟩, rfl⟩ | h := ok_or_of_ite h
    · rfl
  cases h

theorem runSteps_of_getRunOpcode {dx dy opcode : Word}
    (h : getRunOpcode dx dy = .ok opcode) :
    runSteps.getD (opcode.setWidth 4).toNat (0, 0) = (dx, dy) := by
  unfold getRunOpcode at h
  repeat
    obtain ⟨⟨rfl, rfl⟩, rfl⟩ | h := ok_or_of_ite h
    · rfl
  cases h

theorem firstSteps_of_firstStep {first : CompassPoint} {code : Word}
    (h : firstStep first = .ok code) : firstSteps.getD (code.setWidth 2).toNat .north = first := by
  cases first <;> cases h <;> rfl

inductive MovementMode
  | still
  | walk
  /-- A walk and a run step with one corner between them. -/
  | corner (first : CompassPoint)
  | run
  | teleport (speed : MovementSpeed)
  deriving DecidableEq

/-- What happens to a local player. -/
inductive LocalChange
  | removed (region : Displacement)
  | moved (mode : MovementMode) (displacement : Displacement) (mask : Bool)
  deriving DecidableEq

inductive LocalEntry
  | unchanged (skipCount : ℕ)
  | removed (region : RegionEntry)
  | still (mask : Bool)
  | walk (mask : Bool) (opcode : BitVec 3)
  | corner (mask : Bool) (opcode : BitVec 3) (first : BitVec 2)
  | run (mask : Bool) (opcode : BitVec 4)
  | near (mask : Bool) (offset : BitVec 15)
  | far (mask : Bool) (offset : BitVec 30)

namespace LocalEntry

def bits : LocalEntry → List Bool
  | unchanged skipCount => false :: putSkip skipCount
  | removed region => [true, false, false, false] ++ region.bits
  | still mask => [true, mask, false, false]
  | walk mask opcode => [true, mask, false, true] ++ (fieldBits opcode ++ [false])
  | corner mask opcode first =>
    [true, mask, false, true] ++ (fieldBits opcode ++
      true :: fieldBits first)
  | run mask opcode => [true, mask, true, false] ++ fieldBits opcode
  | near mask offset => [true, mask, true, true, false] ++ fieldBits offset
  | far mask offset =>
    [true, mask, true, true, true, true, false, false] ++ fieldBits offset

end LocalEntry

namespace LocalEntry

/-- No two kinds of entries but a player that stays and one that goes begin alike. -/
theorem eq_of_comparable {e e' : LocalEntry} (h : Comparable e.bits e'.bits) :
    e = e' ∨ (∃ n n', e = unchanged n ∧ e' = unchanged n') ∨
      (∃ r, e = still false ∧ e' = removed r) ∨ (∃ r, e = removed r ∧ e' = still false) := by
  cases e with
  | unchanged n => cases e' <;> simp_all [bits]
  | removed r =>
    cases e' with
    | removed r' =>
      left
      have hr : Comparable r.bits r'.bits := by simpa [bits] using h
      rw [RegionEntry.eq_of_comparable hr]
    | _ => simp_all [bits]
  | still mask => cases e' <;> simp_all [bits]
  | walk mask opcode =>
    cases e' with
    | walk mask' opcode' => simp_all [bits, comparable_fieldBits_append_iff]
    | corner mask' opcode' first => simp_all [bits, comparable_fieldBits_append_iff]
    | _ => simp_all [bits]
  | corner mask opcode first =>
    cases e' with
    | walk mask' opcode' => simp_all [bits, comparable_fieldBits_append_iff]
    | corner mask' opcode' first' =>
      simp_all [bits, comparable_fieldBits_append_iff, comparable_fieldBits_iff]
    | _ => simp_all [bits]
  | run mask opcode => cases e' <;> simp_all [bits, comparable_fieldBits_iff]
  | near mask offset => cases e' <;> simp_all [bits, comparable_fieldBits_iff]
  | far mask offset => cases e' <;> simp_all [bits, comparable_fieldBits_iff]

end LocalEntry

/-- What an entry says, for the region that the viewport holds. -/
inductive Says (lastHash : Word) : LocalEntry → LocalChange → Prop
  | unchanged (skipCount : ℕ) : Says lastHash (.unchanged skipCount) (.moved .still 0 false)
  | removed (region : RegionEntry) :
    Says lastHash (.removed region) (.removed (region.delta lastHash))
  | still (mask : Bool) : Says lastHash (.still mask) (.moved .still 0 mask)
  | walk (mask : Bool) (opcode : BitVec 3) : Says lastHash (.walk mask opcode)
      (.moved .walk (alongGround (walkSteps.getD opcode.toNat (0, 0))) mask)
  | corner (mask : Bool) (opcode : BitVec 3) (first : BitVec 2) :
    Says lastHash (.corner mask opcode first)
      (.moved (.corner (firstSteps.getD first.toNat .north))
        (alongGround (walkSteps.getD opcode.toNat (0, 0))) mask)
  | run (mask : Bool) (opcode : BitVec 4) : Says lastHash (.run mask opcode)
      (.moved .run (alongGround (runSteps.getD opcode.toNat (0, 0))) mask)
  | near (mask : Bool) (speed : MovementSpeed) (d : Displacement) (hn : d.near)
      (hs : speed = .instant ∨ d.Short) :
    Says lastHash (.near mask (d.nearField speed)) (.moved (.teleport speed) d mask)
  | far (mask : Bool) (d : Displacement) (hn : ¬ d.near) :
    Says lastHash (.far mask d.farField) (.moved (.teleport .instant) d mask)

/-- Displacements that differ, but not in what is sent of them: near ones by more than their
plane only with an offset whose absolute value is negative. -/
def Displacement.Aliased (d d' : Displacement) : Prop :=
  d ≠ d' ∧
    ((d.near ∧ d'.near ∧ d.nearSum % 2 ^ 15 = d'.nearSum % 2 ^ 15) ∨
      (¬ d.near ∧ ¬ d'.near ∧ d.x.toNat % 2 ^ 14 = d'.x.toNat % 2 ^ 14 ∧
        d.y.toNat % 2 ^ 14 = d'.y.toNat % 2 ^ 14 ∧ d.plane.toNat % 4 = d'.plane.toNat % 4))

/-- Two teleports with one mask flag, by displacements that are sent alike. -/
def LocalChange.Aliased (c c' : LocalChange) : Prop :=
  ∃ d d' mask, c = .moved (.teleport .instant) d mask ∧
    c' = .moved (.teleport .instant) d' mask ∧ d.Aliased d'

namespace Says
variable {lastHash : Word} {e e' : LocalEntry} {c c' : LocalChange}

/-- An entry says one thing, but for teleports that are sent alike. -/
theorem eq_or_aliased (h : Says lastHash e c) (h' : Says lastHash e c') :
    c = c' ∨ c.Aliased c' := by
  cases h with
  | near mask speed d hn hs =>
    generalize hfield : d.nearField speed = field at h'
    cases h' with
    | near _ speed' d' hn' hs' =>
      obtain ⟨rfl, rfl | ⟨rfl, hsum⟩⟩ := Displacement.eq_of_nearField hn hn' hs hs' hfield
      · exact .inl rfl
      · by_cases hd : d = d'
        · exact .inl (by rw [hd])
        · exact .inr ⟨d, d', mask, rfl, rfl, hd, .inl ⟨hn, hn', hsum⟩⟩
  | far mask d hn =>
    generalize hfield : d.farField = field at h'
    cases h' with
    | far _ d' hn' =>
      by_cases hd : d = d'
      · exact .inl (by rw [hd])
      · have hparts := (Displacement.farField_eq_iff d d').mp hfield
        exact .inr ⟨d, d', mask, rfl, rfl, hd, .inr ⟨hn, hn', hparts⟩⟩
  | _ =>
    cases h'
    exact .inl rfl

/-- Teleports that are sent alike have one entry. -/
theorem eq_of_aliased (h : Says lastHash e c) (h' : Says lastHash e' c') (ha : c.Aliased c') :
    e = e' := by
  obtain ⟨d, d', mask, rfl, rfl, -, hd⟩ := ha
  cases h with
  | near _ _ _ hn hs =>
    cases h' with
    | near _ _ _ hn' hs' =>
      obtain ⟨-, -, hsum⟩ | ⟨hfar, -⟩ := hd
      · rw [Displacement.nearField_instant_eq hsum]
      · exact absurd hn hfar
    | far _ _ hn' =>
      obtain ⟨-, hnear, -⟩ | ⟨hfar, -⟩ := hd
      · exact absurd hnear hn'
      · exact absurd hn hfar
  | far _ _ hn =>
    cases h' with
    | near _ _ _ hn' hs' =>
      obtain ⟨hnear, -⟩ | ⟨-, hfar, -⟩ := hd
      · exact absurd hnear hn
      · exact absurd hn' hfar
    | far _ _ hn' =>
      obtain ⟨hnear, -⟩ | ⟨-, -, hparts⟩ := hd
      · exact absurd hnear hn
      · rw [(Displacement.farField_eq_iff d d').mpr hparts]

end Says
end OpenNXT.Model
