import OpenNXT.Model.Entity.PlayerInfoEncoder

/-! The change of a region, and its bits behind a removal, an addition or on its own. -/
namespace OpenNXT.Model
open Buffer Transition PlayerInfoEncoder

structure Displacement where
  x : Word
  y : Word
  plane : Word
  deriving DecidableEq

instance : Zero Displacement := ⟨⟨0, 0, 0⟩⟩

def regionDelta (lastHash currentHash : Word) : Displacement where
  x := hashRegionX currentHash - hashRegionX lastHash
  y := hashRegionY currentHash - hashRegionY lastHash
  plane := hashPlane currentHash - hashPlane lastHash

inductive RegionEntry
  | same
  | plane (offset : BitVec 2)
  | neighbour (step : BitVec 5)
  | far (offset : BitVec 20)

namespace RegionEntry

def bits : RegionEntry → List Bool
  | same => [false]
  | plane offset => [true, false, true] ++ fieldBits offset
  | neighbour step => [true, true, false] ++ fieldBits step
  | far offset => [true, true, true] ++ fieldBits offset

/-- The steps to the neighbouring regions. -/
def steps : List (Word × Word) :=
  [(-1, -1), (0, -1), (1, -1), (-1, 0), (1, 0), (-1, 1), (0, 1), (1, 1)]

/-- The difference that an offset makes to a component of `bits` bits. -/
def difference (mask last offset : Word) : Word := (last + offset &&& mask) - last

/-- The change of the region that a viewport holds. -/
def delta (last : Word) : RegionEntry → Displacement
  | same => 0
  | plane offset => ⟨0, 0, difference 0x3 (hashPlane last) (offset.setWidth 32)⟩
  | neighbour step =>
    let (dx, dy) := steps.getD (step.setWidth 3).toNat (0, 0)
    ⟨dx, dy, difference 0x3 (hashPlane last) ((step.ushiftRight 3).setWidth 32)⟩
  | far offset =>
    ⟨difference 0xff (hashRegionX last) ((offset.ushiftRight 8).setWidth 32),
      difference 0xff (hashRegionY last) (offset.setWidth 32),
      difference 0x3 (hashPlane last) ((offset.ushiftRight 16).setWidth 32)⟩

theorem eq_of_comparable {r r' : RegionEntry} (h : Comparable r.bits r'.bits) :
    r = r' := by
  cases r <;> cases r' <;>
    simp_all [bits, comparable_fieldBits_iff]

theorem toNat_and_mask {mask : Word} {k : ℕ} (hmask : mask.toNat = 2 ^ k - 1) (v : Word) :
    (v &&& mask).toNat = v.toNat % 2 ^ k := by
  rw [BitVec.toNat_and, hmask, Nat.and_two_pow_sub_one_eq_mod]

/-- An offset that is right in the low-order bits gives the difference of two components. -/
private theorem difference_eq {mask last current offset : Word} {k : ℕ} (hk : k ≤ 31)
    (hmask : mask.toNat = 2 ^ k - 1) (hc : current.toNat < 2 ^ k)
    (ho : offset.toNat % 2 ^ k = (current - last).toNat % 2 ^ k) :
    difference mask last offset = current - last := by
  have hdvd : 2 ^ k ∣ 2 ^ 32 := Nat.pow_dvd_pow 2 (by omega)
  have hsum : (last + offset) &&& mask = current := by
    apply BitVec.eq_of_toNat_eq
    calc ((last + offset) &&& mask).toNat
        = (last.toNat + offset.toNat) % 2 ^ k := by
          rw [toNat_and_mask hmask, BitVec.toNat_add, Nat.mod_mod_of_dvd _ hdvd]
      _ = (last.toNat + (current - last).toNat) % 2 ^ k := by
          rw [Nat.add_mod, ho, ← Nat.add_mod]
      _ = (last + (current - last)).toNat % 2 ^ k := by
          rw [BitVec.toNat_add, Nat.mod_mod_of_dvd _ hdvd]
      _ = current.toNat := by
          rw [BitVec.add_comm, BitVec.sub_add_cancel, Nat.mod_eq_of_lt hc]
  rw [difference, hsum]

private theorem toNat_component (h : Word) :
    (hashRegionX h).toNat < 2 ^ 8 ∧ (hashRegionY h).toNat < 2 ^ 8 ∧ (hashPlane h).toNat < 2 ^ 2 := by
  have hy : hashRegionY h = h &&& 0xff := BitVec.and_comm ..
  rw [hy, hashRegionX, hashPlane, toNat_and_mask (k := 8) rfl, toNat_and_mask (k := 8) rfl,
    toNat_and_mask (k := 2) rfl]
  omega

private theorem unit_of_abs {c l : Word} (hc : c.toNat < 2 ^ 8) (hl : l.toNat < 2 ^ 8)
    (h : (c - l).abs.sle 1) : c - l = 0 ∨ c - l = 1 ∨ c - l = -1 := by
  have h1 : (1 : Word).toInt = 1 := rfl
  rw [BitVec.sle_iff_toInt_le, h1, BitVec.abs_eq, BitVec.msb_eq_decide] at h
  simp only [decide_eq_true_eq] at h
  split at h <;> rw [BitVec.toInt_eq_toNat_cond] at h <;> split at h <;> bv_omega

/-- The step to a neighbour is known by its opcode. -/
private theorem steps_of_regionOpcode {c l c' l' opcode : Word} (hc : c.toNat < 2 ^ 8)
    (hl : l.toNat < 2 ^ 8) (hc' : c'.toNat < 2 ^ 8) (hl' : l'.toNat < 2 ^ 8)
    (hx : (c - l).abs.sle 1) (hy : (c' - l').abs.sle 1)
    (h : regionOpcode (c - l) (c' - l') = .ok opcode) :
    opcode.toNat < 8 ∧ steps.getD opcode.toNat (0, 0) = (c - l, c' - l') := by
  obtain hx | hx | hx := unit_of_abs hc hl hx <;>
    obtain hy | hy | hy := unit_of_abs hc' hl' hy <;>
    rw [hx, hy] at h ⊢ <;> cases h <;> decide

theorem exists_of_appendRegionHash {target : PlayerEntity} {last current : Word}
    {bits : List Bool} (h : appendRegionHash target last current = .ok bits) :
    ∃ r : RegionEntry, true :: bits = r.bits ∧ r.delta last = regionDelta last current := by
  obtain ⟨hcx, hcy, hcp⟩ := toNat_component current
  obtain ⟨hlx, hly, hlp⟩ := toNat_component last
  rw [appendRegionHash] at h
  generalize hpo : hashPlane current - hashPlane last = planeOffset at h
  have hpo3 : (planeOffset &&& 0x3).toNat = planeOffset.toNat % 2 ^ 2 :=
    toNat_and_mask (k := 2) rfl planeOffset
  split_ifs at h with hsame hnext
  · cases h
    refine ⟨.plane ((planeOffset &&& 0x3).setWidth 2), ?_, ?_⟩
    · rw [bits, fieldBits_setWidth (by omega)]
      rfl
    · have hplane : difference 0x3 (hashPlane last)
          (((planeOffset &&& 0x3).setWidth 2).setWidth 32) = planeOffset := by
        rw [← hpo]
        apply difference_eq (k := 2) (by omega) rfl hcp
        rw [hpo, BitVec.toNat_setWidth, BitVec.toNat_setWidth, hpo3]
        omega
      rw [delta, regionDelta, hplane, hpo, hsame.1, hsame.2, BitVec.sub_self, BitVec.sub_self]
      rfl
  · obtain ⟨opcode, hopcode, hbits⟩ := bind_eq_ok_iff.mp h
    cases hbits
    clear h
    obtain ⟨hlt, hstep⟩ := steps_of_regionOpcode hcx hlx hcy hly hnext.1 hnext.2 hopcode
    have hop : (opcode &&& 0x7).toNat = opcode.toNat % 2 ^ 3 := toNat_and_mask (k := 3) rfl opcode
    have hsum : ((planeOffset &&& 0x3) <<< 3 + (opcode &&& 0x7)).toNat =
        planeOffset.toNat % 4 * 8 + opcode.toNat := by
      rw [BitVec.toNat_add, BitVec.toNat_shiftLeft, hpo3, hop, Nat.shiftLeft_eq]
      omega
    refine ⟨.neighbour (((planeOffset &&& 0x3) <<< 3 + (opcode &&& 0x7)).setWidth 5), ?_, ?_⟩
    · rw [bits, fieldBits_setWidth (by omega)]
      rfl
    · generalize (planeOffset &&& 0x3) <<< 3 + (opcode &&& 0x7) = sum at hsum
      have hlow : ((sum.setWidth 5).setWidth 3).toNat = opcode.toNat := by
        rw [BitVec.toNat_setWidth, BitVec.toNat_setWidth, hsum]
        omega
      have hplane : difference 0x3 (hashPlane last)
          (((sum.setWidth 5).ushiftRight 3).setWidth 32) = planeOffset := by
        rw [← hpo]
        apply difference_eq (k := 2) (by omega) rfl hcp
        rw [hpo, BitVec.toNat_setWidth, BitVec.ushiftRight_eq, BitVec.toNat_ushiftRight,
          BitVec.toNat_setWidth, hsum, Nat.shiftRight_eq_div_pow]
        omega
      rw [delta, regionDelta, hlow, hstep, hplane, hpo]
  · cases h
    generalize hdx : hashRegionX current - hashRegionX last = dx
    generalize hdy : hashRegionY current - hashRegionY last = dy
    generalize hsum : (dy &&& 0xff) + (dx &&& 0xff) <<< 8 + (planeOffset &&& 0x3) <<< 16 +
      (target.movement.speed.id + 1) <<< 18 = sum
    have hnat : sum.toNat % 2 ^ 18 =
        dy.toNat % 256 + dx.toNat % 256 * 256 + planeOffset.toNat % 4 * 65536 := by
      rw [← hsum, BitVec.toNat_add, BitVec.toNat_add, BitVec.toNat_add, BitVec.toNat_shiftLeft,
        BitVec.toNat_shiftLeft, BitVec.toNat_shiftLeft, hpo3, toNat_and_mask (k := 8) rfl,
        toNat_and_mask (k := 8) rfl, Nat.shiftLeft_eq, Nat.shiftLeft_eq, Nat.shiftLeft_eq]
      omega
    refine ⟨.far (sum.setWidth 20), ?_, ?_⟩
    · rw [bits, fieldBits_setWidth (by omega)]
      rfl
    · have hx : difference 0xff (hashRegionX last)
          (((sum.setWidth 20).ushiftRight 8).setWidth 32) = dx := by
        rw [← hdx]
        apply difference_eq (k := 8) (by omega) rfl hcx
        rw [hdx, BitVec.toNat_setWidth, BitVec.ushiftRight_eq, BitVec.toNat_ushiftRight,
          BitVec.toNat_setWidth, Nat.shiftRight_eq_div_pow]
        omega
      have hy : difference 0xff (hashRegionY last) ((sum.setWidth 20).setWidth 32) = dy := by
        rw [← hdy]
        apply difference_eq (k := 8) (by omega) rfl hcy
        rw [hdy, BitVec.toNat_setWidth, BitVec.toNat_setWidth]
        omega
      have hplane : difference 0x3 (hashPlane last)
          (((sum.setWidth 20).ushiftRight 16).setWidth 32) = planeOffset := by
        rw [← hpo]
        apply difference_eq (k := 2) (by omega) rfl hcp
        rw [hpo, BitVec.toNat_setWidth, BitVec.ushiftRight_eq, BitVec.toNat_ushiftRight,
          BitVec.toNat_setWidth, Nat.shiftRight_eq_div_pow]
        omega
      rw [delta, regionDelta, hx, hy, hplane, hdx, hdy, hpo]

/-- Neighbouring regions that are not the same have an opcode. -/
private theorem exists_regionOpcode {c l c' l' : Word} (hc : c.toNat < 2 ^ 8)
    (hl : l.toNat < 2 ^ 8) (hc' : c'.toNat < 2 ^ 8) (hl' : l'.toNat < 2 ^ 8)
    (hx : (c - l).abs.sle 1) (hy : (c' - l').abs.sle 1) (hne : ¬(l = c ∧ l' = c')) :
    ∃ opcode, regionOpcode (c - l) (c' - l') = .ok opcode := by
  obtain hx | hx | hx := unit_of_abs hc hl hx <;>
    obtain hy | hy | hy := unit_of_abs hc' hl' hy <;> rw [hx, hy]
  · have hx : l = c := by bv_omega
    have hy : l' = c' := by bv_omega
    exact absurd ⟨hx, hy⟩ hne
  all_goals exact ⟨_, rfl⟩

/-- Whatever the last hash, the bits for a region can be put. -/
theorem exists_appendRegionHash (target : PlayerEntity) (last current : Word) :
    ∃ bits, appendRegionHash target last current = .ok bits := by
  obtain ⟨hcx, hcy, -⟩ := toNat_component current
  obtain ⟨hlx, hly, -⟩ := toNat_component last
  rw [appendRegionHash]
  split_ifs with hsame hnext
  · exact ⟨_, rfl⟩
  · obtain ⟨opcode, hopcode⟩ := exists_regionOpcode hcx hlx hcy hly hnext.1 hnext.2 hsame
    rw [hopcode]
    exact ⟨_, rfl⟩
  · exact ⟨_, rfl⟩

/-- The bits for a region are those of an entry, which with the old hash gives the change. -/
theorem exists_of_putRegion {target : PlayerEntity} {last : Word} {bits : List Bool}
    (h : putRegion target last = .ok bits) :
    ∃ r : RegionEntry, bits = r.bits ∧
      r.delta last = regionDelta last target.location.regionHash := by
  rw [putRegion] at h
  split at h
  case isTrue heq =>
    cases h
    refine ⟨.same, rfl, ?_⟩
    rw [heq, regionDelta, delta, BitVec.sub_self, BitVec.sub_self, BitVec.sub_self]
    rfl
  case isFalse =>
    obtain ⟨rest, hrest, hbits⟩ := bind_eq_ok_iff.mp h
    cases hbits
    exact exists_of_appendRegionHash hrest

end RegionEntry

/-- Coordinates of fourteen bits, on one of four planes. -/
def TileLocation.InRange (l : TileLocation) : Prop :=
  l.x.toNat < 2 ^ 14 ∧ l.y.toNat < 2 ^ 14 ∧ l.plane.toNat < 2 ^ 2

section Hashes

private theorem toNat_sshiftRight {v : Word} (h : v.toNat < 2 ^ 31) (n : ℕ) :
    (v.sshiftRight n).toNat = v.toNat / 2 ^ n := by
  have hmsb : v.msb = false := by
    rw [BitVec.msb_eq_decide, decide_eq_false_iff_not]
    omega
  rw [BitVec.sshiftRight_eq_of_msb_false hmsb, BitVec.toNat_ushiftRight, Nat.shiftRight_eq_div_pow]

/-- In range the hash holds the region and the plane. -/
theorem TileLocation.InRange.hash_eq {l : TileLocation} (h : l.InRange) :
    hashRegionX l.regionHash = l.regionX ∧ hashRegionY l.regionHash = l.regionY ∧
      hashPlane l.regionHash = l.plane := by
  obtain ⟨hx, hy, hp⟩ := h
  have hrx : l.regionX.toNat = l.x.toNat / 64 := toNat_sshiftRight (by omega) 6
  have hry : l.regionY.toNat = l.y.toNat / 64 := toNat_sshiftRight (by omega) 6
  have hhash : l.regionHash.toNat =
      l.y.toNat / 64 + l.x.toNat / 64 * 256 + l.plane.toNat * 65536 := by
    rw [TileLocation.regionHash, BitVec.toNat_add, BitVec.toNat_add, BitVec.toNat_shiftLeft,
      BitVec.toNat_shiftLeft, hrx, hry, Nat.shiftLeft_eq, Nat.shiftLeft_eq]
    omega
  have hsmall : l.regionHash.toNat < 2 ^ 31 := by omega
  have hcomm : hashRegionY l.regionHash = l.regionHash &&& 0xff := BitVec.and_comm ..
  refine ⟨?_, ?_, ?_⟩
  · apply BitVec.eq_of_toNat_eq
    rw [hashRegionX, RegionEntry.toNat_and_mask (k := 8) rfl, toNat_sshiftRight hsmall, hhash, hrx]
    omega
  · apply BitVec.eq_of_toNat_eq
    rw [hcomm, RegionEntry.toNat_and_mask (k := 8) rfl, hhash, hry]
    omega
  · apply BitVec.eq_of_toNat_eq
    rw [hashPlane, RegionEntry.toNat_and_mask (k := 2) rfl, toNat_sshiftRight hsmall, hhash]
    omega

end Hashes

/-- The bits for a region can always be put, and with the last hash they say what the region is: none
begin the bits for another region. -/
theorem appendRegionHash_decodable (last : Word) :
    (∀ target : PlayerEntity, ∃ bits,
      appendRegionHash target last target.location.regionHash = .ok bits) ∧
    ∀ (target target' : PlayerEntity) (bits bits' : List Bool),
      target.location.InRange → target'.location.InRange →
      appendRegionHash target last target.location.regionHash = .ok bits →
      appendRegionHash target' last target'.location.regionHash = .ok bits' → bits <+: bits' →
      target.location.regionX = target'.location.regionX ∧
        target.location.regionY = target'.location.regionY ∧
        target.location.plane = target'.location.plane := by
  refine ⟨fun target => RegionEntry.exists_appendRegionHash target last _, ?_⟩
  intro target target' bits bits' hl hl' h h' hprefix
  obtain ⟨r, hr, hdelta⟩ := RegionEntry.exists_of_appendRegionHash h
  obtain ⟨r', hr', hdelta'⟩ := RegionEntry.exists_of_appendRegionHash h'
  have hcomparable : Comparable r.bits r'.bits := by
    rw [← hr, ← hr', comparable_cons_iff]
    exact ⟨rfl, .inl hprefix⟩
  rw [RegionEntry.eq_of_comparable hcomparable, hdelta'] at hdelta
  obtain ⟨hx, hy, hp⟩ := hl.hash_eq
  obtain ⟨hx', hy', hp'⟩ := hl'.hash_eq
  have hback : ∀ a b c : Word, a - c = b - c → b = a := by
    intro a b c habc
    rw [← BitVec.sub_add_cancel b c, ← habc, BitVec.sub_add_cancel]
  refine ⟨?_, ?_, ?_⟩
  · rw [← hx, ← hx']
    exact hback _ _ _ (congrArg Displacement.x hdelta)
  · rw [← hy, ← hy']
    exact hback _ _ _ (congrArg Displacement.y hdelta)
  · rw [← hp, ← hp']
    exact hback _ _ _ (congrArg Displacement.plane hdelta)

end OpenNXT.Model
