import Mathlib.Data.Rat.Floor
import OpenNXT.Resources.StatExperienceTable

/-! The experience and the levels of a player. -/
namespace OpenNXT.Impl
open Resources

inductive Stat
  | attack | defence | strength | constitution | ranged | prayer | magic | cooking | woodcutting
  | fletching | fishing | firemaking | crafting | smithing | mining | herblore | agility | thieving
  | slayer | farming | runecrafting | hunter | construction | summoning | dungeoneering | divination
  | invention | archaeology | necromancy
  deriving DecidableEq

namespace Stat

def values : List Stat :=
  [attack, defence, strength, constitution, ranged, prayer, magic, cooking, woodcutting, fletching,
    fishing, firemaking, crafting, smithing, mining, herblore, agility, thieving, slayer, farming,
    runecrafting, hunter, construction, summoning, dungeoneering, divination, invention, archaeology,
    necromancy]

/-- The ids count from zero. -/
def id (stat : Stat) : ℕ := values.idxOf stat

end Stat

structure StatDefinition where
  table : StatExperienceTable
  cap : ℤ

structure PlayerStatData where
  experience : ℚ := 0
  actualLevel : ℤ := 1
  boostedLevel : ℤ := 1
  bonusExp : ℚ := 0

namespace PlayerStatData

/-- The most experience there is. -/
def maxExperience : ℚ := 200000000

def validateXp (experience : ℚ) : ℚ :=
  if experience < 0 then 0
  else if maxExperience < experience then maxExperience
  else experience

/-- At most the cap. -/
def calculateLevel (definition : StatDefinition) (xp : ℤ) : ℤ :=
  let level : ℤ := definition.table.levelForXp xp
  if definition.cap < level then definition.cap else level

/-- The levels gained, and the data after it. Experience is an `Int` for the table; it is not
negative there. -/
def addExperience (definition : StatDefinition) (data : PlayerStatData) (amount : ℚ) :
    ℤ × PlayerStatData :=
  let experience := validateXp (data.experience + amount)
  let newLevel := calculateLevel definition ⌊experience⌋
  (newLevel - data.actualLevel, { data with experience := experience, actualLevel := newLevel })

end PlayerStatData

structure UpdateStat where
  stat : ℕ
  level : ℤ
  experience : ℤ

structure PlayerStatContainer where
  stats : Stat → PlayerStatData
  written : List UpdateStat := []

/-- A call of `addExperience`. -/
structure Award where
  stat : Stat
  amount : ℚ
  boostFactor : ℚ
  amount_nonneg : 0 ≤ amount := by norm_num
  boostFactor_nonneg : 0 ≤ boostFactor := by norm_num

namespace PlayerStatContainer

/-- A new player has some constitution. -/
def new : PlayerStatContainer where
  stats stat :=
    if stat = .constitution then { experience := 1154, actualLevel := 10, boostedLevel := 10 }
    else {}

def refresh (c : PlayerStatContainer) (stat : Stat) : PlayerStatContainer :=
  let data := c.stats stat
  { c with written := c.written ++ [⟨stat.id, data.boostedLevel, ⌊data.experience⌋⟩] }

/-- The bonus that is left, and the amount with the bonus that it takes. -/
def takeBonus (bonusExp actualAmount : ℚ) : ℚ × ℚ :=
  if 0 < bonusExp then
    let toAdd := min bonusExp actualAmount
    (bonusExp - toAdd, actualAmount + toAdd)
  else (bonusExp, actualAmount)

/-- The amount that is added is the one of the call, and not the boosted one with the bonus. -/
def addExperience (defs : Stat → StatDefinition) (c : PlayerStatContainer) (a : Award) :
    ℤ × PlayerStatContainer :=
  let data := c.stats a.stat
  let taken := takeBonus data.bonusExp (a.amount * a.boostFactor)
  let added := PlayerStatData.addExperience (defs a.stat) { data with bonusExp := taken.1 } a.amount
  (added.1, refresh { c with stats := Function.update c.stats a.stat added.2 } a.stat)

/-- The container after some calls. -/
def addAll (defs : Stat → StatDefinition) (c : PlayerStatContainer) (awards : List Award) :
    PlayerStatContainer :=
  awards.foldl (fun c a => (addExperience defs c a).2) c

end PlayerStatContainer

section Accounting
open PlayerStatContainer PlayerStatData

/-- Experience between nothing and the most there is, and no debt. -/
structure PlayerStatData.Valid (data : PlayerStatData) : Prop where
  experience_nonneg : 0 ≤ data.experience
  experience_le : data.experience ≤ maxExperience
  bonusExp_nonneg : 0 ≤ data.bonusExp

/-- The bonus that an amount takes. -/
def Award.bonus (a : Award) (data : PlayerStatData) : ℚ := min data.bonusExp (a.amount * a.boostFactor)

/-- The bonus goes down by what is taken, and that is credited with the boosted amount. -/
structure Accounts (before after : PlayerStatData) (a : Award) : Prop where
  bonusExp : after.bonusExp = before.bonusExp - a.bonus before
  experience : after.experience =
    min maxExperience (before.experience + a.amount * a.boostFactor + a.bonus before)

/-- The boosted amount with the bonus is the amount itself, or either of them fills the stat. -/
def Award.Unboosted (a : Award) (data : PlayerStatData) : Prop :=
  a.amount * a.boostFactor + a.bonus data = a.amount ∨
    maxExperience ≤ data.experience + a.amount ∧
      maxExperience ≤ data.experience + a.amount * a.boostFactor + a.bonus data

variable {defs : Stat → StatDefinition} {c : PlayerStatContainer}

theorem validateXp_of_nonneg {xp : ℚ} (h : 0 ≤ xp) : validateXp xp = min maxExperience xp := by
  unfold validateXp
  rw [if_neg (not_lt.mpr h)]
  split_ifs with hmax
  · exact (min_eq_left hmax.le).symm
  · exact (min_eq_right (not_lt.mp hmax)).symm

/-- What a call does to its stat. -/
theorem stats_addExperience (a : Award) (hvalid : (c.stats a.stat).Valid) :
    ((addExperience defs c a).2.stats a.stat).bonusExp =
        (c.stats a.stat).bonusExp - a.bonus (c.stats a.stat) ∧
      ((addExperience defs c a).2.stats a.stat).experience =
        min maxExperience ((c.stats a.stat).experience + a.amount) := by
  have hamount := mul_nonneg a.amount_nonneg a.boostFactor_nonneg
  have hself : (addExperience defs c a).2.stats a.stat =
      (PlayerStatData.addExperience (defs a.stat) { c.stats a.stat with
        bonusExp := (takeBonus (c.stats a.stat).bonusExp (a.amount * a.boostFactor)).1 }
        a.amount).2 :=
    Function.update_self ..
  rw [hself]
  constructor
  · change (takeBonus _ _).1 = _
    unfold takeBonus Award.bonus
    split_ifs with hpos
    · rfl
    · have hzero := le_antisymm (not_lt.mp hpos) hvalid.bonusExp_nonneg
      rw [hzero, min_eq_left hamount, sub_zero]
  · exact validateXp_of_nonneg (add_nonneg hvalid.experience_nonneg a.amount_nonneg)

theorem stats_addExperience_of_ne (a : Award) {stat : Stat} (h : stat ≠ a.stat) :
    (addExperience defs c a).2.stats stat = c.stats stat := Function.update_of_ne h ..

theorem valid_addExperience (a : Award) (hvalid : ∀ stat, (c.stats stat).Valid) (stat : Stat) :
    ((addExperience defs c a).2.stats stat).Valid := by
  by_cases h : stat = a.stat
  · subst h
    obtain ⟨hbonus, hexperience⟩ := @stats_addExperience defs c a (hvalid a.stat)
    have hmax : (0 : ℚ) ≤ maxExperience := by norm_num [maxExperience]
    constructor
    · rw [hexperience]
      exact le_min hmax (add_nonneg (hvalid a.stat).experience_nonneg a.amount_nonneg)
    · rw [hexperience]
      exact min_le_left _ _
    · rw [hbonus]
      exact sub_nonneg.mpr (min_le_left _ _)
  · rw [stats_addExperience_of_ne a h]
    exact hvalid stat

private theorem min_eq_min_iff {m x y : ℚ} : min m x = min m y ↔ x = y ∨ m ≤ x ∧ m ≤ y := by
  constructor
  · intro h
    rcases le_total m x with hx | hx <;> rcases le_total m y with hy | hy
    · exact .inr ⟨hx, hy⟩
    · rw [min_eq_left hx, min_eq_right hy] at h
      exact .inr ⟨hx, h.le⟩
    · rw [min_eq_right hx, min_eq_left hy] at h
      exact .inr ⟨h.ge, hy⟩
    · rw [min_eq_right hx, min_eq_right hy] at h
      exact .inl h
  · rintro (rfl | ⟨hx, hy⟩)
    · rfl
    · rw [min_eq_left hx, min_eq_left hy]

/-- One call accounts for the bonus just where nothing is boosted. -/
theorem accounts_iff_unboosted (a : Award) (hvalid : (c.stats a.stat).Valid) :
    Accounts (c.stats a.stat) ((addExperience defs c a).2.stats a.stat) a ↔
      a.Unboosted (c.stats a.stat) := by
  obtain ⟨hbonus, hexperience⟩ := @stats_addExperience defs c a hvalid
  have hsum : (c.stats a.stat).experience + a.amount =
      (c.stats a.stat).experience + a.amount * a.boostFactor + a.bonus (c.stats a.stat) ↔
        a.amount * a.boostFactor + a.bonus (c.stats a.stat) = a.amount := by
    constructor <;> intro h <;> linarith
  have hiff : Accounts (c.stats a.stat) ((addExperience defs c a).2.stats a.stat) a ↔
      min maxExperience ((c.stats a.stat).experience + a.amount) = min maxExperience
        ((c.stats a.stat).experience + a.amount * a.boostFactor + a.bonus (c.stats a.stat)) := by
    constructor
    · intro h
      rw [← hexperience, h.experience]
    · intro h
      exact ⟨hbonus, hexperience.trans h⟩
  rw [hiff, min_eq_min_iff, hsum, Award.Unboosted]

theorem valid_addAll (awards : List Award) (hvalid : ∀ stat, (c.stats stat).Valid) (stat : Stat) :
    ((addAll defs c awards).stats stat).Valid := by
  induction awards generalizing c with
  | nil => exact hvalid stat
  | cons a awards ih => exact ih (valid_addExperience a hvalid)

theorem addAll_append_singleton (awards : List Award) (a : Award) :
    addAll defs c (awards ++ [a]) =
      (PlayerStatContainer.addExperience defs (addAll defs c awards) a).2 := by
  rw [addAll, List.foldl_append]
  rfl

/-- Every call of a run accounts for its bonus. -/
def RunAccounts (defs : Stat → StatDefinition) (c : PlayerStatContainer) (awards : List Award) : Prop :=
  ∀ before a after, awards = before ++ a :: after →
    Accounts ((addAll defs c before).stats a.stat) ((addAll defs c (before ++ [a])).stats a.stat) a

/-- A run accounts for every bonus just where none of its calls is boosted. -/
theorem runAccounts_iff (defs : Stat → StatDefinition) (c : PlayerStatContainer)
    (awards : List Award) (hvalid : ∀ stat, (c.stats stat).Valid) :
    RunAccounts defs c awards ↔ ∀ before a after, awards = before ++ a :: after →
      a.Unboosted ((addAll defs c before).stats a.stat) := by
  unfold RunAccounts
  refine forall₃_congr fun before a after => imp_congr_right fun _ => ?_
  rw [addAll_append_singleton]
  exact accounts_iff_unboosted a (valid_addAll before hvalid a.stat)

theorem valid_new (stat : Stat) : (new.stats stat).Valid := by
  unfold new
  dsimp only
  split_ifs <;> constructor <;> norm_num [maxExperience]

theorem runAccounts_new :
    RunAccounts (fun _ => ⟨.DEFAULT, 99⟩) new
      [⟨.attack, 25, 1, Rat.natCast_nonneg, Rat.natCast_nonneg⟩] := by
  apply (runAccounts_iff _ new _ valid_new).mpr
  intro before a after h
  rcases List.append_eq_cons_iff.mp h.symm with ⟨rfl, hcons⟩ | ⟨rest, rfl, hrest⟩
  · cases hcons
    left
    norm_num [Award.bonus, addAll, new, show Stat.attack ≠ .constitution by decide]
  · cases List.append_eq_nil_iff.mp hrest.symm with
    | intro _ hnil => cases hnil

/-- A bonus of ten, of which a call for five takes five without adding them. -/
theorem not_runAccounts_bonus :
    ¬ RunAccounts (fun _ => ⟨.DEFAULT, 99⟩) { stats := fun _ => { bonusExp := 10 } }
      [⟨.attack, 5, 1, Rat.natCast_nonneg, Rat.natCast_nonneg⟩] := by
  intro h
  have hvalid : PlayerStatData.Valid { bonusExp := 10 } := by
    constructor <;> norm_num [maxExperience]
  have hfirst := (h [] _ [] rfl).experience
  rw [show addAll _ _ ([] ++ _) = (PlayerStatContainer.addExperience _ _ _).2 from rfl,
    (stats_addExperience _ hvalid).2] at hfirst
  norm_num [Award.bonus, addAll, maxExperience] at hfirst

end Accounting

section Levels
open PlayerStatContainer PlayerStatData

/-- All through a run from a new container the level of a stat is that of its table and no lower than
at first, and no call takes levels away. -/
structure LevelsAgree (defs : Stat → StatDefinition) (stat : Stat) (awards : List Award) : Prop where
  level : ∀ before after, awards = before ++ after →
    ((addAll defs new before).stats stat).actualLevel =
      calculateLevel (defs stat) ⌊((addAll defs new before).stats stat).experience⌋
  initial : ∀ before after, awards = before ++ after →
    (new.stats stat).actualLevel ≤ ((addAll defs new before).stats stat).actualLevel
  gained : ∀ before a after, awards = before ++ a :: after → a.stat = stat →
    0 ≤ (addExperience defs (addAll defs new before) a).1

variable {defs : Stat → StatDefinition} {c : PlayerStatContainer}

theorem calculateLevel_mono (definition : StatDefinition) {xp xp' : ℤ} (h : xp ≤ xp') :
    calculateLevel definition xp ≤ calculateLevel definition xp' := by
  have hlevel := definition.table.levelForXp_mono h
  unfold calculateLevel
  dsimp only
  split_ifs <;> omega

/-- After a call the level is that of the table. -/
theorem actualLevel_addExperience (a : Award) :
    ((addExperience defs c a).2.stats a.stat).actualLevel =
      calculateLevel (defs a.stat) ⌊((addExperience defs c a).2.stats a.stat).experience⌋ := by
  have hself : (addExperience defs c a).2.stats a.stat =
      (PlayerStatData.addExperience (defs a.stat) { c.stats a.stat with
        bonusExp := (takeBonus (c.stats a.stat).bonusExp (a.amount * a.boostFactor)).1 }
        a.amount).2 :=
    Function.update_self ..
  rw [hself]
  rfl

theorem gained_addExperience (a : Award) : (addExperience defs c a).1 =
    calculateLevel (defs a.stat) ⌊validateXp ((c.stats a.stat).experience + a.amount)⌋ -
      (c.stats a.stat).actualLevel := rfl

/-- No levels are lost from a level of the table. -/
theorem gained_nonneg (a : Award) (hvalid : (c.stats a.stat).Valid)
    (hlevel : (c.stats a.stat).actualLevel =
      calculateLevel (defs a.stat) ⌊(c.stats a.stat).experience⌋) :
    0 ≤ (addExperience defs c a).1 := by
  have hsum := add_nonneg hvalid.experience_nonneg a.amount_nonneg
  have hle : (c.stats a.stat).experience ≤ validateXp ((c.stats a.stat).experience + a.amount) := by
    rw [validateXp_of_nonneg hsum]
    exact le_min hvalid.experience_le (le_add_of_nonneg_right a.amount_nonneg)
  have hmono := calculateLevel_mono (defs a.stat) (Int.floor_le_floor hle)
  rw [← hlevel] at hmono
  exact sub_nonneg.mpr hmono

/-- From the first call for a stat on its level is that of the table. -/
theorem actualLevel_addAll (awards : List Award) {a : Award} (ha : a ∈ awards) :
    ((addAll defs c awards).stats a.stat).actualLevel =
      calculateLevel (defs a.stat) ⌊((addAll defs c awards).stats a.stat).experience⌋ := by
  induction awards using List.reverseRecOn with
  | nil => cases ha
  | append_singleton awards b ih =>
    rw [addAll_append_singleton]
    by_cases hb : a.stat = b.stat
    · rw [hb]
      exact actualLevel_addExperience b
    · rcases List.mem_append.mp ha with ha | ha
      · rw [stats_addExperience_of_ne b hb]
        exact ih ha
      · rw [List.mem_singleton.mp ha] at hb
        exact absurd rfl hb

/-- Only the first call for a stat can take levels away. -/
theorem gained_addAll (awards : List Award) (hvalid : ∀ stat, (c.stats stat).Valid) {a b : Award}
    (ha : a ∈ awards) (hb : b.stat = a.stat) :
    0 ≤ (PlayerStatContainer.addExperience defs (addAll defs c awards) b).1 := by
  apply gained_nonneg b (valid_addAll awards hvalid b.stat)
  rw [hb]
  exact actualLevel_addAll awards ha

/-- The table knows no first level, and the tenth is its ninth. -/
theorem calculateLevel_new {stat : Stat} (h : (defs stat).table = .DEFAULT) :
    calculateLevel (defs stat) ⌊(new.stats stat).experience⌋ < (new.stats stat).actualLevel := by
  have hlevel : ∀ {xp level : ℤ}, (StatExperienceTable.DEFAULT.levelForXp xp : ℤ) < level →
      calculateLevel (defs stat) xp < level := by
    intro xp level hlt
    unfold calculateLevel
    rw [h]
    dsimp only
    split_ifs with hcap
    · exact hcap.trans hlt
    · exact hlt
  unfold new
  dsimp only
  split_ifs
  · apply hlevel
    rw [show ⌊(1154 : ℚ)⌋ = 1154 from Int.floor_ofNat 1154, StatExperienceTable.levelForXp,
      StatExperienceTable.default_table]
    norm_num [StatExperienceTable.reached]
  · apply hlevel
    rw [show ⌊(0 : ℚ)⌋ = 0 from Int.floor_zero, StatExperienceTable.levelForXp,
      StatExperienceTable.default_table]
    norm_num [StatExperienceTable.reached]

/-- No stat with the default table has a level of the table at first. -/
theorem not_levelsAgree {stat : Stat} (h : (defs stat).table = .DEFAULT) (awards : List Award) :
    ¬ LevelsAgree defs stat awards := by
  intro hagree
  have hlevel := hagree.level [] awards rfl
  have hlt := calculateLevel_new h
  exact absurd hlevel (ne_of_gt hlt)

theorem not_levelsAgree_strength :
    ¬ LevelsAgree (fun _ => ⟨.DEFAULT, 99⟩) .strength
      [⟨.strength, 82, 1, Rat.natCast_nonneg, Rat.natCast_nonneg⟩] :=
  @not_levelsAgree _ .strength rfl _

/-- Ten points of attack cost the level it has. -/
theorem not_levelsAgree_attack :
    ¬ LevelsAgree (fun _ => ⟨.DEFAULT, 99⟩) .attack
      [⟨.attack, 10, 1, Rat.natCast_nonneg, Rat.natCast_nonneg⟩] := by
  intro h
  have hgained := h.gained [] _ [] rfl rfl
  have hnew : new.stats .attack = {} := by simp [new]
  have hxp : validateXp ((0 : ℚ) + 10) = 10 := by norm_num [validateXp, maxExperience]
  have hlevel : calculateLevel ⟨.DEFAULT, 99⟩ 10 = 0 := by
    rw [calculateLevel, StatExperienceTable.levelForXp, StatExperienceTable.default_table]
    norm_num [StatExperienceTable.reached]
  rw [gained_addExperience] at hgained
  simp only [addAll, List.foldl_nil, hnew, hxp] at hgained
  rw [show ⌊(10 : ℚ)⌋ = 10 from Int.floor_ofNat 10, hlevel] at hgained
  omega

end Levels

end OpenNXT.Impl
