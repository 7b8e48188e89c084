import Mathlib.Data.Int.LeastGreatest
import OpenNXT.Model.Files.ClientConfig

/-! What the search for the token of the cache server finds, and when it ends. -/
namespace OpenNXT.Model.Files
open Buffer Data

namespace ClientConfig
variable {config : ClientConfig}

/-- The values of an `Int`. -/
def IsInt (n : ℤ) : Prop := -2 ^ 31 ≤ n ∧ n < 2 ^ 31

def HasParam (config : ClientConfig) (n : ℤ) : Prop := paramKey n ∈ config.entries

def IsToken (config : ClientConfig) (n : ℤ) (v : Text) : Prop :=
  config.getParam n = some v ∧ v.length = 32

theorem IsToken.hasParam {n : ℤ} {v : Text} (h : config.IsToken n v) : config.HasParam n :=
  Finmap.mem_iff.mpr ⟨v, h.1⟩

theorem paramKey_injective : Function.Injective paramKey := by
  intro m n h
  have hunits : Text.units (Decimal.print m) = Text.units (Decimal.print n) :=
    List.append_cancel_left h
  have hprint : Decimal.print m = Decimal.print n := by
    rw [← Text.scalars_units (Decimal.print m), hunits, Text.scalars_units]
  have hparse := Decimal.parse_print m
  rw [hprint, Decimal.parse_print] at hparse
  exact (Option.some.inj hparse).symm

section CountDown
variable {fuel : ℕ} {max r : BitVec 32}

/-- The loop stops at the first parameter on its way down. -/
theorem countDown_eq_some_iff : config.countDown fuel max = some r ↔
    ∃ k < fuel, r = max - BitVec.ofNat 32 k ∧ config.HasParam r.toInt ∧
      ∀ j < k, ¬ config.HasParam (max - BitVec.ofNat 32 j).toInt := by
  induction fuel generalizing max with
  | zero => simp [countDown]
  | succ fuel ih =>
    have hnext (j : ℕ) : max - 1 - BitVec.ofNat 32 j = max - BitVec.ofNat 32 (j + 1) := by
      rw [BitVec.ofNat_add, BitVec.sub_sub, BitVec.add_comm]
      rfl
    have hzero : max - BitVec.ofNat 32 0 = max := BitVec.sub_zero max
    rw [countDown]
    split_ifs with hmax
    · constructor
      · intro h
        cases h
        exact ⟨0, Nat.succ_pos _, by simp, hmax, fun j hj => absurd hj (Nat.not_lt_zero j)⟩
      · rintro ⟨k, -, rfl, -, hbefore⟩
        cases k with
        | zero => simp
        | succ k =>
          refine absurd hmax ?_
          have hfirst := hbefore 0 (Nat.succ_pos k)
          rwa [hzero] at hfirst
    · rw [ih]
      constructor
      · rintro ⟨k, hk, rfl, hparam, hbefore⟩
        refine ⟨k + 1, Nat.succ_lt_succ hk, hnext k, hparam, fun j hj => ?_⟩
        cases j with
        | zero =>
          rw [hzero]
          exact hmax
        | succ j =>
          rw [← hnext]
          exact hbefore j (Nat.lt_of_succ_lt_succ hj)
      · rintro ⟨k, hk, rfl, hparam, hbefore⟩
        cases k with
        | zero =>
          rw [hzero] at hparam
          exact absurd hparam hmax
        | succ k =>
          refine ⟨k, Nat.lt_of_succ_lt_succ hk, (hnext k).symm, hparam, fun j hj => ?_⟩
          rw [hnext]
          exact hbefore (j + 1) (Nat.succ_lt_succ hj)

/-- The value of the counter behind some turns: below the least number comes the greatest. -/
theorem toInt_counter {k : ℕ} (hk : k < 2 ^ 32) : ((100 : BitVec 32) - BitVec.ofNat 32 k).toInt =
    if k ≤ 2 ^ 31 + 100 then 100 - (k : ℤ) else 100 - (k : ℤ) + 2 ^ 32 := by
  have hcounter : (BitVec.ofNat 32 k).toInt = (k : ℤ).bmod (2 ^ 32) := BitVec.toInt_ofNat' ..
  have hhundred : (100 : BitVec 32).toInt = 100 := rfl
  rw [BitVec.toInt_sub, hcounter, hhundred]
  simp only [Int.bmod_def]
  split_ifs <;> omega

end CountDown

section Highest

/-- No turn of the loop is left to the parameter `n`. -/
def turnsTo (n : ℤ) : ℕ := if n ≤ 100 then (100 - n).toNat else (100 - n + 2 ^ 32).toNat

theorem toInt_turnsTo {n : ℤ} (hn : IsInt n) : turnsTo n < 2 ^ 32 ∧
    ((100 : BitVec 32) - BitVec.ofNat 32 (turnsTo n)).toInt = n := by
  obtain ⟨hlow, hhigh⟩ := hn
  have hlt : turnsTo n < 2 ^ 32 := by
    rw [turnsTo]
    split_ifs <;> omega
  refine ⟨hlt, ?_⟩
  rw [toInt_counter hlt, turnsTo]
  split_ifs <;> omega

/-- The loop ends at `n` when every number it passes before is no parameter. -/
theorem highestParam_of_first {n : ℤ} (hn : IsInt n) (hparam : config.HasParam n)
    (hbefore : ∀ m, IsInt m → turnsTo m < turnsTo n → ¬ config.HasParam m) :
    config.highestParam (turnsTo n + 1) = some (BitVec.ofInt 32 n) := by
  obtain ⟨hlt, hval⟩ := toInt_turnsTo hn
  refine countDown_eq_some_iff.mpr ⟨turnsTo n, Nat.lt_succ_self _, ?_, ?_, fun j hj => ?_⟩
  · rw [← hval, BitVec.ofInt_toInt, hval]
  · rw [BitVec.toInt_ofInt, Int.bmod_eq_of_le (by have := hn.1; omega) (by have := hn.2; omega)]
    exact hparam
  · have hint : IsInt ((100 : BitVec 32) - BitVec.ofNat 32 j).toInt :=
      ⟨BitVec.le_toInt _, BitVec.toInt_lt⟩
    refine hbefore _ hint ?_
    rw [toInt_counter (hj.trans hlt)] at hint ⊢
    rw [turnsTo]
    obtain ⟨hlow, hhigh⟩ := hint
    split_ifs at hlow hhigh ⊢ <;> omega

/-- The highest of the parameters that the loop comes to first. -/
theorem exists_first (h : ∃ n, IsInt n ∧ config.HasParam n) :
    ∃ n, IsInt n ∧ config.HasParam n ∧
      (n ≤ 100 ∨ ∀ m, IsInt m → m ≤ 100 → ¬ config.HasParam m) ∧
      (∀ m, IsInt m → config.HasParam m → (m ≤ 100 ↔ n ≤ 100) → m ≤ n) ∧
      config.highestParam (turnsTo n + 1) = some (BitVec.ofInt 32 n) := by
  by_cases hlow : ∃ m, IsInt m ∧ m ≤ 100 ∧ config.HasParam m
  · obtain ⟨n, ⟨hn, hle, hparam⟩, hgreatest⟩ := Int.exists_greatest_of_bdd
      ⟨100, fun z (hz : IsInt z ∧ z ≤ 100 ∧ config.HasParam z) => hz.2.1⟩ hlow
    refine ⟨n, hn, hparam, Or.inl hle, fun m hm hmp hiff => hgreatest m ⟨hm, hiff.mpr hle, hmp⟩,
      highestParam_of_first hn hparam fun m hm hlt hmp => ?_⟩
    rw [turnsTo, turnsTo, if_pos hle] at hlt
    obtain ⟨hmlow, hmhigh⟩ := hm
    split_ifs at hlt with hmle
    · have hmn := hgreatest m ⟨⟨hmlow, hmhigh⟩, hmle, hmp⟩
      omega
    · have hnlow := hn.1
      omega
  · have hnone : ∀ m, IsInt m → m ≤ 100 → ¬ config.HasParam m :=
      fun m hm hle hmp => hlow ⟨m, hm, hle, hmp⟩
    obtain ⟨n, ⟨hn, hparam⟩, hgreatest⟩ := Int.exists_greatest_of_bdd
      ⟨2 ^ 31, fun z (hz : IsInt z ∧ config.HasParam z) => hz.1.2.le⟩ h
    have hgt : ¬ n ≤ 100 := fun hle => hnone n hn hle hparam
    refine ⟨n, hn, hparam, Or.inr hnone, fun m hm hmp _ => hgreatest m ⟨hm, hmp⟩,
      highestParam_of_first hn hparam fun m hm hlt hmp => ?_⟩
    have hmgt : ¬ m ≤ 100 := fun hle => hnone m hm hle hmp
    have hmn := hgreatest m ⟨hm, hmp⟩
    rw [turnsTo, turnsTo, if_neg hgt, if_neg hmgt] at hlt
    obtain ⟨hmlow, hmhigh⟩ := hm
    omega

theorem highestParam_eq_none (h : ¬ ∃ n, IsInt n ∧ config.HasParam n) (fuel : ℕ) :
    config.highestParam fuel = none := by
  refine Option.eq_none_iff_forall_ne_some.mpr fun r hr => ?_
  obtain ⟨k, -, -, hparam, -⟩ := countDown_eq_some_iff.mp hr
  exact h ⟨_, ⟨r.le_toInt, r.toInt_lt⟩, hparam⟩

end Highest

section Token

private theorem filter_length {config : ClientConfig} {i : ℤ} {v : Text} :
    (config.getParam i).filter (fun test => test.length = 32) = some v ↔ config.IsToken i v := by
  rw [IsToken, Option.filter_eq_some_iff, decide_eq_true_eq]

/-- The search gives the first token below its bound. -/
theorem tokenBelow_cases (config : ClientConfig) (n : ℤ) :
    (∃ (i : ℕ) (v : Text), (i : ℤ) < n ∧ config.IsToken i v ∧
        (∀ j < i, ∀ w, ¬ config.IsToken (j : ℕ) w) ∧ config.tokenBelow n = .ok v) ∨
      (∀ i : ℕ, (i : ℤ) < n → ∀ w, ¬ config.IsToken i w) ∧
        config.tokenBelow n = .error "no js5 token found" := by
  rw [tokenBelow]
  cases hfind : (List.range n.toNat).findSome? fun i : ℕ =>
      (config.getParam i).filter fun test => test.length = 32 with
  | some v =>
    obtain ⟨front, i, back, hsplit, hi, hfront⟩ := List.findSome?_eq_some_iff.mp hfind
    rw [List.range_eq_range', List.range'_eq_append_iff] at hsplit
    obtain ⟨k, hk, rfl, hback⟩ := hsplit
    obtain ⟨hki, hpos, -⟩ := List.range'_eq_cons_iff.mp hback.symm
    have hik : i = k := by omega
    subst hik
    refine Or.inl ⟨i, v, by omega, filter_length.mp hi, fun j hj w hw => ?_, rfl⟩
    have hnone := hfront j (by
      rw [← List.range_eq_range', List.mem_range]
      exact hj)
    rw [filter_length.mpr hw] at hnone
    cases hnone
  | none =>
    refine Or.inr ⟨fun i hi w hw => ?_, rfl⟩
    have hnone := List.findSome?_eq_none_iff.mp hfind i (List.mem_range.mpr (by omega))
    rw [filter_length.mpr hw] at hnone
    cases hnone

/-- The lookup ends. If some of the first 101 parameters has a value of 32 characters, it returns
that of the lowest one, and otherwise it throws. -/
def FindsToken (config : ClientConfig) : Prop :=
  ∃ fuel result, config.getJs5Token fuel = some result ∧
    (∀ (i : ℕ) (v : Text), i ≤ 100 → config.IsToken i v →
      (∀ j < i, ∀ w, ¬ config.IsToken (j : ℕ) w) → result = .ok v) ∧
    ((∀ i : ℕ, i ≤ 100 → ∀ v, ¬ config.IsToken i v) → ∃ e, result = .error e)

/-- There is a parameter. The highest up to 100 is not the only one whose value has 32 characters,
and when there is none up to 100, no other than the highest of all has such a value. -/
structure Searchable (config : ClientConfig) : Prop where
  param : ∃ n, IsInt n ∧ config.HasParam n
  low : ∀ (n : ℕ) (v : Text), n ≤ 100 → config.IsToken n v →
    (∀ m, n < m → m ≤ 100 → ¬ config.HasParam (m : ℕ)) → ∃ j < n, ∃ w, config.IsToken (j : ℕ) w
  high : (∀ m, IsInt m → m ≤ 100 → ¬ config.HasParam m) → ∀ (i : ℕ) (v : Text), IsInt i →
    config.IsToken i v → ∀ m, IsInt m → config.HasParam m → m ≤ i

private theorem countDown_mono {r max : BitVec 32} {fuel more : ℕ} (hle : fuel ≤ more)
    (h : config.countDown fuel max = some r) : config.countDown more max = some r := by
  obtain ⟨k, hk, hrest⟩ := countDown_eq_some_iff.mp h
  exact countDown_eq_some_iff.mpr ⟨k, hk.trans_le hle, hrest⟩

/-- What the lookup gives is what it gives with more fuel. -/
private theorem getJs5Token_of_highest {n : ℤ} (hn : IsInt n) {turns fuel : ℕ}
    (hhighest : config.highestParam turns = some (BitVec.ofInt 32 n)) {result : Except String Text}
    (h : config.getJs5Token fuel = some result) : result = config.tokenBelow n := by
  rw [getJs5Token, Option.bind_eq_bind, Option.bind_eq_some_iff] at h
  obtain ⟨r, hr, hresult⟩ := h
  have hfirst := countDown_mono (Nat.le_add_right fuel turns) hr
  have hsecond := countDown_mono (Nat.le_add_left turns fuel) hhighest
  rw [hfirst, Option.some.injEq] at hsecond
  have hval : (BitVec.ofInt 32 n).toInt = n := by
    obtain ⟨hlow, hhigh⟩ := hn
    rw [BitVec.toInt_ofInt, Int.bmod_eq_of_le (by omega) (by omega)]
  rw [hsecond, hval] at hresult
  exact (Option.some.inj hresult).symm

/-- With the parameter at which the loop ends, the lookup is the search below it. -/
private theorem findsToken_of_highest {n : ℤ} (hn : IsInt n) {turns : ℕ}
    (hhighest : config.highestParam turns = some (BitVec.ofInt 32 n)) : config.FindsToken ↔
      (∀ (i : ℕ) (v : Text), i ≤ 100 → config.IsToken i v →
        (∀ j < i, ∀ w, ¬ config.IsToken (j : ℕ) w) → config.tokenBelow n = .ok v) ∧
      ((∀ i : ℕ, i ≤ 100 → ∀ v, ¬ config.IsToken i v) → ∃ e, config.tokenBelow n = .error e) := by
  constructor
  · rintro ⟨fuel, result, hresult, hfound⟩
    rwa [getJs5Token_of_highest hn hhighest hresult] at hfound
  · intro hfound
    obtain ⟨result, hresult⟩ : ∃ result, config.getJs5Token turns = some result := by
      rw [getJs5Token, hhighest]
      exact ⟨_, rfl⟩
    refine ⟨turns, result, hresult, ?_⟩
    rwa [getJs5Token_of_highest hn hhighest hresult]

private theorem findsToken_low {n : ℤ} (hparam : ∃ n, IsInt n ∧ config.HasParam n)
    (hn : IsInt n) (hnparam : config.HasParam n) (hle : n ≤ 100)
    (hgreatest : ∀ m, IsInt m → config.HasParam m → m ≤ 100 → m ≤ n) {turns : ℕ}
    (hhighest : config.highestParam turns = some (BitVec.ofInt 32 n)) :
    config.FindsToken ↔ config.Searchable := by
  have hint (i : ℕ) (hi : i ≤ 100) : IsInt i := ⟨by omega, by omega⟩
  rw [findsToken_of_highest hn hhighest]
  rcases tokenBelow_cases config n with ⟨i, v, hi, htoken, hfirst, hresult⟩ | ⟨hnone, hresult⟩
  · rw [hresult]
    constructor
    · intro _
      refine ⟨hparam, fun k w hk hkw hlast => ?_, fun hempty => absurd hnparam (hempty n hn hle)⟩
      have hik : i < k := by
        by_contra hge
        exact hlast n.toNat (by omega) (by omega) (by rwa [Int.toNat_of_nonneg (by omega)])
      exact ⟨i, hik, v, htoken⟩
    · intro _
      refine ⟨fun k w hk hkw hkfirst => ?_, fun hempty => absurd htoken (hempty i (by omega) v)⟩
      have hik : i = k := by
        rcases Nat.lt_trichotomy i k with hlt | heq | hlt
        · exact absurd htoken (hkfirst i hlt v)
        · exact heq
        · exact absurd hkw (hfirst k hlt w)
      subst hik
      rw [Option.some.inj (htoken.1.symm.trans hkw.1)]
  · rw [hresult]
    constructor
    · rintro ⟨hlowest, -⟩
      refine ⟨hparam, fun k w hk hkw hlast => ?_, fun hempty => absurd hnparam (hempty n hn hle)⟩
      by_contra hno
      have hok := hlowest k w hk hkw fun j hj u hu => hno ⟨j, hj, u, hu⟩
      cases hok
    · intro h
      refine ⟨fun k w hk hkw hkfirst => ?_, fun _ => ⟨_, rfl⟩⟩
      have hkn := hgreatest k (hint k hk) hkw.hasParam (by omega)
      have hnk : (k : ℤ) = n := by
        rcases lt_or_eq_of_le hkn with hlt | heq
        · exact absurd hkw (hnone k hlt w)
        · exact heq
      obtain ⟨j, hj, u, hu⟩ := h.low k w hk hkw fun m hm hmle hmp => by
        have hmn := hgreatest m (hint m hmle) hmp (by omega)
        omega
      exact absurd hu (hkfirst j hj u)

private theorem findsToken_high {n : ℤ} (hparam : ∃ n, IsInt n ∧ config.HasParam n)
    (hn : IsInt n) (hnparam : config.HasParam n)
    (hempty : ∀ m, IsInt m → m ≤ 100 → ¬ config.HasParam m)
    (hgreatest : ∀ m, IsInt m → config.HasParam m → m ≤ n) {turns : ℕ}
    (hhighest : config.highestParam turns = some (BitVec.ofInt 32 n)) :
    config.FindsToken ↔ config.Searchable := by
  have hnotoken (i : ℕ) (hi : i ≤ 100) (v : Text) : ¬ config.IsToken i v :=
    fun h => hempty i ⟨by omega, by omega⟩ (by omega) h.hasParam
  rw [findsToken_of_highest hn hhighest]
  rcases tokenBelow_cases config n with ⟨i, v, hi, htoken, hfirst, hresult⟩ | ⟨hnone, hresult⟩
  · rw [hresult]
    constructor
    · rintro ⟨-, hthrows⟩
      obtain ⟨e, he⟩ := hthrows hnotoken
      cases he
    · intro h
      have hint : IsInt i := by
        obtain ⟨hlow, hhigh⟩ := hn
        exact ⟨by omega, by omega⟩
      have hni := h.high hempty i v hint htoken n hn hnparam
      omega
  · rw [hresult]
    constructor
    · intro _
      refine ⟨hparam, fun k w hk hkw => absurd hkw (hnotoken k hk w),
        fun _ i v _ hiv m hm hmp => ?_⟩
      have hmn := hgreatest m hm hmp
      by_contra hlt
      exact hnone i (by omega) v hiv
    · intro _
      exact ⟨fun k w hk hkw => absurd hkw (hnotoken k hk w), fun _ => ⟨_, rfl⟩⟩

/-- The lookup does what it is for on the searchable configurations and on no others. -/
theorem findsToken_iff (config : ClientConfig) : config.FindsToken ↔ config.Searchable := by
  by_cases hparam : ∃ n, IsInt n ∧ config.HasParam n
  · obtain ⟨n, hn, hnparam, hrange, hgreatest, hhighest⟩ := exists_first hparam
    by_cases hle : n ≤ 100
    · exact findsToken_low hparam hn hnparam hle
        (fun m hm hmp hmle => hgreatest m hm hmp ⟨fun _ => hle, fun _ => hmle⟩) hhighest
    · have hempty := hrange.resolve_left hle
      refine findsToken_high hparam hn hnparam hempty (fun m hm hmp => ?_) hhighest
      exact hgreatest m hm hmp ⟨fun hmle => absurd hmp (hempty m hm hmle), fun h => absurd h hle⟩
  · constructor
    · rintro ⟨fuel, result, hresult, -⟩
      rw [getJs5Token, highestParam_eq_none hparam] at hresult
      cases hresult
    · exact fun h => absurd h.param hparam

/-- A configuration whose only parameter is a token. -/
def lastOnly : ClientConfig := ⟨Finmap.singleton (paramKey 5) (List.replicate 32 (.ofNat 0x61))⟩

private theorem hasParam_lastOnly {n : ℤ} (h : lastOnly.HasParam n) : n = 5 :=
  paramKey_injective (Finmap.mem_singleton _ _ _ |>.mp h)

/-- The only token is at the end of the search and is not found, and without any parameter the
search has no end. -/
theorem not_findsToken_lastOnly :
    ¬ lastOnly.FindsToken ∧ ∀ fuel, getJs5Token {} fuel = none := by
  constructor
  · rintro ⟨fuel, result, hresult, hlowest, -⟩
    have htoken : lastOnly.IsToken (5 : ℕ) (List.replicate 32 (.ofNat 0x61)) :=
      ⟨Finmap.lookup_singleton_eq, List.length_replicate⟩
    have hno (j : ℕ) (hj : j < 5) (w : Text) : ¬ lastOnly.IsToken j w := fun hw => by
      have hfive := hasParam_lastOnly hw.hasParam
      omega
    obtain ⟨n, hn, hparam, -, -, hhighest⟩ :=
      @exists_first lastOnly ⟨5, ⟨by omega, by omega⟩, htoken.hasParam⟩
    have hok := hlowest 5 _ (by omega) htoken hno
    rw [getJs5Token_of_highest hn hhighest hresult, hasParam_lastOnly hparam] at hok
    rcases tokenBelow_cases lastOnly 5 with ⟨i, v, hi, hiv, -⟩ | ⟨-, herror⟩
    · exact hno i (by omega) v hiv
    · rw [herror] at hok
      cases hok
  · intro fuel
    have hnone : ¬ ∃ n, IsInt n ∧ HasParam {} n := by
      rintro ⟨n, -, hn⟩
      exact Finmap.notMem_empty hn
    rw [getJs5Token, highestParam_eq_none hnone]
    rfl

end Token

end ClientConfig

end OpenNXT.Model.Files
