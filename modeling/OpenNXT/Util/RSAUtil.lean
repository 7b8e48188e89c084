import OpenNXT.Data.Hexadecimal

/-! The search for a public key in the strings of a binary. -/
namespace OpenNXT.Util
open Buffer Data

namespace RSAUtil

inductive SearchException
  | negativeArraySize
  | indexOutOfBounds
deriving DecidableEq

/-- `data[i]`. -/
def byteAt (data : List Byte) (i : ℕ) : Except SearchException Byte :=
  match data[i]? with
  | some b => .ok b
  | none => .error .indexOutOfBounds

/-- `System.arraycopy(data, i, buffer, 0, size)`. -/
def copy (data : List Byte) (i size : ℕ) : Except SearchException (List Byte) :=
  if i + size ≤ data.length then .ok ((data.drop i).take size) else .error .indexOutOfBounds

/-- One turn of the loop, which may return a number. -/
def findRSAKeyAt (data : List Byte) (size i : ℕ) : Except SearchException (Option ℤ) := do
  -- the string terminators in front
  if (← byteAt data i) = 0 then return none
  if (← byteAt data (i - 1)) ≠ 0 then return none
  -- and those behind
  if (← byteAt data (i + size + 1)) ≠ 0 then return none
  if (← byteAt data (i + size + 2)) ≠ 0 then return none
  let buffer ← copy data i size
  return Hexadecimal.parse buffer

/-- The loop from `i` on, for as many turns as are left. -/
def findRSAKeyFrom (data : List Byte) (size : ℕ) : ℕ → ℕ → Except SearchException (Option ℤ)
  | 0, _ => return none
  | turns + 1, i => do
    match ← findRSAKeyAt data size i with
    | some key => return some key
    | none => findRSAKeyFrom data size turns (i + 1)

/-- The first number from 1 up to `data.size - size - 1` at which a key is found. -/
def findRSAKey (data : List Byte) (bits : ℤ) : Except SearchException (Option ℤ) :=
  let size := bits.tdiv 4
  if size < 0 then .error .negativeArraySize
  else findRSAKeyFrom data size.toNat (data.length - size - 1 - 1).toNat 1

variable {data : List Byte} {size i : ℕ} {v : ℤ}

/-- The bytes around a string at `i`, up to the last one that is read. -/
structure Marked (data : List Byte) (size i : ℕ) : Prop where
  front : data[i - 1]? = some 0
  first : ∃ b, data[i]? = some b ∧ b ≠ 0
  back : data[i + size + 1]? = some 0

/-- The search takes `v` from the bytes at `i`. -/
structure Candidate (data : List Byte) (size i : ℕ) (v : ℤ) : Prop extends
    Marked data size i where
  last : data[i + size + 2]? = some 0
  number : Hexadecimal.parse ((data.drop i).take size) = some v

/-- The search reads the byte behind the array. -/
structure Overruns (data : List Byte) (size i : ℕ) : Prop extends Marked data size i where
  last : i + size + 2 = data.length

section Turn

theorem byteAt_of_lt (h : i < data.length) : byteAt data i = .ok data[i] := by
  rw [byteAt, List.getElem?_eq_getElem h]

theorem byteAt_of_getElem? {b : Byte} (h : data[i]? = some b) : byteAt data i = .ok b := by
  rw [byteAt, h]

private theorem findRSAKeyAt_eq (hi : i + size + 2 ≤ data.length) :
    findRSAKeyAt data size i =
      if data[i] = 0 then .ok none
      else if data[i - 1] ≠ 0 then .ok none
      else if data[i + size + 1] ≠ 0 then .ok none
      else byteAt data (i + size + 2) >>= fun b =>
        if b ≠ 0 then .ok none else .ok (Hexadecimal.parse ((data.drop i).take size)) := by
  have hcopy : copy data i size = .ok ((data.drop i).take size) := by
    rw [copy, if_pos (by omega)]
  rw [findRSAKeyAt, byteAt_of_lt (show i < data.length by omega),
    byteAt_of_lt (show i - 1 < data.length by omega),
    byteAt_of_lt (show i + size + 1 < data.length by omega), hcopy]
  rfl

private theorem findRSAKeyAt_of_marked (hi : i + size + 2 ≤ data.length)
    (h : Marked data size i) :
    findRSAKeyAt data size i = byteAt data (i + size + 2) >>= fun b =>
      if b ≠ 0 then .ok none else .ok (Hexadecimal.parse ((data.drop i).take size)) := by
  obtain ⟨hfront, ⟨b, hb, hne⟩, hback⟩ := h
  rw [List.getElem?_eq_getElem (by omega), Option.some.injEq] at hfront hback hb
  rw [findRSAKeyAt_eq hi, if_neg (hb ▸ hne), if_neg (not_not.mpr hfront),
    if_neg (not_not.mpr hback)]

private theorem findRSAKeyAt_of_not_marked (hi : i + size + 2 ≤ data.length)
    (h : ¬ Marked data size i) : findRSAKeyAt data size i = .ok none := by
  rw [findRSAKeyAt_eq hi]
  split_ifs with hfirst hfront hback
  · rfl
  · rfl
  · rfl
  · refine absurd ⟨?_, ⟨data[i], List.getElem?_eq_getElem _, hfirst⟩, ?_⟩ h
    · rw [List.getElem?_eq_getElem (by omega), not_not.mp hfront]
    · rw [List.getElem?_eq_getElem (by omega), not_not.mp hback]

/-- A turn takes a candidate, or overruns the array, or goes on. -/
theorem findRSAKeyAt_cases (hi : i + size + 2 ≤ data.length) :
    (∃ v, Candidate data size i v ∧ findRSAKeyAt data size i = .ok (some v)) ∨
    (Overruns data size i ∧ findRSAKeyAt data size i = .error .indexOutOfBounds) ∨
    ((∀ v, ¬ Candidate data size i v) ∧ ¬ Overruns data size i ∧
      findRSAKeyAt data size i = .ok none) := by
  by_cases hmarked : Marked data size i
  swap
  · exact Or.inr (Or.inr ⟨fun v hv => hmarked hv.toMarked, fun ho => hmarked ho.toMarked,
      findRSAKeyAt_of_not_marked hi hmarked⟩)
  rw [findRSAKeyAt_of_marked hi hmarked]
  rcases Nat.lt_or_eq_of_le hi with hlt | hlast
  · have hover : ¬ Overruns data size i := fun ho => by
      have hlength := ho.last
      omega
    rw [byteAt_of_lt hlt]
    by_cases hzero : data[i + size + 2] = 0
    · have hget : data[i + size + 2]? = some 0 := by rw [List.getElem?_eq_getElem hlt, hzero]
      cases hparse : Hexadecimal.parse ((data.drop i).take size) with
      | some v => exact Or.inl ⟨v, ⟨hmarked, hget, hparse⟩, by rw [hzero]; rfl⟩
      | none =>
        refine Or.inr (Or.inr ⟨fun v hv => ?_, hover, by rw [hzero]; rfl⟩)
        rw [hv.number] at hparse
        cases hparse
    · refine Or.inr (Or.inr ⟨fun v hv => hzero ?_, hover, if_pos hzero⟩)
      have hget := hv.last
      rw [List.getElem?_eq_getElem hlt] at hget
      exact Option.some.inj hget
  · refine Or.inr (Or.inl ⟨⟨hmarked, hlast⟩, ?_⟩)
    rw [hlast, byteAt, List.getElem?_eq_none le_rfl]
    rfl

end Turn

section Search

/-- No candidate stands at `i` or behind it, up to `j`. -/
def NoneBetween (data : List Byte) (size i j : ℕ) : Prop :=
  ∀ k, i ≤ k → k < j → ∀ v, ¬ Candidate data size k v

theorem Candidate.lt (h : Candidate data size i v) : i + size + 2 < data.length :=
  (List.getElem?_eq_some_iff.mp h.last).1

/-- The first candidate ends the search. Without one, it ends behind the array or at its end. -/
theorem findRSAKeyFrom_cases {turns : ℕ} (hturns : turns = data.length - size - 1 - i) :
    (∃ j v, i ≤ j ∧ Candidate data size j v ∧ NoneBetween data size i j ∧
      findRSAKeyFrom data size turns i = .ok (some v)) ∨
    (NoneBetween data size i data.length ∧ (∃ j, i ≤ j ∧ Overruns data size j) ∧
      findRSAKeyFrom data size turns i = .error .indexOutOfBounds) ∨
    (NoneBetween data size i data.length ∧ (∀ j, i ≤ j → ¬ Overruns data size j) ∧
      findRSAKeyFrom data size turns i = .ok none) := by
  induction turns generalizing i with
  | zero =>
    refine Or.inr (Or.inr ⟨fun k hk _ v hv => ?_, fun j hj ho => ?_, rfl⟩)
    · have hlt := hv.lt
      omega
    · have hlast := ho.last
      omega
  | succ turns ih =>
    have hi : i + size + 2 ≤ data.length := by omega
    rw [findRSAKeyFrom]
    rcases findRSAKeyAt_cases hi with ⟨v, hv, hrun⟩ | ⟨hover, hrun⟩ | ⟨hno, hover, hrun⟩
    · rw [hrun]
      exact Or.inl ⟨i, v, le_rfl, hv, fun k hk hlt => absurd hk (not_le.mpr hlt), rfl⟩
    · rw [hrun]
      refine Or.inr (Or.inl ⟨fun k hk _ v hv => ?_, ⟨i, le_rfl, hover⟩, rfl⟩)
      have hlt := hv.lt
      have hlast := hover.last
      omega
    · rw [hrun]
      have hstep {j : ℕ} (h : NoneBetween data size (i + 1) j) : NoneBetween data size i j := by
        intro k hk hlt
        rcases Nat.lt_or_eq_of_le hk with hgt | rfl
        · exact h k hgt hlt
        · exact hno
      rcases ih (i := i + 1) (by omega) with ⟨j, v, hj, hv, hbetween, hrest⟩ |
          ⟨hbetween, ⟨j, hj, ho⟩, hrest⟩ | ⟨hbetween, hends, hrest⟩
      · exact Or.inl ⟨j, v, by omega, hv, hstep hbetween, hrest⟩
      · exact Or.inr (Or.inl ⟨hstep hbetween, ⟨j, by omega, ho⟩, hrest⟩)
      · refine Or.inr (Or.inr ⟨hstep hbetween, fun j hj ho => ?_, hrest⟩)
        rcases Nat.lt_or_eq_of_le hj with hgt | rfl
        · exact hends j hgt ho
        · exact hover ho

end Search

section Keys

/-- Digits between a zero byte and three zero bytes. -/
structure KeyAt (data : List Byte) (size i n : ℕ) : Prop where
  pos : 0 < i
  front : data[i - 1]? = some 0
  digits : Hexadecimal.parseDigits ((data.drop i).take size) = some n
  back : ∀ k < 3, data[i + size + k]? = some 0

/-- No key stands in front of this one. -/
def FirstKey (data : List Byte) (size i n : ℕ) : Prop :=
  KeyAt data size i n ∧ ∀ j < i, ∀ m, ¬ KeyAt data size j m

/-- No candidate stands in front of this one. -/
def FirstCandidate (data : List Byte) (size i : ℕ) (v : ℤ) : Prop :=
  0 < i ∧ Candidate data size i v ∧ NoneBetween data size 1 i

/-- The text is in the array, right after a zero byte. -/
def Stands (data text : List Byte) : Prop :=
  ∃ i, 0 < i ∧ data[i - 1]? = some 0 ∧ text <+: data.drop i

theorem KeyAt.candidate {n : ℕ} (h : KeyAt data size i n) : Candidate data size i n where
  front := h.front
  first := by
    have hdigits := h.digits
    have hlt := (List.getElem?_eq_some_iff.mp (h.back 0 (by omega))).1
    rw [List.drop_eq_getElem_cons (by omega)] at hdigits
    cases size with
    | zero => cases hdigits
    | succ size =>
      rw [List.take_succ_cons] at hdigits
      exact ⟨data[i], List.getElem?_eq_getElem (by omega),
        Hexadecimal.ne_zero_of_parseDigits hdigits⟩
  back := h.back 1 (by omega)
  last := h.back 2 (by omega)
  number := Hexadecimal.parse_of_parseDigits h.digits

/-- The search does not index outside of the array, returns only numbers whose text stands in it,
and the first key if there is one. -/
structure FindsKey (data : List Byte) (bits : ℤ) : Prop where
  safe : findRSAKey data bits ≠ .error .indexOutOfBounds
  sound : ∀ v, findRSAKey data bits = .ok (some v) → Stands data (Hexadecimal.print v)
  complete : ∀ i n, FirstKey data (bits.tdiv 4).toNat i n → findRSAKey data bits = .ok (some n)

/-- What the first candidate gives is in the array as it is printed, and is the first key if there
is one. Without a candidate, no string ends right at the end of the array. -/
structure Searchable (data : List Byte) (size : ℕ) : Prop where
  stands : ∀ i v, FirstCandidate data size i v → Stands data (Hexadecimal.print v)
  key : ∀ i v j n, FirstCandidate data size i v → FirstKey data size j n → v = n
  ends : NoneBetween data size 1 data.length → ∀ i, 0 < i → ¬ Overruns data size i

theorem FirstCandidate.unique {j : ℕ} {w : ℤ} (hi : FirstCandidate data size i v)
    (hj : FirstCandidate data size j w) : v = w := by
  rcases Nat.lt_trichotomy i j with hlt | rfl | hlt
  · exact absurd hi.2.1 (hj.2.2 i hi.1 hlt v)
  · exact Option.some.inj (hi.2.1.number.symm.trans hj.2.1.number)
  · exact absurd hj.2.1 (hi.2.2 j hj.1 hlt w)

/-- The search finds keys exactly in the arrays that are searchable. -/
theorem findsKey_iff (data : List Byte) (bits : ℤ) :
    FindsKey data bits ↔ (0 ≤ bits.tdiv 4 → Searchable data (bits.tdiv 4).toNat) := by
  by_cases hneg : bits.tdiv 4 < 0
  · have hrun : findRSAKey data bits = .error .negativeArraySize := if_pos hneg
    refine ⟨fun _ h => absurd hneg (not_lt.mpr h), fun _ => ⟨?_, fun v hv => ?_, fun i n h => ?_⟩⟩
    · rw [hrun]
      decide
    · rw [hrun] at hv
      cases hv
    · have hdigits := h.1.digits
      rw [Int.toNat_of_nonpos hneg.le, List.take_zero] at hdigits
      cases hdigits
  obtain ⟨size, hsize⟩ := Int.eq_ofNat_of_zero_le (not_lt.mp hneg)
  have hrun : findRSAKey data bits = findRSAKeyFrom data size (data.length - size - 1 - 1) 1 := by
    rw [findRSAKey, if_neg hneg, hsize, Int.toNat_natCast]
    congr 1
    omega
  rw [hsize, Int.toNat_natCast, forall_prop_of_true (Int.natCast_nonneg size)]
  rcases @findRSAKeyFrom_cases data size 1 _ rfl with ⟨i, v, hi, hv, hnone, hfrom⟩ |
      ⟨hnone, ⟨i, hi, hover⟩, hfrom⟩ | ⟨hnone, hends, hfrom⟩
  · have hfirst : FirstCandidate data size i v := ⟨hi, hv, hnone⟩
    rw [hfrom] at hrun
    constructor
    · intro h
      refine ⟨fun j w hj => ?_, fun j w k n hj hk => ?_, fun hempty => ?_⟩
      · rw [← hfirst.unique hj]
        exact h.sound v hrun
      · have hkey := h.complete k n (by rw [hsize]; exact hk)
        rw [hrun] at hkey
        rw [← hfirst.unique hj]
        exact Option.some.inj (Except.ok.inj hkey)
      · have hlt := hv.lt
        exact absurd hv (hempty i hi (by omega) v)
    · intro h
      refine ⟨by rw [hrun]; exact nofun, fun w hw => ?_,
        fun k n hk => ?_⟩
      · rw [hrun] at hw
        rw [← Option.some.inj (Except.ok.inj hw)]
        exact h.stands i v hfirst
      · rw [hsize] at hk
        rw [hrun, h.key i v k n hfirst hk]
  · rw [hfrom] at hrun
    exact ⟨fun h => absurd hrun h.safe, fun h => absurd hover (h.ends hnone i hi)⟩
  · rw [hfrom] at hrun
    have hnokey (k n : ℕ) (hk : FirstKey data size k n) : False := by
      have hlt := hk.1.candidate.lt
      exact hnone k hk.1.pos (by omega) n hk.1.candidate
    constructor
    · intro _
      refine ⟨fun j w hj => ?_, fun j w k n _ hk => (hnokey k n hk).elim, fun _ => hends⟩
      have hlt := hj.2.1.lt
      exact absurd hj.2.1 (hnone j hj.1 (by omega) w)
    · intro _
      refine ⟨by rw [hrun]; exact nofun, fun w hw => ?_,
        fun k n hk => ?_⟩
      · rw [hrun] at hw
        cases hw
      · rw [hsize] at hk
        exact (hnokey k n hk).elim

/-- A string that is one byte longer than the key and ends with the array. -/
theorem not_findsKey_overrun : ¬ FindsKey [0, 0x61, 0x62, 0] 4 := fun h =>
  h.safe (by decide +kernel)

end Keys

end RSAUtil

end OpenNXT.Util
