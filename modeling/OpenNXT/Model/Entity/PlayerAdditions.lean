import Mathlib.Data.List.Perm.Subperm
import OpenNXT.Model.Entity.SlotAccounting

/-! Which of the outside players one tick adds to the local ones. -/
namespace OpenNXT.Model.PlayerInfoEncoder
open Buffer Transition
variable {Ref : Type}

/-- Whether the world has a player in a slot that is to be added. -/
def comesIntoView (w : WorldView Ref) (player : Ref) (v : Viewport Ref) (id : ℕ) : Bool :=
  (w.getPlayer id).any fun ref => needsAdd w player v (w.entity ref)

/-- What an addition depends on, and what no pass changes. -/
def SameView (v v' : Viewport Ref) : Prop :=
  v'.localAddedPlayers = v.localAddedPlayers ∧ v'.playerViewingDistance = v.playerViewingDistance

theorem SameView.trans {v v' v'' : Viewport Ref} (h : SameView v v') (h' : SameView v' v'') :
    SameView v v'' :=
  ⟨h'.1.trans h.1, h'.2.trans h.2⟩

variable {w : WorldView Ref} {player : Ref}

theorem SameView.needsAdd {v v' : Viewport Ref} (h : SameView v v') (target : PlayerEntity) :
    needsAdd w player v' target = needsAdd w player v target := by
  rw [PlayerInfoEncoder.needsAdd, PlayerInfoEncoder.needsAdd, h.1, h.2]

theorem SameView.comesIntoView {v v' : Viewport Ref} (h : SameView v v') (id : ℕ) :
    comesIntoView w player v' id = comesIntoView w player v id := by
  rw [PlayerInfoEncoder.comesIntoView, PlayerInfoEncoder.comesIntoView]
  simp only [h.needsAdd]

section Local
variable {nsn0 : Bool} {v : Viewport Ref} {block : List Byte} {s : Pass Ref}

/-- The local passes add no player. -/
theorem localPlayers_of_localPass (h : processLocalPlayers w player nsn0 v block = .ok s) :
    SameView v s.viewport ∧ ∀ id, v.localPlayers id = none → s.viewport.localPlayers id = none := by
  apply loopOver_invariant (P := fun s => SameView v s.viewport ∧
    ∀ id, v.localPlayers id = none → s.viewport.localPlayers id = none) _ ⟨⟨rfl, rfl⟩, fun _ => id⟩ h
  intro s t id rest _ hs hturn
  obtain ⟨-, rfl⟩ | ⟨-, -, rfl⟩ | ⟨-, -, hput⟩ := turn_cases hturn
  · exact hs
  · exact hs
  · obtain ⟨ref, -, hput⟩ := localPut_of_ok hput
    cases hput with
    | removed =>
      refine ⟨hs.1, fun other hnone => ?_⟩
      by_cases hid : other = id
      · rw [hid]
        exact Function.update_self ..
      · exact (Function.update_of_ne hid _ _).trans (hs.2 other hnone)
    | moved => exact hs
    | unchanged _ _ v' _ _ _ hv => exact hv ▸ hs

end Local

section Outside
variable {nsn2 : Bool}

/-- A count stops in front of a player that is to be added. -/
theorem not_comesIntoView_of_outsideSkips (v : Viewport Ref) (rest : List ℕ) :
    ∀ id ∈ (own (otherOutsidePass nsn2) v.slotFlags rest).take (outsideSkips w player nsn2 v rest),
      comesIntoView w player v id = false := by
  induction rest with
  | nil => simp [own]
  | cons id rest ih =>
    rw [outsideSkips]
    split_ifs with hother
    · simpa [own, hother] using ih
    · have hcons : own (otherOutsidePass nsn2) v.slotFlags (id :: rest) =
          id :: own (otherOutsidePass nsn2) v.slotFlags rest := by
        simp [own, hother]
      rw [hcons]
      cases hget : w.getPlayer id with
      | none =>
        rw [Option.map_none, List.take_succ_cons, List.forall_mem_cons]
        exact ⟨by simp [comesIntoView, hget], ih⟩
      | some ref =>
        rw [Option.map_some]
        dsimp only
        split_ifs with hstop
        · simp
        · rw [List.take_succ_cons, List.forall_mem_cons]
          rw [Bool.or_eq_true, not_or, Bool.not_eq_true] at hstop
          exact ⟨by simpa [comesIntoView, hget] using hstop.1, ih⟩

/-- What is put for a slot is an addition or none. -/
theorem localPlayers_of_putOutsidePlayer {s t : Pass Ref} {id : ℕ} {rest : List ℕ}
    (h : putOutsidePlayer w player nsn2 s id rest = .ok t) :
    SameView s.viewport t.viewport ∧
      ((comesIntoView w player s.viewport id = true ∧ t.skipCount = s.skipCount ∧
        t.viewport.localPlayers =
          Function.update s.viewport.localPlayers id (w.getPlayer id)) ∨
      (comesIntoView w player s.viewport id = false ∧
        t.viewport.localPlayers = s.viewport.localPlayers ∧
        (t.skipCount = s.skipCount ∨ t.skipCount = outsideSkips w player nsn2 s.viewport rest))) := by
  rw [putOutsidePlayer] at h
  cases hget : w.getPlayer id with
  | none =>
    rw [hget] at h
    cases h
    exact ⟨⟨rfl, rfl⟩, .inr ⟨by simp [comesIntoView, hget], rfl, .inr rfl⟩⟩
  | some ref =>
    rw [hget] at h
    have hcomes : comesIntoView w player s.viewport id =
        needsAdd w player s.viewport (w.entity ref) := by
      simp [comesIntoView, hget]
    rw [hcomes]
    cases hadd : needsAdd w player s.viewport (w.entity ref) with
    | true =>
      simp only [hadd, if_true] at h
      obtain ⟨region, -, heq⟩ := bind_eq_ok_iff.mp h
      cases heq
      obtain ⟨cached, hcached⟩ := packUpdateBlock_fst { s.viewport with
        regionHashes := Function.update s.viewport.regionHashes id
          (w.entity ref).location.regionHash } (w.entity ref) s.block
      rw [hcached]
      exact ⟨⟨rfl, rfl⟩, .inl ⟨rfl, rfl, rfl⟩⟩
    | false =>
      simp only [hadd, Bool.false_eq_true, if_false] at h
      split at h
      · obtain ⟨bits, -, heq⟩ := bind_eq_ok_iff.mp h
        cases heq
        exact ⟨⟨rfl, rfl⟩, .inr ⟨rfl, rfl, .inl rfl⟩⟩
      · cases h
        exact ⟨⟨rfl, rfl⟩, .inr ⟨rfl, rfl, .inr rfl⟩⟩

/-- A turn does not move a slot to the other pass. -/
private theorem own_of_outsideTurn {s t : Pass Ref} {id : ℕ} {rest : List ℕ}
    (h : outsideTurn w player nsn2 s id rest = .ok t) (ids : List ℕ) (nsn : Bool) :
    own (otherOutsidePass nsn) t.viewport.slotFlags ids =
      own (otherOutsidePass nsn) s.viewport.slotFlags ids := by
  obtain ⟨-, rfl⟩ | ⟨-, -, rfl⟩ | ⟨-, -, hput⟩ := turn_cases h
  · rfl
  · rw [slotFlags_flagNext, own_flag (otherOutsidePass_flag nsn)]
  · obtain ⟨_, -, hcases⟩ := putsOne_outside nsn2 s id rest t hput
    obtain ⟨-, -, -, hflags⟩ | ⟨-, -, -, hflags⟩ | ⟨-, -, hflags⟩ := hcases
    · rw [hflags]
    · rw [hflags, own_flag (otherOutsidePass_flag nsn)]
    · rw [hflags, own_flag (otherOutsidePass_flag nsn)]

private theorem own_cons_of_mine {other : Byte → Bool} {flags : ℕ → Byte} {id : ℕ}
    (h : other (flags id) = false) (ids : List ℕ) :
    own other flags (id :: ids) = id :: own other flags ids := by
  simp [own, h]

theorem localPlayers_of_outsideLoop {ids : List ℕ} {s t : Pass Ref}
    (hcovered : ∀ id ∈ (own (otherOutsidePass nsn2) s.viewport.slotFlags ids).take s.skipCount,
      comesIntoView w player s.viewport id = false)
    (h : loopOver (outsideTurn w player nsn2) s ids [] = .ok t) (id : ℕ) :
    t.viewport.localPlayers id =
      if id ∈ own (otherOutsidePass nsn2) s.viewport.slotFlags ids ∧
        comesIntoView w player s.viewport id = true then w.getPlayer id
      else s.viewport.localPlayers id := by
  induction ids generalizing s with
  | nil =>
    cases h
    simp [own]
  | cons first ids ih =>
    obtain ⟨m, hm, ht⟩ := loopOver_cons.mp h
    rw [List.append_nil] at hm
    have hown := own_of_outsideTurn hm ids nsn2
    have hrest (hview : SameView s.viewport m.viewport)
        (hskips : ∀ id ∈ (own (otherOutsidePass nsn2) s.viewport.slotFlags ids).take m.skipCount,
          comesIntoView w player s.viewport id = false) :
        t.viewport.localPlayers id =
          if id ∈ own (otherOutsidePass nsn2) s.viewport.slotFlags ids ∧
            comesIntoView w player s.viewport id = true then w.getPlayer id
          else m.viewport.localPlayers id := by
      rw [← hown, ← hview.comesIntoView]
      apply ih _ ht
      rw [hown]
      intro id hid
      rw [hview.comesIntoView]
      exact hskips id hid
    have hkeep (hfirst : comesIntoView w player s.viewport first = false) (left : List ℕ) :
        (id ∈ left ∧ comesIntoView w player s.viewport id = true) ↔
          (id ∈ first :: left ∧ comesIntoView w player s.viewport id = true) := by
      rw [List.mem_cons, or_and_right, or_iff_right]
      rintro ⟨rfl, hcomes⟩
      rw [hfirst] at hcomes
      cases hcomes
    obtain ⟨hleft, rfl⟩ | ⟨hmine, hpos, rfl⟩ | ⟨hmine, hzero, hput⟩ := turn_cases hm
    · rw [show own (otherOutsidePass nsn2) m.viewport.slotFlags (first :: ids) =
        own (otherOutsidePass nsn2) m.viewport.slotFlags ids by simp [own, hleft]] at hcovered ⊢
      exact hrest ⟨rfl, rfl⟩ hcovered
    · rw [own_cons_of_mine hmine] at hcovered ⊢
      obtain ⟨n, hn⟩ : ∃ n, s.skipCount = n + 1 := ⟨s.skipCount - 1, by omega⟩
      rw [hn, List.take_succ_cons, List.forall_mem_cons] at hcovered
      rw [hrest ⟨rfl, rfl⟩ (by simpa [hn] using hcovered.2)]
      exact if_congr (hkeep hcovered.1 _) rfl rfl
    · rw [own_cons_of_mine hmine]
      obtain ⟨hview, ⟨hcomes, hcount, hplayers⟩ | ⟨hcomes, hplayers, hcount⟩⟩ :=
        localPlayers_of_putOutsidePlayer hput
      · rw [hrest hview (by simp [hcount, hzero]), hplayers]
        by_cases hid : id = first
        · rw [hid, Function.update_self, ite_self, if_pos ⟨List.mem_cons_self .., hcomes⟩]
        · rw [Function.update_of_ne hid]
          have hmem : id ∈ own (otherOutsidePass nsn2) s.viewport.slotFlags ids ↔
              id ∈ first :: own (otherOutsidePass nsn2) s.viewport.slotFlags ids := by
            rw [List.mem_cons, or_iff_right hid]
          exact if_congr (and_congr_left' hmem) rfl rfl
      · have hskips : ∀ id ∈ (own (otherOutsidePass nsn2) s.viewport.slotFlags ids).take m.skipCount,
            comesIntoView w player s.viewport id = false := by
          obtain hcount | hcount := hcount
          · simp [hcount, hzero]
          · rw [hcount]
            exact not_comesIntoView_of_outsideSkips s.viewport ids
        rw [hrest hview hskips, hplayers]
        exact if_congr (hkeep hcomes _) rfl rfl

/-- Each of the outside passes keeps to its slots. -/
theorem mem_own_outside (flags : ℕ → Byte) (ids : List ℕ) (id : ℕ) :
    id ∈ ids ↔ id ∈ own (otherOutsidePass true) flags ids ∨
      id ∈ own (otherOutsidePass false) flags ids := by
  have hother (flags : Byte) : otherOutsidePass false flags = !otherOutsidePass true flags := rfl
  rw [own, own, List.mem_filter, List.mem_filter, hother, Bool.not_not]
  cases otherOutsidePass true (flags id) <;> simp

theorem localPlayers_of_outsidePass {v : Viewport Ref} {block : List Byte} {s : Pass Ref}
    (h : processOutsidePlayers w player nsn2 v block = .ok s) :
    SameView v s.viewport ∧
      (∀ ids, own (otherOutsidePass false) s.viewport.slotFlags ids =
        own (otherOutsidePass false) v.slotFlags ids) ∧
      ∀ id, s.viewport.localPlayers id =
        if id ∈ own (otherOutsidePass nsn2) v.slotFlags v.outPlayerIndices ∧
          comesIntoView w player v id = true then w.getPlayer id
        else v.localPlayers id := by
  have hstart : ∀ id ∈ (own (otherOutsidePass nsn2) v.slotFlags v.outPlayerIndices).take 0,
      comesIntoView w player v id = false := by
    rw [List.take_zero]
    exact List.forall_mem_nil _
  have hplayers := localPlayers_of_outsideLoop (s := { viewport := v, block := block }) hstart h
  refine ⟨?_, fun ids => ?_, hplayers⟩
  · apply loopOver_invariant (P := fun s => SameView v s.viewport) _ ⟨rfl, rfl⟩ h
    intro s t id rest _ hs hturn
    obtain ⟨-, rfl⟩ | ⟨-, -, rfl⟩ | ⟨-, -, hput⟩ := turn_cases hturn
    · exact hs
    · exact hs
    · exact hs.trans (localPlayers_of_putOutsidePlayer hput).1
  · apply loopOver_invariant (P := fun s => own (otherOutsidePass false) s.viewport.slotFlags ids =
      own (otherOutsidePass false) v.slotFlags ids) _ rfl h
    intro s t id rest _ hs hturn
    exact (own_of_outsideTurn hturn ids false).trans hs

end Outside

section Tick
variable {v v' : Viewport Ref} {out : List Byte}

/-- The outside players that one tick turns into local ones. -/
def additions (v v' : Viewport Ref) : List ℕ :=
  v.outPlayerIndices.filter fun id => (v.localPlayers id).isNone && (v'.localPlayers id).isSome

/-- The outside players that are to be added when the tick begins. -/
def inView (w : WorldView Ref) (player : Ref) (v : Viewport Ref) : List ℕ :=
  v.outPlayerIndices.filter fun id => (v.localPlayers id).isNone && comesIntoView w player v id

/-- Every player that comes into view is added. -/
theorem additions_eq (h : createBufferFor w player v = .ok (v', out)) :
    additions v v' = inView w player v := by
  rw [createBufferFor] at h
  obtain ⟨s₁, h₁, h⟩ := bind_eq_ok_iff.mp h
  obtain ⟨s₂, h₂, h⟩ := bind_eq_ok_iff.mp h
  obtain ⟨s₃, h₃, h⟩ := bind_eq_ok_iff.mp h
  obtain ⟨s₄, h₄, heq⟩ := bind_eq_ok_iff.mp h
  cases heq
  obtain ⟨hview₁, hnone₁⟩ := localPlayers_of_localPass h₁
  obtain ⟨hview₂, hnone₂⟩ := localPlayers_of_localPass h₂
  obtain ⟨hview₃, hown, hplayers₃⟩ := localPlayers_of_outsidePass h₃
  obtain ⟨-, -, hplayers₄⟩ := localPlayers_of_outsidePass h₄
  have hout : s₃.viewport.outPlayerIndices = v.outPlayerIndices :=
    (sameLists_of_outside h₃).2.trans ((sameLists_of_local h₂).2.trans (sameLists_of_local h₁).2)
  have hout₂ : s₂.viewport.outPlayerIndices = v.outPlayerIndices :=
    (sameLists_of_local h₂).2.trans (sameLists_of_local h₁).2
  apply List.filter_congr
  intro id hid
  cases hlocal : v.localPlayers id with
  | some ref => rfl
  | none =>
    have hnone := hnone₂ id (hnone₁ id hlocal)
    have hview := hview₁.trans hview₂
    have hcomes₂ : comesIntoView w player s₂.viewport id = comesIntoView w player v id :=
      hview.comesIntoView id
    have hcomes₃ : comesIntoView w player s₃.viewport id = comesIntoView w player v id :=
      (hview.trans hview₃).comesIntoView id
    rw [hplayers₄, hown, hout, hcomes₃, hplayers₃, hout₂, hcomes₂, hnone]
    cases hcomes : comesIntoView w player v id with
    | false => simp
    | true =>
      obtain ⟨ref, hget, -⟩ := (Option.any_eq_true _ _).mp hcomes
      have hmem := (mem_own_outside s₂.viewport.slotFlags v.outPlayerIndices id).mp hid
      obtain hthird | hfourth := hmem
      · simp [hthird, hget]
      · simp [hfourth, hget]

/-- A tick keeps to the limit when no more players come into view. -/
theorem additions_le_iff (h : createBufferFor w player v = .ok (v', out)) :
    ((additions v v').length : ℤ) ≤ MAX_PLAYERS_PER_ADD + 1 ↔
      ((inView w player v).length : ℤ) ≤ MAX_PLAYERS_PER_ADD + 1 := by
  rw [additions_eq h]

end Tick

section Still
variable (hstill : ∀ ref, (w.entity ref).movement.nextWalkDirection = none)

private theorem exists_putRegion (target : PlayerEntity) (last : Word) :
    ∃ bits, putRegion target last = .ok bits := by
  rw [putRegion]
  split_ifs
  · exact ⟨_, rfl⟩
  · obtain ⟨bits, hbits⟩ :=
      RegionEntry.exists_appendRegionHash target last target.location.regionHash
    exact ⟨_, bind_eq_ok_iff.mpr ⟨bits, hbits, rfl⟩⟩

theorem exists_putOutsidePlayer (nsn2 : Bool) (s : Pass Ref) (id : ℕ) (rest : List ℕ) :
    ∃ t, putOutsidePlayer w player nsn2 s id rest = .ok t := by
  rw [putOutsidePlayer]
  cases w.getPlayer id with
  | none => exact ⟨_, rfl⟩
  | some ref =>
    dsimp only
    split_ifs
    · obtain ⟨region, hregion⟩ := exists_putRegion (w.entity ref) (s.viewport.regionHashes id)
      exact ⟨_, bind_eq_ok_iff.mpr ⟨region, hregion, rfl⟩⟩
    · obtain ⟨bits, hbits⟩ := RegionEntry.exists_appendRegionHash (w.entity ref)
        (s.viewport.regionHashes id) (w.entity ref).location.regionHash
      exact ⟨_, bind_eq_ok_iff.mpr ⟨bits, hbits, rfl⟩⟩
    · exact ⟨_, rfl⟩

/-- The outside passes always end. -/
theorem exists_outsidePass (nsn2 : Bool) (v : Viewport Ref) (block : List Byte) :
    ∃ s, processOutsidePlayers w player nsn2 v block = .ok s := by
  cases h : processOutsidePlayers w player nsn2 v block with
  | ok s => exact ⟨s, rfl⟩
  | error e =>
    have hsafe (s : Pass Ref) (id : ℕ) (rest : List ℕ) (e : PlayerInfoError) (_ : True)
        (hturn : outsideTurn w player nsn2 s id rest = .error e) : ¬ True := by
      rw [outsideTurn, turn] at hturn
      split_ifs at hturn
      obtain ⟨t, ht⟩ := exists_putOutsidePlayer nsn2 s id rest
      rw [ht] at hturn
      cases hturn
    exact absurd trivial (loopOver_not_error (P := fun _ _ => True) (fun _ _ _ _ _ _ => trivial)
      hsafe trivial h)

theorem lost_of_localSkips {nsn0 : Bool} {v : Viewport Ref} {blockSize : ℕ} {rest : List ℕ}
    {e : PlayerInfoError} (h : localSkips w player nsn0 v blockSize rest = .error e) : Lost e := by
  induction rest with
  | nil => cases h
  | cons id rest ih =>
    rw [localSkips] at h
    split_ifs at h
    · exact ih h
    · split at h
      next =>
        cases h
        trivial
      next =>
        dsimp only at h
        split_ifs at h
        obtain herror | ⟨n, -, heq⟩ := bind_eq_error_iff.mp h
        · exact ih herror
        · cases heq

include hstill in
/-- Where nobody walks only a player that is gone stops a pass. -/
theorem lost_of_putLocalPlayer {nsn0 : Bool} {s : Pass Ref} {id : ℕ} {rest : List ℕ}
    {e : PlayerInfoError} (h : putLocalPlayer w player nsn0 s id rest = .error e) : Lost e := by
  rw [putLocalPlayer] at h
  cases hlocal : s.viewport.localPlayers id with
  | none =>
    rw [hlocal] at h
    cases h
    trivial
  | some ref =>
    rw [hlocal] at h
    dsimp only at h
    split at h
    · obtain ⟨region, hregion⟩ := exists_putRegion (w.entity ref) (s.viewport.regionHashes id)
      rw [hregion] at h
      cases h
    · split at h
      next hmove =>
        rw [putMovement, hstill ref] at hmove
        split_ifs at hmove
      next => cases h
      next =>
        obtain herror | ⟨n, -, heq⟩ := bind_eq_error_iff.mp h
        · exact lost_of_localSkips herror
        · cases heq

include hstill in
theorem lost_of_localPass {nsn0 : Bool} {v : Viewport Ref} {block : List Byte}
    {e : PlayerInfoError} (h : processLocalPlayers w player nsn0 v block = .error e) : Lost e := by
  have hsafe (s : Pass Ref) (id : ℕ) (rest : List ℕ) (e : PlayerInfoError) (_ : True)
      (hturn : localTurn w player nsn0 s id rest = .error e) : ¬ ¬ Lost e := by
    rw [localTurn, turn] at hturn
    split_ifs at hturn
    exact not_not.mpr (lost_of_putLocalPlayer hstill hturn)
  exact not_not.mp (loopOver_not_error (P := fun _ _ => True) (fun _ _ _ _ _ _ => trivial)
    hsafe trivial h)

include hstill in
/-- Where nobody walks a tick always ends. -/
theorem exists_createBufferFor {v : Viewport Ref} (hready : Ready v) :
    ∃ v' out, createBufferFor w player v = .ok (v', out) := by
  cases h : createBufferFor w player v with
  | ok r => exact ⟨r.1, r.2, rfl⟩
  | error e =>
    refine absurd ?_ (not_lost_of_createBufferFor hready h)
    rw [createBufferFor] at h
    obtain h | ⟨s₁, -, h⟩ := bind_eq_error_iff.mp h
    · exact lost_of_localPass hstill h
    obtain h | ⟨s₂, -, h⟩ := bind_eq_error_iff.mp h
    · exact lost_of_localPass hstill h
    obtain ⟨s₃, h₃⟩ := exists_outsidePass true s₂.viewport s₂.block
    obtain ⟨s₄, h₄⟩ := exists_outsidePass false s₃.viewport s₃.block
    rw [h₃] at h
    obtain h | ⟨s, hs, h⟩ := bind_eq_error_iff.mp h
    · cases h
    · cases hs
      rw [h₄] at h
      cases h

end Still

private theorem view_of_initSlots (w : WorldView Ref) (index : ℕ) (ids : List ℕ)
    (s : Viewport Ref × List Bool) :
    SameView s.1 (ids.foldl (Viewport.initSlot w index) s).1 ∧
      (ids.foldl (Viewport.initSlot w index) s).1.localPlayerIndices = s.1.localPlayerIndices := by
  induction ids generalizing s with
  | nil => exact ⟨⟨rfl, rfl⟩, rfl⟩
  | cons id ids ih =>
    obtain ⟨hview, hlocal⟩ := ih (Viewport.initSlot w index s id)
    have hstep : SameView s.1 (Viewport.initSlot w index s id).1 ∧
        (Viewport.initSlot w index s id).1.localPlayerIndices = s.1.localPlayerIndices := by
      rw [Viewport.initSlot]
      split_ifs
      · exact ⟨⟨rfl, rfl⟩, rfl⟩
      · dsimp only
        split_ifs <;> exact ⟨⟨rfl, rfl⟩, rfl⟩
    exact ⟨hstep.1.trans hview, hlocal.trans hstep.2⟩

/-- The viewport of a player that has just been set up. -/
theorem view_of_init {v : Viewport Ref} {buf : List Byte}
    (h : Viewport.init w player {} = .ok (v, buf)) :
    SameView ({} : Viewport Ref) v ∧ v.localPlayerIndices = [(w.entity player).index.toNat] := by
  rw [Viewport.init] at h
  split_ifs at h
  injection h with h
  obtain ⟨rfl, -⟩ := Prod.mk.inj h
  exact view_of_initSlots w _ Viewport.slots _

section Gathering

/-- Players in the slots 1 to 28, all in one place. -/
def gathering : WorldView ℕ where
  entity i := {
    location := ⟨3200, 3200, 0⟩
    index := (i % 2048 : ℕ)
    index_lt := PlayerEntity.natCast_mod_lt i }
  getPlayer i := if 1 ≤ i ∧ i ≤ 28 then some i else none

/-- The first of them is set up, and has its first tick. -/
private theorem exists_gathering :
    ∃ v buf v' out, Viewport.init gathering 1 {} = .ok (v, buf) ∧
      createBufferFor gathering 1 v = .ok (v', out) := by
  obtain ⟨v, buf, hinit⟩ : ∃ v buf, Viewport.init gathering 1 {} = .ok (v, buf) := ⟨_, _, rfl⟩
  obtain ⟨v', out, h⟩ : ∃ v' out, createBufferFor gathering 1 v = .ok (v', out) :=
    exists_createBufferFor (fun _ => rfl) (ready_init hinit)
  exact ⟨v, buf, v', out, hinit, h⟩

theorem additions_le_iff_gathering :
    ∃ v v' out, createBufferFor gathering 1 v = .ok (v', out) ∧
      (((additions v v').length : ℤ) ≤ MAX_PLAYERS_PER_ADD + 1 ↔
        ((inView gathering 1 v).length : ℤ) ≤ MAX_PLAYERS_PER_ADD + 1) := by
  obtain ⟨v, buf, v', out, -, h⟩ := exists_gathering
  exact ⟨v, v', out, h, additions_le_iff h⟩

private theorem comesIntoView_gathering :
    ∀ id ∈ List.range' 2 27, comesIntoView gathering 1 {} id = true := by
  decide +kernel

private theorem length_inView_gathering {v : Viewport ℕ} {buf : List Byte}
    (h : Viewport.init gathering 1 {} = .ok (v, buf)) : 27 ≤ (inView gathering 1 v).length := by
  obtain ⟨hview, hlocal⟩ := view_of_init h
  have hready := ready_init h
  have hsubset : List.range' 2 27 ⊆ inView gathering 1 v := by
    intro id hid
    have hslots : id ∈ Viewport.slots := by
      rw [List.mem_range'_1] at hid
      rw [Viewport.slots, List.mem_range'_1]
      omega
    have hout : id ∈ v.outPlayerIndices := by
      have hown : id ≠ (gathering.entity 1).index.toNat := by
        rw [List.mem_range'_1] at hid
        change id ≠ 1
        omega
      have hmem := hready.partition.mem_iff.mpr hslots
      rw [hlocal, List.mem_append, List.mem_singleton] at hmem
      exact hmem.resolve_left hown
    rw [inView, List.mem_filter, hready.outside id hout, hview.comesIntoView,
      comesIntoView_gathering id hid]
    exact ⟨hout, rfl⟩
  exact (List.Nodup.subperm List.nodup_range' hsubset).length_le

theorem not_additions_le :
    ¬ ∀ (w : WorldView ℕ) (player : ℕ) (v v' : Viewport ℕ) (out : List Byte),
      Reachable player v → createBufferFor w player v = .ok (v', out) →
      ((additions v v').length : ℤ) ≤ MAX_PLAYERS_PER_ADD + 1 := by
  intro hclaim
  obtain ⟨v, buf, v', out, hinit, h⟩ := exists_gathering
  have hle := hclaim gathering 1 v v' out (.init gathering v buf hinit) h
  have hmany := length_inView_gathering hinit
  rw [additions_eq h, MAX_PLAYERS_PER_ADD] at hle
  omega

end Gathering

end OpenNXT.Model.PlayerInfoEncoder
