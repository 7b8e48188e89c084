import OpenNXT.Model.Entity.PlayerInfoTurns
import OpenNXT.Model.Entity.RegionEntries

/-! Every slot of a pass is told of once, by an entry or by one count. -/
namespace OpenNXT.Model.PlayerInfoEncoder
open Buffer Transition
variable {Ref : Type}

/-- The slots of a pass, the bits put for them, and those that are flagged for the next tick: an
entry is for one slot, a count for the slot it is put for and as many that follow. -/
inductive Accounts (adds : List Bool → Prop) : List ℕ → List Bool → List ℕ → Prop
  | nil : Accounts adds [] [] []
  | entry (id : ℕ) (entry : List Bool) {ids flagged : List ℕ} {bits : List Bool}
      (hstart : [true] <+: entry) (hadds : ¬ adds entry) (h : Accounts adds ids bits flagged) :
      Accounts adds (id :: ids) (entry ++ bits) flagged
  | added (id : ℕ) (entry : List Bool) {ids flagged : List ℕ} {bits : List Bool}
      (hstart : [true] <+: entry) (hadds : adds entry) (h : Accounts adds ids bits flagged) :
      Accounts adds (id :: ids) (entry ++ bits) (id :: flagged)
  | skip (id : ℕ) (skipped : List ℕ) {ids flagged : List ℕ} {bits : List Bool}
      (hfits : skipped.length < 2 ^ 11) (h : Accounts adds ids bits flagged) :
      Accounts adds (id :: (skipped ++ ids)) ((false :: putSkip skipped.length) ++ bits)
        (id :: (skipped ++ flagged))

/-- The flags after some slots were flagged. -/
def flag (flags : ℕ → Byte) (ids : List ℕ) : ℕ → Byte :=
  fun id => if id ∈ ids then flags id ||| 2 else flags id

@[simp] theorem flag_nil (flags : ℕ → Byte) : flag flags [] = flags := by
  funext id
  simp [flag]

theorem flag_flag (flags : ℕ → Byte) (ids ids' : List ℕ) :
    flag (flag flags ids) ids' = flag flags (ids ++ ids') := by
  funext id
  by_cases h : id ∈ ids <;> by_cases h' : id ∈ ids' <;> simp [flag, h, h', BitVec.or_assoc]

theorem slotFlags_flagNext (v : Viewport Ref) (id : ℕ) :
    (v.flagNext id).slotFlags = flag v.slotFlags [id] := by
  funext other
  by_cases h : other = id
  · rw [h]
    simp [Viewport.flagNext, flag]
  · simp [Viewport.flagNext, flag, h]

section Pass
variable {other : Byte → Bool} (hother : ∀ flags, other (flags ||| 2) = other flags)

/-- The slots of a list that are for this pass. -/
def own (other : Byte → Bool) (flags : ℕ → Byte) (ids : List ℕ) : List ℕ :=
  ids.filter fun id => !other (flags id)

include hother in
theorem own_flag (flags : ℕ → Byte) (flagged ids : List ℕ) :
    own other (flag flags flagged) ids = own other flags ids := by
  apply List.filter_congr
  intro id _
  rw [flag]
  split
  · rw [hother]
  · rfl

/-- What putting a slot does to the bits, the counter and the flags. -/
def PutsOne (other : Byte → Bool) (adds : List Bool → Prop)
    (put : Pass Ref → ℕ → List ℕ → Except PlayerInfoError (Pass Ref)) : Prop :=
  ∀ s id rest t, put s id rest = .ok t → ∃ entry, t.bits = s.bits ++ entry ∧
    (([true] <+: entry ∧ ¬ adds entry ∧ t.skipCount = s.skipCount ∧
        t.viewport.slotFlags = s.viewport.slotFlags) ∨
      ([true] <+: entry ∧ adds entry ∧ t.skipCount = s.skipCount ∧
        t.viewport.slotFlags = flag s.viewport.slotFlags [id]) ∨
      (entry = false :: putSkip t.skipCount ∧
        t.skipCount ≤ (own other s.viewport.slotFlags rest).length ∧
        t.viewport.slotFlags = flag s.viewport.slotFlags [id]))

variable {adds : List Bool → Prop}
  {put : Pass Ref → ℕ → List ℕ → Except PlayerInfoError (Pass Ref)}

include hother in
/-- The slots that a counter still covers are skipped, and the others accounted for. -/
theorem accounts_of_loop (hput : PutsOne other adds put) {ids : List ℕ} {s t : Pass Ref}
    (hfits : ids.length < 2 ^ 11)
    (hskip : s.skipCount ≤ (own other s.viewport.slotFlags ids).length)
    (h : loopOver (turn other put) s ids [] = .ok t) :
    ∃ bits flagged, t.bits = s.bits ++ bits ∧
      Accounts adds ((own other s.viewport.slotFlags ids).drop s.skipCount) bits flagged ∧
      t.skipCount = 0 ∧
      t.viewport.slotFlags = flag s.viewport.slotFlags
        ((own other s.viewport.slotFlags ids).take s.skipCount ++ flagged) := by
  induction ids generalizing s with
  | nil =>
    cases h
    have hzero : t.skipCount = 0 := by simpa [own] using hskip
    refine ⟨[], [], by simp, ?_, hzero, by simp [own]⟩
    simpa [own] using Accounts.nil
  | cons id ids ih =>
    obtain ⟨m, hm, ht⟩ := loopOver_cons.mp h
    rw [List.append_nil] at hm
    have hfits' : ids.length < 2 ^ 11 := by
      rw [List.length_cons] at hfits
      omega
    have hshort : (own other s.viewport.slotFlags ids).length ≤ ids.length :=
      List.length_filter_le ..
    have hcons (hown : other (s.viewport.slotFlags id) = false) :
        own other s.viewport.slotFlags (id :: ids) = id :: own other s.viewport.slotFlags ids := by
      simp [own, hown]
    obtain ⟨hleft, rfl⟩ | ⟨hown, hpos, hskipped⟩ | ⟨hown, hzero, hput'⟩ := turn_cases hm
    · have hids : own other m.viewport.slotFlags (id :: ids) = own other m.viewport.slotFlags ids := by
        simp [own, hleft]
      rw [hids] at hskip ⊢
      exact ih hfits' hskip ht
    · obtain ⟨n, hn⟩ : ∃ n, s.skipCount = n + 1 := ⟨s.skipCount - 1, by omega⟩
      have hcount : m.skipCount = n := by
        rw [hskipped]
        exact Nat.sub_eq_of_eq_add hn
      have hflags : m.viewport.slotFlags = flag s.viewport.slotFlags [id] := by
        rw [hskipped]
        exact slotFlags_flagNext s.viewport id
      have hsame : m.bits = s.bits := by rw [hskipped]
      rw [hcons hown, hn, List.length_cons] at hskip
      have hcovered : m.skipCount ≤ (own other m.viewport.slotFlags ids).length := by
        rw [hcount, hflags, own_flag hother]
        omega
      obtain ⟨bits, flagged, hbits, haccounts, hdone, hafter⟩ := ih hfits' hcovered ht
      rw [hcount, hflags, own_flag hother] at haccounts
      rw [hcount, hflags, own_flag hother, flag_flag] at hafter
      rw [hcons hown, hn]
      exact ⟨bits, flagged, hsame ▸ hbits, haccounts, hdone, hafter⟩
    · rw [hcons hown, hzero, List.drop_zero, List.take_zero]
      obtain ⟨entry, hentry, hcases⟩ := hput s id ids m hput'
      obtain ⟨hstart, hadds, hcount, hflags⟩ | ⟨hstart, hadds, hcount, hflags⟩ |
        ⟨rfl, hcount, hflags⟩ := hcases
      · obtain ⟨bits, flagged, hbits, haccounts, hdone, hafter⟩ := ih hfits' (by omega) ht
        rw [hflags, hcount, hzero, List.drop_zero] at haccounts
        rw [hflags, hcount, hzero, List.take_zero, List.nil_append] at hafter
        refine ⟨entry ++ bits, flagged, ?_, .entry id entry hstart hadds haccounts, hdone, hafter⟩
        rw [hbits, hentry, List.append_assoc]
      · obtain ⟨bits, flagged, hbits, haccounts, hdone, hafter⟩ := ih hfits' (by omega) ht
        rw [hflags, own_flag hother, hcount, hzero, List.drop_zero] at haccounts
        rw [hflags, flag_flag, hcount, hzero, List.take_zero, List.nil_append] at hafter
        refine ⟨entry ++ bits, id :: flagged, ?_, .added id entry hstart hadds haccounts, hdone,
          hafter⟩
        rw [hbits, hentry, List.append_assoc]
      · rw [← own_flag hother s.viewport.slotFlags [id], ← hflags] at hcount
        obtain ⟨bits, flagged, hbits, haccounts, hdone, hafter⟩ := ih hfits' hcount ht
        rw [hflags, own_flag hother] at haccounts hcount
        rw [hflags, own_flag hother, flag_flag] at hafter
        generalize own other s.viewport.slotFlags ids = left at haccounts hcount hafter hshort
        have hlength : (left.take m.skipCount).length = m.skipCount := by
          rw [List.length_take, Nat.min_eq_left hcount]
        have hskip : Accounts adds (id :: (left.take m.skipCount ++ left.drop m.skipCount))
            ((false :: putSkip (left.take m.skipCount).length) ++ bits)
            (id :: (left.take m.skipCount ++ flagged)) :=
          .skip id (left.take m.skipCount) (by omega) haccounts
        rw [List.take_append_drop, hlength] at hskip
        refine ⟨_, _, ?_, hskip, hdone, hafter⟩
        rw [hbits, hentry, List.append_assoc]

end Pass

variable {w : WorldView Ref} {player : Ref}

section Local
variable {nsn0 : Bool}

theorem otherLocalPass_flag (nsn0 : Bool) (flags : Byte) :
    otherLocalPass nsn0 (flags ||| 2) = otherLocalPass nsn0 flags := by
  have hbit : (flags ||| 2) &&& 0x1 = flags &&& 0x1 := by
    rw [BitVec.and_or_distrib_right]
    exact BitVec.or_zero
  rw [otherLocalPass, otherLocalPass, hbit]

theorem localSkips_le {v : Viewport Ref} {blockSize n : ℕ} {rest : List ℕ}
    (h : localSkips w player nsn0 v blockSize rest = .ok n) :
    n ≤ (own (otherLocalPass nsn0) v.slotFlags rest).length := by
  induction rest generalizing n with
  | nil =>
    cases h
    exact Nat.zero_le _
  | cons id rest ih =>
    rw [localSkips] at h
    split_ifs at h with hother
    · simpa [own, hother] using ih h
    · split at h
      next => cases h
      next =>
        dsimp only at h
        split_ifs at h
        · cases h
          exact Nat.zero_le _
        · obtain ⟨m, hm, heq⟩ := bind_eq_ok_iff.mp h
          cases heq
          simpa [own, hother] using ih hm

private theorem true_prefix_of_putMovement {movementType movementType' : Byte}
    {target : PlayerEntity} {mask : Bool} {bits : List Bool}
    (h : putMovement movementType target mask = .ok (some (bits, movementType'))) :
    [true] <+: bits := by
  rw [putMovement] at h
  split at h
  next =>
    obtain ⟨steps, -, heq⟩ := bind_eq_ok_iff.mp h
    cases heq
    exact ⟨_, rfl⟩
  next =>
    split at h
    · cases h
      exact ⟨_, rfl⟩
    · split at h
      · cases h
        exact ⟨_, rfl⟩
      · cases h

theorem putsOne_local (nsn0 : Bool) :
    PutsOne (otherLocalPass nsn0) (fun _ => False) (putLocalPlayer w player nsn0) := by
  intro s id rest t h
  obtain ⟨ref, -, hput⟩ := localPut_of_ok h
  cases hput with
  | removed region =>
    exact ⟨_, rfl, .inl ⟨⟨_, rfl⟩, not_false, rfl, rfl⟩⟩
  | moved _ _ bits _ _ hmove =>
    exact ⟨bits, rfl, .inl ⟨true_prefix_of_putMovement hmove, not_false, rfl, rfl⟩⟩
  | unchanged cached block v skipCount _ _ hv hskips =>
    refine ⟨_, rfl, .inr (.inr ⟨rfl, ?_, ?_⟩)⟩
    · have hle := localSkips_le hskips
      rw [hv] at hle
      exact hle
    · rw [slotFlags_flagNext, hv]

/-- An exception for a local player that is gone. -/
def Lost : PlayerInfoError → Prop
  | .playerDisappeared _ => True
  | .nullPointer _ => True
  | _ => False

/-- The slots that are left to a pass have their players. -/
structure Held (other : Byte → Bool) (s : Pass Ref) (ids : List ℕ) : Prop where
  nodup : ids.Nodup
  held : ∀ id ∈ ids, other (s.viewport.slotFlags id) = false → s.viewport.localPlayers id ≠ none

theorem localSkips_ne_error {v : Viewport Ref} {blockSize : ℕ} {rest : List ℕ}
    (hheld : ∀ id ∈ rest, otherLocalPass nsn0 (v.slotFlags id) = false → v.localPlayers id ≠ none)
    (e : PlayerInfoError) : localSkips w player nsn0 v blockSize rest ≠ .error e := by
  induction rest with
  | nil => simp [localSkips]
  | cons id rest ih =>
    have hrest := ih (fun id hid => hheld id (List.mem_cons_of_mem _ hid))
    rw [localSkips]
    split_ifs with hother
    · exact hrest
    · have hsome := hheld id (List.mem_cons_self ..) (by simpa using hother)
      split
      next hnone => exact absurd hnone hsome
      next =>
        dsimp only
        split_ifs
        · simp
        · intro h
          obtain herror | ⟨m, -, heq⟩ := bind_eq_error_iff.mp h
          · exact hrest herror
          · cases heq

private theorem error_of_ite {c : Prop} [Decidable c] {k : Word}
    {rest : Except PlayerInfoError Word} {e : PlayerInfoError}
    (h : (if c then .ok k else rest) = .error e) : rest = .error e := by
  split_ifs at h
  exact h

private theorem not_lost_of_opcode {dx dy : Word} {e : PlayerInfoError}
    (h : regionOpcode dx dy = .error e ∨ getWalkOpcode dx dy = .error e ∨
      getRunOpcode dx dy = .error e) : ¬ Lost e := by
  unfold regionOpcode getWalkOpcode getRunOpcode at h
  obtain h | h | h := h
  all_goals
    repeat replace h := error_of_ite h
    cases h
    exact id

private theorem not_lost_of_firstStep {walk : CompassPoint} {e : PlayerInfoError}
    (h : firstStep walk = .error e) : ¬ Lost e := by
  cases walk <;> cases h <;> exact id

theorem not_lost_of_appendRegionHash {target : PlayerEntity} {last current : Word}
    {e : PlayerInfoError} (h : appendRegionHash target last current = .error e) : ¬ Lost e := by
  rw [appendRegionHash] at h
  split_ifs at h
  obtain herror | ⟨opcode, -, heq⟩ := bind_eq_error_iff.mp h
  · exact not_lost_of_opcode (.inl herror)
  · cases heq

theorem not_lost_of_putRegion {target : PlayerEntity} {last : Word} {e : PlayerInfoError}
    (h : putRegion target last = .error e) : ¬ Lost e := by
  rw [putRegion] at h
  split_ifs at h
  obtain herror | ⟨bits, -, heq⟩ := bind_eq_error_iff.mp h
  · exact not_lost_of_appendRegionHash herror
  · cases heq

private theorem not_lost_of_putSteps {movementType : Byte} {speed : MovementSpeed}
    {walk : CompassPoint} {run : Option CompassPoint} {e : PlayerInfoError}
    (h : putSteps movementType speed walk run = .error e) : ¬ Lost e := by
  unfold putSteps at h
  dsimp only at h
  split at h
  · cases h
  · split at h
    · cases h
    · split at h
      · obtain herror | ⟨opcode, -, heq⟩ := bind_eq_error_iff.mp h
        · exact not_lost_of_opcode (.inr (.inl herror))
        · cases heq
      · split at h
        · split at h
          · cases h
            exact id
          · obtain herror | ⟨opcode, -, h⟩ := bind_eq_error_iff.mp h
            · exact not_lost_of_opcode (.inr (.inl herror))
            · obtain herror | ⟨first, -, heq⟩ := bind_eq_error_iff.mp h
              · exact not_lost_of_firstStep herror
              · cases heq
        · obtain herror | ⟨opcode, -, heq⟩ := bind_eq_error_iff.mp h
          · exact not_lost_of_opcode (.inr (.inr herror))
          · cases heq

private theorem not_lost_of_putMovement {movementType : Byte} {target : PlayerEntity}
    {mask : Bool} {e : PlayerInfoError} (h : putMovement movementType target mask = .error e) :
    ¬ Lost e := by
  rw [putMovement] at h
  split at h
  next =>
    obtain herror | ⟨steps, -, heq⟩ := bind_eq_error_iff.mp h
    · exact not_lost_of_putSteps herror
    · cases heq
  next => split_ifs at h

theorem not_lost_of_putLocalPlayer {s : Pass Ref} {id : ℕ} {rest : List ℕ} {e : PlayerInfoError}
    (hid : s.viewport.localPlayers id ≠ none)
    (hrest : ∀ id ∈ rest, otherLocalPass nsn0 (s.viewport.slotFlags id) = false →
      s.viewport.localPlayers id ≠ none)
    (h : putLocalPlayer w player nsn0 s id rest = .error e) : ¬ Lost e := by
  rw [putLocalPlayer] at h
  cases hlocal : s.viewport.localPlayers id with
  | none => exact absurd hlocal hid
  | some ref =>
    rw [hlocal] at h
    dsimp only at h
    split at h
    · obtain herror | ⟨region, -, heq⟩ := bind_eq_error_iff.mp h
      · exact not_lost_of_putRegion herror
      · cases heq
    · obtain ⟨cached, block, hpack⟩ := ifNeeded_pack { s.viewport with
        regionHashes := Function.update s.viewport.regionHashes id
          (w.entity ref).location.regionHash } (w.entity ref) s.block
      rw [hpack] at h
      split at h
      next herror =>
        cases h
        exact not_lost_of_putMovement herror
      next => cases h
      next =>
        obtain herror | ⟨skipCount, -, heq⟩ := bind_eq_error_iff.mp h
        · refine absurd herror (localSkips_ne_error ?_ e)
          exact hrest
        · cases heq

theorem Held.next {s t : Pass Ref} {id : ℕ} {rest : List ℕ}
    (h : Held (otherLocalPass nsn0) s (id :: rest))
    (ht : localTurn w player nsn0 s id rest = .ok t) : Held (otherLocalPass nsn0) t rest where
  nodup := (List.nodup_cons.mp h.nodup).2
  held := by
    intro id' hid' hown
    have hne : id' ≠ id := fun heq => (List.nodup_cons.mp h.nodup).1 (heq ▸ hid')
    have hslot := sameSlot_of_localTurn hne ht
    rw [← hslot.slotFlags] at hown
    rw [← hslot.localPlayers]
    exact h.held id' (List.mem_cons_of_mem _ hid') hown

theorem not_lost_of_localTurn {s : Pass Ref} {id : ℕ} {rest : List ℕ} {e : PlayerInfoError}
    (hs : Held (otherLocalPass nsn0) s (id :: rest))
    (h : localTurn w player nsn0 s id rest = .error e) : ¬ Lost e := by
  rw [localTurn, turn] at h
  split_ifs at h with hother
  apply not_lost_of_putLocalPlayer _ _ h
  · exact hs.held id (List.mem_cons_self ..) (by simpa using hother)
  · intro id' hid' hown
    exact hs.held id' (List.mem_cons_of_mem _ hid') hown

/-- A pass over the local players finds every one it looks up. -/
theorem not_lost_of_localPass {s : Pass Ref} {ids : List ℕ} {e : PlayerInfoError}
    (hs : Held (otherLocalPass nsn0) s ids)
    (h : loopOver (localTurn w player nsn0) s ids [] = .error e) : ¬ Lost e :=
  loopOver_not_error (P := Held (otherLocalPass nsn0)) (fun _ _ _ _ h ht => h.next ht)
    (fun _ _ _ _ h ht => not_lost_of_localTurn h ht) hs h

/-- A slot of the other pass stays as it is. -/
theorem sameSlot_of_localPass {s t : Pass Ref} {ids : List ℕ} {id : ℕ}
    (hother : otherLocalPass nsn0 (s.viewport.slotFlags id) = true)
    (h : loopOver (localTurn w player nsn0) s ids [] = .ok t) :
    SameSlot id s.viewport t.viewport := by
  apply loopOver_invariant (P := fun m => SameSlot id s.viewport m.viewport) _
    (.refl id s.viewport) h
  intro m t other rest _ hm hturn
  by_cases hne : id = other
  · rw [hm.slotFlags, hne] at hother
    obtain ⟨-, rfl⟩ | ⟨hown, -⟩ | ⟨hown, -⟩ := turn_cases hturn
    · exact hm
    · rw [hother] at hown
      cases hown
    · rw [hother] at hown
      cases hown
  · exact hm.trans (sameSlot_of_localTurn hne hturn)

end Local

section Outside
variable {nsn2 : Bool}

theorem otherOutsidePass_flag (nsn2 : Bool) (flags : Byte) :
    otherOutsidePass nsn2 (flags ||| 2) = otherOutsidePass nsn2 flags := by
  have hbit : (flags ||| 2) &&& 0x1 = flags &&& 0x1 := by
    rw [BitVec.and_or_distrib_right]
    exact BitVec.or_zero
  rw [otherOutsidePass, otherOutsidePass, hbit]

theorem outsideSkips_le (v : Viewport Ref) (rest : List ℕ) :
    outsideSkips w player nsn2 v rest ≤ (own (otherOutsidePass nsn2) v.slotFlags rest).length := by
  induction rest with
  | nil => exact Nat.zero_le _
  | cons id rest ih =>
    rw [outsideSkips]
    split_ifs with hother
    · simpa [own, hother] using ih
    · have hcons : (own (otherOutsidePass nsn2) v.slotFlags (id :: rest)).length =
          (own (otherOutsidePass nsn2) v.slotFlags rest).length + 1 := by
        simp [own, hother]
      rw [hcons]
      split
      next => omega
      next =>
        split_ifs
        · omega
        · omega

/-- The entry of a player that comes into view. -/
def Addition (entry : List Bool) : Prop := [true, false, false] <+: entry

private theorem not_addition_of_region {target : PlayerEntity} {last current : Word}
    {bits : List Bool} (h : appendRegionHash target last current = .ok bits) :
    ¬ Addition (true :: bits) := by
  obtain ⟨r, hr, -⟩ := RegionEntry.exists_of_appendRegionHash h
  rw [hr, Addition]
  cases r <;> simp [RegionEntry.bits]

theorem putsOne_outside (nsn2 : Bool) :
    PutsOne (otherOutsidePass nsn2) Addition (putOutsidePlayer w player nsn2) := by
  intro s id rest t h
  cases outsidePut_of_ok h with
  | nothing =>
    exact ⟨_, rfl, .inr (.inr ⟨rfl, outsideSkips_le s.viewport rest, slotFlags_flagNext _ _⟩)⟩
  | added ref entry _ _ v _ hv hentry =>
    have hstart : [true] <+: entry := List.IsPrefix.trans ⟨[false, false], rfl⟩ hentry
    refine ⟨entry, rfl, .inr (.inl ⟨hstart, hentry, rfl, ?_⟩)⟩
    rw [slotFlags_flagNext, hv]
  | moved ref bits _ hregion =>
    exact ⟨true :: bits, rfl, .inl ⟨⟨bits, rfl⟩, not_addition_of_region hregion, rfl, rfl⟩⟩

theorem not_lost_of_outsideTurn {s : Pass Ref} {id : ℕ} {rest : List ℕ} {e : PlayerInfoError}
    (h : outsideTurn w player nsn2 s id rest = .error e) : ¬ Lost e := by
  rw [outsideTurn, turn] at h
  split_ifs at h
  rw [putOutsidePlayer] at h
  split at h
  · cases h
  · dsimp only at h
    split_ifs at h
    · obtain herror | ⟨region, -, heq⟩ := bind_eq_error_iff.mp h
      · exact not_lost_of_putRegion herror
      · cases heq
    · obtain herror | ⟨bits, -, heq⟩ := bind_eq_error_iff.mp h
      · exact not_lost_of_appendRegionHash herror
      · cases heq

theorem not_lost_of_outsidePass {s : Pass Ref} {ids : List ℕ} {e : PlayerInfoError}
    (h : loopOver (outsideTurn w player nsn2) s ids [] = .error e) : ¬ Lost e :=
  loopOver_not_error (P := fun _ _ => True) (fun _ _ _ _ _ _ => trivial)
    (fun _ _ _ _ _ ht => not_lost_of_outsideTurn ht) trivial h

end Outside

/-- A viewport between two ticks. -/
structure Ready (v : Viewport Ref) : Prop where
  /-- The index lists share out the slots. -/
  partition : (v.localPlayerIndices ++ v.outPlayerIndices).Perm Viewport.slots
  locals : ∀ id ∈ v.localPlayerIndices, v.localPlayers id ≠ none
  outside : ∀ id ∈ v.outPlayerIndices, v.localPlayers id = none
  flags : ∀ id ∈ Viewport.slots, v.slotFlags id = 0 ∨ v.slotFlags id = 1

private theorem nodup_slots : Viewport.slots.Nodup := List.nodup_range'

private theorem foldl_initSlot (w : WorldView Ref) (index : ℕ) (ids : List ℕ)
    (s : Viewport Ref × List Bool) (hflags : ∀ id, s.1.slotFlags id = 0 ∨ s.1.slotFlags id = 1) :
    (ids.foldl (Viewport.initSlot w index) s).1.localPlayers = s.1.localPlayers ∧
      (ids.foldl (Viewport.initSlot w index) s).1.localPlayerIndices = s.1.localPlayerIndices ∧
      (ids.foldl (Viewport.initSlot w index) s).1.outPlayerIndices =
        s.1.outPlayerIndices ++ ids.filter (· ≠ index) ∧
      ∀ id, (ids.foldl (Viewport.initSlot w index) s).1.slotFlags id = 0 ∨
        (ids.foldl (Viewport.initSlot w index) s).1.slotFlags id = 1 := by
  induction ids generalizing s with
  | nil => simpa using hflags
  | cons id ids ih =>
    rw [List.foldl_cons]
    by_cases hown : id = index
    · have hstep : Viewport.initSlot w index s id = s := by rw [Viewport.initSlot, if_pos hown]
      rw [hstep]
      simpa [hown] using ih s hflags
    · have hstep : (Viewport.initSlot w index s id).1.localPlayers = s.1.localPlayers ∧
          (Viewport.initSlot w index s id).1.localPlayerIndices = s.1.localPlayerIndices ∧
          (Viewport.initSlot w index s id).1.outPlayerIndices = s.1.outPlayerIndices ++ [id] ∧
          ∀ other, (Viewport.initSlot w index s id).1.slotFlags other = 0 ∨
            (Viewport.initSlot w index s id).1.slotFlags other = 1 := by
        rw [Viewport.initSlot, if_neg hown]
        dsimp only
        split_ifs
        · exact ⟨rfl, rfl, rfl, hflags⟩
        · refine ⟨rfl, rfl, rfl, fun other => ?_⟩
          dsimp only
          by_cases hother : other = id
          · rw [hother, Function.update_self]
            obtain hflag | hflag := hflags id
            · rw [hflag]
              exact .inr rfl
            · rw [hflag]
              exact .inr rfl
          · rw [Function.update_of_ne hother]
            exact hflags other
      obtain ⟨h1, h2, h3, h4⟩ := hstep
      obtain ⟨i1, i2, i3, i4⟩ := ih _ h4
      refine ⟨i1.trans h1, i2.trans h2, ?_, i4⟩
      rw [i3, h3]
      simp [hown]

private theorem ready_of_foldl (w : WorldView Ref) (player : Ref) {index : ℕ}
    (hmem : index ∈ Viewport.slots) (s : Viewport Ref × List Bool)
    (hplayers : s.1.localPlayers = Function.update (fun _ => none) index (some player))
    (hlocal : s.1.localPlayerIndices = [index]) (hout : s.1.outPlayerIndices = [])
    (hflags : ∀ id, s.1.slotFlags id = 0 ∨ s.1.slotFlags id = 1) :
    Ready (Viewport.slots.foldl (Viewport.initSlot w index) s).1 := by
  obtain ⟨hplayers', hlocal', hout', hflags'⟩ := foldl_initSlot w index Viewport.slots s hflags
  rw [hplayers] at hplayers'
  rw [hlocal] at hlocal'
  rw [hout, List.nil_append] at hout'
  constructor
  · have herase : Viewport.slots.filter (· ≠ index) = Viewport.slots.erase index := by
      rw [nodup_slots.erase_eq_filter]
      apply List.filter_congr
      intro id _
      by_cases hid : id = index <;> simp [hid]
    rw [hlocal', hout', herase, List.singleton_append]
    exact (List.perm_cons_erase hmem).symm
  · intro id hid
    rw [hlocal', List.mem_singleton] at hid
    rw [hplayers', hid, Function.update_self]
    simp
  · intro id hid
    rw [hout'] at hid
    have hne : id ≠ index := by simpa using (List.mem_filter.mp hid).2
    rw [hplayers', Function.update_of_ne hne]
  · exact fun id _ => hflags' id

theorem ready_init {w : WorldView Ref} {player : Ref} {v : Viewport Ref} {buf : List Byte}
    (h : Viewport.init w player {} = .ok (v, buf)) : Ready v := by
  rw [Viewport.init] at h
  split_ifs at h with hindex
  have hlt := (w.entity player).index_lt
  have hmem : (w.entity player).index.toNat ∈ Viewport.slots := by
    rw [Viewport.slots, List.mem_range']
    exact ⟨(w.entity player).index.toNat - 1, by omega, by omega⟩
  injection h with h
  obtain ⟨rfl, -⟩ := Prod.mk.inj h
  exact ready_of_foldl w player hmem _ rfl rfl rfl (fun _ => .inl rfl)

/-- The viewports of a player: set up in one world, and told of any world at each tick. -/
inductive Reachable (player : Ref) : Viewport Ref → Prop
  | init (w : WorldView Ref) (v : Viewport Ref) (buf : List Byte)
      (h : Viewport.init w player {} = .ok (v, buf)) : Reachable player v
  /-- Cached appearances are dropped between ticks. -/
  | appearances (v : Viewport Ref) (cached : ℕ → Option (List Byte)) (h : Reachable player v) :
      Reachable player { v with cachedAppearanceHashes := cached }
  | tick (w : WorldView Ref) (v v' : Viewport Ref) (out : List Byte) (hv : Reachable player v)
      (h : createBufferFor w player v = .ok (v', out)) : Reachable player v'.resetForNextTransmit

/-- What a pass over the slots `ids` did from `v` on. -/
structure Accounted (other : Byte → Bool) (adds : List Bool → Prop) (v : Viewport Ref)
    (ids : List ℕ) (s : Pass Ref) (flagged : List ℕ) : Prop where
  nodup : ids.Nodup
  accounts : Accounts adds (own other v.slotFlags ids) s.bits flagged
  skipCount : s.skipCount = 0
  flags : s.viewport.slotFlags = flag v.slotFlags flagged


theorem Accounts.subset {adds : List Bool → Prop} {ids flagged : List ℕ} {bits : List Bool}
    (h : Accounts adds ids bits flagged) : flagged ⊆ ids := by
  induction h with
  | nil => exact List.Subset.refl _
  | entry id _ _ _ _ ih => exact List.subset_cons_of_subset id ih
  | added id _ _ _ _ ih => exact List.cons_subset_cons id ih
  | skip id skipped _ _ ih =>
    exact List.cons_subset_cons id (List.append_subset.mpr
      ⟨List.subset_append_left _ _, List.subset_append_of_subset_right _ ih⟩)

section Passes
variable {nsn : Bool} {v : Viewport Ref} {block : List Byte} {s : Pass Ref}

theorem accounted_of_local (hnodup : v.localPlayerIndices.Nodup)
    (hfits : v.localPlayerIndices.length < 2 ^ 11)
    (h : processLocalPlayers w player nsn v block = .ok s) :
    ∃ flagged, Accounted (otherLocalPass nsn) (fun _ => False) v v.localPlayerIndices s flagged := by
  obtain ⟨bits, flagged, hbits, haccounts, hskip, hflags⟩ :=
    accounts_of_loop (otherLocalPass_flag nsn) (putsOne_local nsn) hfits (Nat.zero_le _) h
  rw [List.nil_append] at hbits
  rw [List.take_zero, List.nil_append] at hflags
  exact ⟨flagged, hnodup, hbits ▸ haccounts, hskip, hflags⟩

/-- A pass leaves the index lists alone. -/
def SameLists (v v' : Viewport Ref) : Prop :=
  v'.localPlayerIndices = v.localPlayerIndices ∧ v'.outPlayerIndices = v.outPlayerIndices

theorem sameLists_of_local (h : processLocalPlayers w player nsn v block = .ok s) :
    SameLists v s.viewport := by
  apply loopOver_invariant (P := fun s => SameLists v s.viewport) _ ⟨rfl, rfl⟩ h
  intro s t id rest _ hs hturn
  obtain ⟨-, rfl⟩ | ⟨-, -, rfl⟩ | ⟨-, -, hput⟩ := turn_cases hturn
  · exact hs
  · exact hs
  · obtain ⟨ref, -, hput⟩ := localPut_of_ok hput
    cases hput with
    | removed => exact hs
    | moved => exact hs
    | unchanged _ _ v' _ _ _ hv => exact hv ▸ hs

theorem sameLists_of_outside (h : processOutsidePlayers w player nsn v block = .ok s) :
    SameLists v s.viewport := by
  apply loopOver_invariant (P := fun s => SameLists v s.viewport) _ ⟨rfl, rfl⟩ h
  intro s t id rest _ hs hturn
  obtain ⟨-, rfl⟩ | ⟨-, -, rfl⟩ | ⟨-, -, hput⟩ := turn_cases hturn
  · exact hs
  · exact hs
  · cases outsidePut_of_ok hput with
    | nothing => exact hs
    | added _ _ _ _ v' _ hv => exact hv ▸ hs
    | moved => exact hs

end Passes

section Ticks
variable {v : Viewport Ref}

theorem Ready.lists (h : Ready v) :
    (v.localPlayerIndices.Nodup ∧ v.localPlayerIndices.length < 2 ^ 11) ∧
      v.outPlayerIndices.Nodup ∧ v.outPlayerIndices.length < 2 ^ 11 := by
  have hnodup : (v.localPlayerIndices ++ v.outPlayerIndices).Nodup :=
    h.partition.nodup_iff.mpr nodup_slots
  have hlength : v.localPlayerIndices.length + v.outPlayerIndices.length = 2047 := by
    rw [← List.length_append, h.partition.length_eq, Viewport.slots, List.length_range']
  obtain ⟨hlocal, hout, -⟩ := List.nodup_append.mp hnodup
  exact ⟨⟨hlocal, by omega⟩, hout, by omega⟩

/-- The first pass leaves the second one its players. -/
private theorem held_second (h : Ready v) {s : Pass Ref}
    (hs : processLocalPlayers w player true v [] = .ok s) :
    Held (otherLocalPass false) { viewport := s.viewport, block := s.block }
      s.viewport.localPlayerIndices := by
  obtain ⟨⟨hnodup, hfits⟩, -⟩ := h.lists
  obtain ⟨flagged, haccounted⟩ := accounted_of_local hnodup hfits hs
  obtain ⟨hlists, -⟩ := sameLists_of_local hs
  constructor
  · rw [hlists]
    exact hnodup
  · intro id hid hown
    rw [hlists] at hid
    have hstable : otherLocalPass false (s.viewport.slotFlags id) =
        otherLocalPass false (v.slotFlags id) := by
      rw [haccounted.flags, flag]
      split_ifs
      · exact otherLocalPass_flag false _
      · rfl
    have hother : otherLocalPass true (v.slotFlags id) = true := by
      rw [hstable] at hown
      simpa [otherLocalPass] using hown
    have hslot := sameSlot_of_localPass (s := { viewport := v }) hother hs
    rw [← hslot.localPlayers]
    exact h.locals id hid

theorem not_lost_of_createBufferFor (h : Ready v) {e : PlayerInfoError}
    (he : createBufferFor w player v = .error e) : ¬ Lost e := by
  rw [createBufferFor] at he
  obtain he | ⟨s₁, h₁, he⟩ := bind_eq_error_iff.mp he
  · exact not_lost_of_localPass ⟨h.lists.1.1, fun id hid _ => h.locals id hid⟩ he
  obtain he | ⟨s₂, h₂, he⟩ := bind_eq_error_iff.mp he
  · exact not_lost_of_localPass (held_second h h₁) he
  obtain he | ⟨s₃, h₃, he⟩ := bind_eq_error_iff.mp he
  · exact not_lost_of_outsidePass he
  obtain he | ⟨s₄, h₄, he⟩ := bind_eq_error_iff.mp he
  · exact not_lost_of_outsidePass he
  · cases he

end Ticks

end OpenNXT.Model.PlayerInfoEncoder
