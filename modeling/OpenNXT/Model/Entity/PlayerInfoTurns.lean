import OpenNXT.Model.Entity.PlayerInfoEncoder

/-! What the turn of a slot can do. -/
namespace OpenNXT.Model.PlayerInfoEncoder
open Buffer Transition
variable {Ref : Type}

theorem turn_cases {other : Byte → Bool}
    {put : Pass Ref → ℕ → List ℕ → Except PlayerInfoError (Pass Ref)} {s t : Pass Ref} {id : ℕ}
    {rest : List ℕ} (h : turn other put s id rest = .ok t) :
    (other (s.viewport.slotFlags id) = true ∧ t = s) ∨
      (other (s.viewport.slotFlags id) = false ∧ 0 < s.skipCount ∧
        t = { s with viewport := s.viewport.flagNext id, skipCount := s.skipCount - 1 }) ∨
      (other (s.viewport.slotFlags id) = false ∧ s.skipCount = 0 ∧ put s id rest = .ok t) := by
  rw [turn] at h
  split_ifs at h with hother hskip
  · cases h
    exact .inl ⟨hother, rfl⟩
  · cases h
    exact .inr (.inl ⟨by simpa using hother, hskip, rfl⟩)
  · exact .inr (.inr ⟨by simpa using hother, by omega, h⟩)

/-- An update block only changes the appearances that are cached. -/
theorem packUpdateBlock_fst (v : Viewport Ref) (target : PlayerEntity) (block : List Byte) :
    ∃ cached, (packUpdateBlock v target block).1 = { v with cachedAppearanceHashes := cached } := by
  rw [packUpdateBlock]
  cases needsAppearanceUpdate v target block.length
  · exact ⟨v.cachedAppearanceHashes, rfl⟩
  · exact ⟨_, rfl⟩

/-- Needed or not. -/
theorem ifNeeded_pack (v : Viewport Ref) (target : PlayerEntity) (block : List Byte) :
    ∃ cached block', (if needsMaskUpdate v target block.length then packUpdateBlock v target block
      else (v, block)) = ({ v with cachedAppearanceHashes := cached }, block') := by
  obtain ⟨cached, hv⟩ := packUpdateBlock_fst v target block
  split
  · exact ⟨cached, (packUpdateBlock v target block).2, Prod.ext hv rfl⟩
  · exact ⟨v.cachedAppearanceHashes, block, rfl⟩

section
variable (w : WorldView Ref) (player : Ref)

/-- What is put for the local player `ref` in slot `id`. -/
inductive LocalPut (nsn0 : Bool) (s : Pass Ref) (id : ℕ) (rest : List ℕ) (ref : Ref) :
    Pass Ref → Prop
  | removed (region : List Bool)
      (hremove : needsRemove w player s.viewport (w.entity ref) = true)
      (hregion : putRegion (w.entity ref) (s.viewport.regionHashes id) = .ok region) :
      LocalPut nsn0 s id rest ref { s with
        viewport := { s.viewport with
          regionHashes := Function.update s.viewport.regionHashes id
            (w.entity ref).location.regionHash
          localPlayers := Function.update s.viewport.localPlayers id none }
        bits := s.bits ++ ([true, false, false, false] ++ region) }
  | moved (cached : ℕ → Option (List Byte)) (block : List Byte) (bits : List Bool)
      (movementType : Byte)
      (hremove : needsRemove w player s.viewport (w.entity ref) = false)
      (hput : putMovement (s.viewport.movementTypes id) (w.entity ref)
        (needsMaskUpdate s.viewport (w.entity ref) s.block.length) =
          .ok (some (bits, movementType))) :
      LocalPut nsn0 s id rest ref { s with
        viewport := { s.viewport with
          regionHashes := Function.update s.viewport.regionHashes id
            (w.entity ref).location.regionHash
          cachedAppearanceHashes := cached
          movementTypes := Function.update s.viewport.movementTypes id movementType }
        bits := s.bits ++ bits
        block := block }
  | unchanged (cached : ℕ → Option (List Byte)) (block : List Byte) (v : Viewport Ref)
      (skipCount : ℕ)
      (hremove : needsRemove w player s.viewport (w.entity ref) = false)
      (hput : putMovement (s.viewport.movementTypes id) (w.entity ref)
        (needsMaskUpdate s.viewport (w.entity ref) s.block.length) = .ok none)
      (hv : v = { s.viewport with
        regionHashes := Function.update s.viewport.regionHashes id
          (w.entity ref).location.regionHash
        cachedAppearanceHashes := cached })
      (hskips : localSkips w player nsn0 v block.length rest = .ok skipCount) :
      LocalPut nsn0 s id rest ref
        { viewport := v.flagNext id
          skipCount := skipCount
          bits := s.bits ++ false :: putSkip skipCount
          block := block }

end

variable {w : WorldView Ref} {player : Ref} {nsn0 : Bool} {s t : Pass Ref} {id : ℕ}
  {rest : List ℕ}

theorem localPut_of_ok (h : putLocalPlayer w player nsn0 s id rest = .ok t) :
    ∃ ref, s.viewport.localPlayers id = some ref ∧ LocalPut w player nsn0 s id rest ref t := by
  rw [putLocalPlayer] at h
  cases hlocal : s.viewport.localPlayers id with
  | none =>
    rw [hlocal] at h
    cases h
  | some ref =>
    rw [hlocal] at h
    refine ⟨ref, rfl, ?_⟩
    cases hremove : needsRemove w player s.viewport (w.entity ref) with
    | true =>
      simp only [hremove, if_true] at h
      obtain ⟨region, hregion, heq⟩ := bind_eq_ok_iff.mp h
      cases heq
      exact .removed region hremove hregion
    | false =>
      simp only [hremove, Bool.false_eq_true, if_false] at h
      obtain ⟨cached, block, hpack⟩ := ifNeeded_pack { s.viewport with
        regionHashes := Function.update s.viewport.regionHashes id
          (w.entity ref).location.regionHash } (w.entity ref) s.block
      rw [hpack] at h
      split at h
      next => cases h
      next bits movementType hput =>
        cases h
        exact .moved cached block bits movementType hremove hput
      next hput =>
        obtain ⟨skipCount, hskips, heq⟩ := bind_eq_ok_iff.mp h
        cases heq
        exact .unchanged cached block _ skipCount hremove hput rfl hskips

/-- What the entry of a slot depends on. -/
structure SameSlot (id : ℕ) (v v' : Viewport Ref) : Prop where
  localPlayers : v.localPlayers id = v'.localPlayers id
  regionHashes : v.regionHashes id = v'.regionHashes id
  slotFlags : v.slotFlags id = v'.slotFlags id
  movementTypes : v.movementTypes id = v'.movementTypes id
  playerViewingDistance : v.playerViewingDistance = v'.playerViewingDistance

theorem SameSlot.refl (id : ℕ) (v : Viewport Ref) : SameSlot id v v := ⟨rfl, rfl, rfl, rfl, rfl⟩

theorem SameSlot.trans {id : ℕ} {v v' v'' : Viewport Ref} (h : SameSlot id v v')
    (h' : SameSlot id v' v'') : SameSlot id v v'' where
  localPlayers := h.localPlayers.trans h'.localPlayers
  regionHashes := h.regionHashes.trans h'.regionHashes
  slotFlags := h.slotFlags.trans h'.slotFlags
  movementTypes := h.movementTypes.trans h'.movementTypes
  playerViewingDistance := h.playerViewingDistance.trans h'.playerViewingDistance

theorem sameSlot_flagNext {id other : ℕ} (hne : id ≠ other) (v : Viewport Ref) :
    SameSlot id v (v.flagNext other) :=
  ⟨rfl, rfl, (Function.update_of_ne hne _ _).symm, rfl, rfl⟩

/-- A turn is about one slot. -/
theorem sameSlot_of_localTurn {other : ℕ} (hne : id ≠ other)
    (h : localTurn w player nsn0 s other rest = .ok t) : SameSlot id s.viewport t.viewport := by
  obtain ⟨-, rfl⟩ | ⟨-, -, rfl⟩ | ⟨-, -, hput⟩ := turn_cases h
  · exact .refl id t.viewport
  · exact sameSlot_flagNext hne s.viewport
  · obtain ⟨ref, -, hput⟩ := localPut_of_ok hput
    cases hput with
    | removed => constructor <;> simp [Function.update_of_ne hne]
    | moved => constructor <;> simp [Function.update_of_ne hne]
    | unchanged _ _ v _ _ _ hv =>
      apply SameSlot.trans _ (sameSlot_flagNext hne v)
      rw [hv]
      constructor <;> simp [Function.update_of_ne hne]

section
variable (w : WorldView Ref) (player : Ref)

/-- What is put for the outside slot `id`. -/
inductive OutsidePut (nsn2 : Bool) (s : Pass Ref) (id : ℕ) (rest : List ℕ) : Pass Ref → Prop
  | nothing : OutsidePut nsn2 s id rest (putNothing w player nsn2 s id rest)
  | added (ref : Ref) (entry : List Bool) (block : List Byte)
      (cached : ℕ → Option (List Byte)) (v : Viewport Ref) (hget : w.getPlayer id = some ref)
      (hv : v = { s.viewport with
        regionHashes := Function.update s.viewport.regionHashes id
          (w.entity ref).location.regionHash
        cachedAppearanceHashes := cached
        localPlayers := Function.update s.viewport.localPlayers id (some ref) })
      (hentry : [true, false, false] <+: entry) :
      OutsidePut nsn2 s id rest { s with
        viewport := v.flagNext id
        bits := s.bits ++ entry
        block := block }
  | moved (ref : Ref) (bits : List Bool) (hget : w.getPlayer id = some ref)
      (hregion : appendRegionHash (w.entity ref) (s.viewport.regionHashes id)
        (w.entity ref).location.regionHash = .ok bits) :
      OutsidePut nsn2 s id rest { s with
        viewport := { s.viewport with
          regionHashes := Function.update s.viewport.regionHashes id
            (w.entity ref).location.regionHash }
        bits := s.bits ++ true :: bits }

end

variable {nsn2 : Bool}

theorem outsidePut_of_ok (h : putOutsidePlayer w player nsn2 s id rest = .ok t) :
    OutsidePut w player nsn2 s id rest t := by
  rw [putOutsidePlayer] at h
  cases hget : w.getPlayer id with
  | none =>
    rw [hget] at h
    cases h
    exact .nothing
  | some ref =>
    rw [hget] at h
    cases hadd : needsAdd w player s.viewport (w.entity ref) with
    | true =>
      simp only [hadd, if_true] at h
      obtain ⟨region, hregion, heq⟩ := bind_eq_ok_iff.mp h
      cases heq
      obtain ⟨cached, hcached⟩ := packUpdateBlock_fst { s.viewport with
        regionHashes := Function.update s.viewport.regionHashes id
          (w.entity ref).location.regionHash } (w.entity ref) s.block
      rw [hcached]
      exact .added ref _ _ cached _ hget rfl ⟨_, rfl⟩
    | false =>
      simp only [hadd, Bool.false_eq_true, if_false] at h
      split at h
      · obtain ⟨bits, hregion, heq⟩ := bind_eq_ok_iff.mp h
        cases heq
        exact .moved ref bits hget hregion
      · cases h
        exact .nothing

end OpenNXT.Model.PlayerInfoEncoder
