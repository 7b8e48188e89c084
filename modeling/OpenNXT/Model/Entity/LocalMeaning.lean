import OpenNXT.Model.Entity.LocalEntries
import OpenNXT.Model.Entity.PlayerInfoTurns

/-! Which change the entry of a local player is put for, and which entries can be taken for
each other. -/
namespace OpenNXT.Model
open Buffer Transition PlayerInfoEncoder

/-- How a player goes by its steps, and how far. -/
def movementOfSteps (movementType : Byte) (speed : MovementSpeed) (walk : CompassPoint) :
    Option CompassPoint → MovementMode × Displacement
  | none =>
    (if speed.idByte = movementType then .walk else .teleport speed, ⟨walk.dx, walk.dy, 0⟩)
  | some run =>
    let d : Displacement := ⟨walk.dx + run.dx, walk.dy + run.dy, 0⟩
    if d = 0 then (.still, 0)
    else if absLt d.x 2 ∧ absLt d.y 2 then (.corner walk, d)
    else (if speed.idByte = movementType then .run else .teleport speed, d)

def distance (location previousLocation : TileLocation) : Displacement where
  x := location.x - previousLocation.x
  y := location.y - previousLocation.y
  plane := location.plane - previousLocation.plane

/-- How a player moves, and by how much. -/
def movementOf (movementType : Byte) (target : PlayerEntity) : MovementMode × Displacement :=
  match target.movement.nextWalkDirection with
  | some walk => movementOfSteps movementType target.movement.currentSpeed walk
      target.movement.nextRunDirection
  | none =>
    if target.movement.currentSpeed = .instant then
      (.teleport .instant, distance target.location target.previousLocation)
    else (.still, 0)

/-- The run step takes back the walk step. -/
def Cancelled (target : PlayerEntity) : Prop :=
  ∃ walk run, target.movement.nextWalkDirection = some walk ∧
    target.movement.nextRunDirection = some run ∧ walk.dx + run.dx = 0 ∧ walk.dy + run.dy = 0

private theorem short_of_steps (walk : CompassPoint) (run : Option CompassPoint) :
    (⟨walk.dx + (run.map CompassPoint.dx).getD 0, walk.dy + (run.map CompassPoint.dy).getD 0, 0⟩ :
      Displacement).Short := by
  unfold Displacement.Short
  obtain _ | run := run
  · cases walk <;> decide
  · cases walk <;> cases run <;> decide

private theorem near_of_steps (walk : CompassPoint) (run : Option CompassPoint) :
    (⟨walk.dx + (run.map CompassPoint.dx).getD 0, walk.dy + (run.map CompassPoint.dy).getD 0, 0⟩ :
      Displacement).near := by
  obtain _ | run := run
  · cases walk <;> decide
  · cases walk <;> cases run <;> decide

section
variable {movementType movementType' : Byte} {speed : MovementSpeed} {walk run : CompassPoint}
  {mask : Bool} {bits : List Bool} {lastHash : Word}

/-- An entry for steps by `d`, and whether they cancel out. -/
private def SaysSteps (lastHash : Word) (mask : Bool) (bits : List Bool)
    (movement : MovementMode × Displacement) (cancelled : Prop) : Prop :=
  ∃ e : LocalEntry, true :: mask :: bits = e.bits ∧ (∀ r, e ≠ .removed r) ∧
    Says lastHash e (.moved movement.1 movement.2 mask) ∧ (e = .still mask ↔ cancelled)

private theorem says_teleport {dx dy : Word} (hn : (⟨dx, dy, 0⟩ : Displacement).near)
    (hs : (⟨dx, dy, 0⟩ : Displacement).Short) {cancelled : Prop} (hc : ¬ cancelled) :
    SaysSteps lastHash mask (putBits 2 3 ++ putBits 1 0 ++ putBits 15 (fiveBits dy +
      fiveBits dx <<< 5 + (0 : Word) <<< 10 + (speed.id + 1) <<< 12))
      (.teleport speed, ⟨dx, dy, 0⟩) cancelled := by
  have hplane : (0 : Word) &&& 0x3 = 0 := rfl
  have htype : putBits 2 3 = [true, true] := rfl
  have hlocal : putBits 1 0 = [false] := rfl
  refine ⟨.near mask (Displacement.nearField speed ⟨dx, dy, 0⟩), ?_, by simp, ?_, by simp [hc]⟩
  · rw [LocalEntry.bits, Displacement.nearField, fieldBits_setWidth (by omega), hplane, htype,
      hlocal]
    rfl
  · exact .near mask speed _ hn (.inr hs)

private theorem says_of_putSteps_none
    (h : putSteps movementType speed walk none = .ok (bits, movementType')) :
    SaysSteps lastHash mask bits (movementOfSteps movementType speed walk none) False := by
  have hx : walk.dx + ((none : Option CompassPoint).map CompassPoint.dx).getD 0 = walk.dx :=
    BitVec.add_zero _
  have hy : walk.dy + ((none : Option CompassPoint).map CompassPoint.dy).getD 0 = walk.dy :=
    BitVec.add_zero _
  have hshort := short_of_steps walk none
  have hnear := near_of_steps walk none
  have hmoves : ¬ (walk.dx = 0 ∧ walk.dy = 0) := by cases walk <;> decide
  rw [putSteps, hx, hy] at h
  rw [hx, hy] at hshort hnear
  rw [if_neg hmoves] at h
  split at h
  case isTrue htele =>
    cases h
    rw [movementOfSteps, if_neg htele.1]
    exact says_teleport hnear hshort not_false
  case isFalse htele =>
    have htype : speed.idByte = movementType := by
      by_contra hne
      exact htele ⟨hne, fun hcorner => by cases hcorner.2.2⟩
    obtain ⟨opcode, hopcode, heq⟩ := bind_eq_ok_iff.mp h
    cases heq
    rw [movementOfSteps, if_pos htype]
    have hstep := walkSteps_of_getWalkOpcode hopcode
    refine ⟨.walk mask (opcode.setWidth 3), ?_, by simp, ?_, by simp⟩
    · rw [LocalEntry.bits, fieldBits_setWidth (by omega)]
      rfl
    · have hmeans : Says lastHash _ _ := .walk mask (opcode.setWidth 3)
      rw [hstep] at hmeans
      exact hmeans

private theorem says_of_putSteps_some
    (h : putSteps movementType speed walk (some run) = .ok (bits, movementType')) :
    SaysSteps lastHash mask bits (movementOfSteps movementType speed walk (some run))
      (walk.dx + run.dx = 0 ∧ walk.dy + run.dy = 0) := by
  have hshort := short_of_steps walk (some run)
  have hnear := near_of_steps walk (some run)
  have hx : walk.dx + ((some run).map CompassPoint.dx).getD 0 = walk.dx + run.dx := rfl
  have hy : walk.dy + ((some run).map CompassPoint.dy).getD 0 = walk.dy + run.dy := rfl
  rw [hx, hy] at hshort hnear
  rw [putSteps, hx, hy] at h
  have hd : (⟨walk.dx + run.dx, walk.dy + run.dy, 0⟩ : Displacement) = 0 ↔
      walk.dx + run.dx = 0 ∧ walk.dy + run.dy = 0 := by
    constructor
    · intro h0
      injection h0 with h0 h1
      exact ⟨h0, h1⟩
    · intro h0
      rw [h0.1, h0.2]
      rfl
  split at h
  case isTrue htele =>
    cases h
    have hlarge : ¬ (absLt (walk.dx + run.dx) 2 ∧ absLt (walk.dy + run.dy) 2) :=
      fun hsmall => htele.2 ⟨hsmall.1, hsmall.2, rfl⟩
    have hmoves : ¬ (walk.dx + run.dx = 0 ∧ walk.dy + run.dy = 0) := by
      intro h0
      rw [h0.1, h0.2] at hlarge
      exact hlarge ⟨rfl, rfl⟩
    rw [movementOfSteps, if_neg (mt hd.mp hmoves), if_neg hlarge, if_neg htele.1]
    exact says_teleport hnear hshort hmoves
  case isFalse htele =>
    split at h
    case isTrue hzero =>
      cases h
      rw [movementOfSteps, if_pos (hd.mpr hzero)]
      exact ⟨.still mask, rfl, by simp, .still mask, by simp [hzero]⟩
    case isFalse hmoves =>
      rw [movementOfSteps, if_neg (mt hd.mp hmoves)]
      split at h
      case isTrue hsmall =>
        rw [if_pos hsmall]
        split at h
        case isTrue => cases h
        case isFalse =>
          obtain ⟨opcode, hopcode, h⟩ := bind_eq_ok_iff.mp h
          obtain ⟨first, hfirst, heq⟩ := bind_eq_ok_iff.mp h
          cases heq
          rw [BitVec.add_comm run.dx, BitVec.add_comm run.dy] at hopcode
          refine ⟨.corner mask (opcode.setWidth 3) (first.setWidth 2), ?_, by simp, ?_,
            iff_of_false (by simp) hmoves⟩
          · rw [LocalEntry.bits, fieldBits_setWidth (by omega), fieldBits_setWidth (by omega)]
            rfl
          · have hmeans : Says lastHash _ _ := .corner mask (opcode.setWidth 3) (first.setWidth 2)
            rw [walkSteps_of_getWalkOpcode hopcode, firstSteps_of_firstStep hfirst] at hmeans
            exact hmeans
      case isFalse hlarge =>
        have htype : speed.idByte = movementType := by
          by_contra hne
          exact htele ⟨hne, fun hsmall => hlarge ⟨hsmall.1, hsmall.2.1⟩⟩
        obtain ⟨opcode, hopcode, heq⟩ := bind_eq_ok_iff.mp h
        cases heq
        rw [if_neg hlarge, if_pos htype]
        refine ⟨.run mask (opcode.setWidth 4), ?_, by simp, ?_, iff_of_false (by simp) hmoves⟩
        · rw [LocalEntry.bits, fieldBits_setWidth (by omega)]
          rfl
        · have hmeans : Says lastHash _ _ := .run mask (opcode.setWidth 4)
          rw [runSteps_of_getRunOpcode hopcode] at hmeans
          exact hmeans

private theorem says_instant (location previousLocation : TileLocation) :
    SaysSteps lastHash mask (putInstant location previousLocation)
      (.teleport .instant, distance location previousLocation) False := by
  have htype : putBits 2 3 = [true, true] := rfl
  have hspeed : (4 : Word) = MovementSpeed.instant.id + 1 := rfl
  by_cases hn : (distance location previousLocation).near
  · refine ⟨.near mask (Displacement.nearField .instant (distance location previousLocation)), ?_,
      by simp, .near mask .instant _ hn (.inl rfl), by simp⟩
    have hnear : absLt (location.x - previousLocation.x) 16 ∧
        absLt (location.y - previousLocation.y) 16 := by
      simpa [Displacement.near, distance] using hn
    rw [LocalEntry.bits, Displacement.nearField, fieldBits_setWidth (by omega), putInstant, htype,
      if_pos hnear, hspeed]
    rfl
  · refine ⟨.far mask (Displacement.farField (distance location previousLocation)), ?_,
      by simp, .far mask _ hn, by simp⟩
    have hfar : ¬ (absLt (location.x - previousLocation.x) 16 ∧
        absLt (location.y - previousLocation.y) 16) := by
      simpa [Displacement.near, distance] using hn
    have hhead : putBits 1 1 ++ putBits 3 4 = [true, true, false, false] := rfl
    rw [LocalEntry.bits, Displacement.farField, fieldBits_setWidth (by omega), putInstant, htype,
      if_neg hfar, hhead]
    rfl

private theorem still_iff_of_says {e : LocalEntry} {mode : MovementMode} {d : Displacement}
    {cancelled : Prop} (hmeans : Says lastHash e (.moved mode d mask))
    (hc : e = .still mask ↔ cancelled) : e = .still false ↔ cancelled ∧ mask = false := by
  constructor
  · intro he
    rw [he] at hmeans
    obtain rfl : mask = false := by
      cases hmeans
      rfl
    exact ⟨hc.mp he, rfl⟩
  · intro h
    rw [hc.mpr h.1, h.2]

private theorem putBits_updates (mask : Bool) :
    putBits 1 1 ++ putBits 1 (if mask then 1 else 0) = [true, mask] := by
  cases mask <;> rfl

/-- What is put for a movement is an entry that says it. -/
theorem says_of_putMovement {target : PlayerEntity}
    (h : putMovement movementType target mask = .ok (some (bits, movementType'))) :
    ∃ e : LocalEntry, bits = e.bits ∧ (∀ r, e ≠ .removed r) ∧
      Says lastHash e (.moved (movementOf movementType target).1
        (movementOf movementType target).2 mask) ∧
      (e = .still false ↔ Cancelled target ∧ mask = false) := by
  rw [putMovement, putBits_updates] at h
  cases hwalk : target.movement.nextWalkDirection with
  | some walk =>
    rw [hwalk] at h
    obtain ⟨⟨steps, type⟩, hsteps, heq⟩ := bind_eq_ok_iff.mp h
    cases heq
    have hmovement : movementOf movementType target =
        movementOfSteps movementType target.movement.currentSpeed walk
          target.movement.nextRunDirection := by
      rw [movementOf, hwalk]
    rw [hmovement]
    cases hrun : target.movement.nextRunDirection with
    | none =>
      rw [hrun] at hsteps
      obtain ⟨e, he, hne, hmeans, hc⟩ :=
        says_of_putSteps_none  hsteps
      have hcancelled : False ↔ Cancelled target := by
        simp [Cancelled, hrun]
      exact ⟨e, he, hne, hmeans, still_iff_of_says hmeans (hc.trans hcancelled)⟩
    | some run =>
      rw [hrun] at hsteps
      obtain ⟨e, he, hne, hmeans, hc⟩ :=
        says_of_putSteps_some  hsteps
      have hcancelled : walk.dx + run.dx = 0 ∧ walk.dy + run.dy = 0 ↔ Cancelled target := by
        simp [Cancelled, hwalk, hrun]
      exact ⟨e, he, hne, hmeans, still_iff_of_says hmeans (hc.trans hcancelled)⟩
  | none =>
    rw [hwalk] at h
    have hcancelled : False ↔ Cancelled target := by
      simp [Cancelled, hwalk]
    rw [movementOf, hwalk]
    change (if _ then _ else _) = _ at h
    split_ifs at h with hspeed hmask
    · cases h
      obtain ⟨e, he, hne, hmeans, hc⟩ := says_instant 
        target.location target.previousLocation
      rw [if_pos hspeed]
      exact ⟨e, he, hne, hmeans, still_iff_of_says hmeans (hc.trans hcancelled)⟩
    · cases h
      rw [if_neg hspeed]
      have hmeans : Says lastHash (.still mask) (.moved .still 0 mask) := .still mask
      refine ⟨.still mask, rfl, by simp, hmeans, ?_⟩
      simp [← hcancelled, hmask]
    · cases h

/-- No entry is put for a player that stays and needs no update. -/
theorem movementOf_of_putMovement_none {target : PlayerEntity}
    (h : putMovement movementType target mask = .ok none) :
    movementOf movementType target = (.still, 0) ∧ mask = false ∧ ¬ Cancelled target := by
  rw [putMovement, putBits_updates] at h
  rw [movementOf, Cancelled]
  cases hwalk : target.movement.nextWalkDirection with
  | some walk =>
    rw [hwalk] at h
    obtain ⟨steps, -, heq⟩ := bind_eq_ok_iff.mp h
    cases heq
  | none =>
    rw [hwalk] at h
    change (if _ then _ else _) = _ at h
    split_ifs at h with hspeed hmask
    · cases h
    · cases h
    · exact ⟨if_neg hspeed, by simpa using hmask, by simp⟩

end

variable {Ref : Type} (w : WorldView Ref) (player : Ref) (nsn0 : Bool)

/-- The change of a local player that an entry is put for. -/
def localChange (v : Viewport Ref) (id : ℕ) (ref : Ref) (mask : Bool) : LocalChange :=
  let target := w.entity ref
  if needsRemove w player v target then
    .removed (regionDelta (v.regionHashes id) target.location.regionHash)
  else
    .moved (movementOf (v.movementTypes id) target).1 (movementOf (v.movementTypes id) target).2 mask

/-- In a pass over the local players of `v`, `bits` are put when it is the turn of `id`, whose
mask flag is `mask`. -/
def Emits (v : Viewport Ref) (block : List Byte) (id : ℕ) (ref : Ref) (mask : Bool)
    (bits : List Bool) : Prop :=
  ∃ front rest s t, v.localPlayerIndices = front ++ id :: rest ∧ id ∉ front ∧
    loopOver (localTurn w player nsn0) { viewport := v, block := block } front (id :: rest) = .ok s ∧
    localTurn w player nsn0 s id rest = .ok t ∧ t.bits = s.bits ++ bits ∧ bits ≠ [] ∧
    v.localPlayers id = some ref ∧
    mask = needsMaskUpdate s.viewport (w.entity ref) s.block.length

variable {w player nsn0}

/-- Until its turn a slot is as before the pass. -/
private theorem sameSlot_of_front {v : Viewport Ref} {block : List Byte} {id : ℕ}
    {front rest : List ℕ} {s : Pass Ref} (hid : id ∉ front)
    (h : loopOver (localTurn w player nsn0) { viewport := v, block := block } front rest = .ok s) :
    SameSlot id v s.viewport := by
  apply loopOver_invariant (P := fun s => SameSlot id v s.viewport) _ (.refl id v) h
  intro s t other rest hother hs hturn
  exact hs.trans (sameSlot_of_localTurn (ne_of_mem_of_not_mem hother hid).symm hturn)

section
variable {v : Viewport Ref} {block : List Byte} {id : ℕ} {ref : Ref} {mask : Bool}
  {bits : List Bool}

/-- What is emitted is an entry for the change. -/
theorem says_of_emits (h : Emits w player nsn0 v block id ref mask bits) :
    ∃ e : LocalEntry, bits = e.bits ∧
      Says (v.regionHashes id) e (localChange w player v id ref mask) ∧
      ((∃ r, e = .removed r) ↔ needsRemove w player v (w.entity ref) = true) ∧
      (e = .still false ↔ needsRemove w player v (w.entity ref) = false ∧
        Cancelled (w.entity ref) ∧ mask = false) := by
  obtain ⟨front, rest, s, t, -, hid, hfront, hturn, hbits, hne, href, hmask⟩ := h
  obtain ⟨hlocal, hregion, -, htype, hdistance⟩ := sameSlot_of_front hid hfront
  have hremoves : needsRemove w player s.viewport (w.entity ref) =
      needsRemove w player v (w.entity ref) := by
    rw [needsRemove, needsRemove, hdistance]
  obtain ⟨-, rfl⟩ | ⟨-, -, rfl⟩ | ⟨-, -, hput⟩ := turn_cases hturn
  · simp at hbits
    exact absurd hbits hne
  · simp at hbits
    exact absurd hbits hne
  · obtain ⟨ref', href', hput⟩ := localPut_of_ok hput
    obtain rfl : ref' = ref := by
      rw [← hlocal, href] at href'
      exact (Option.some.inj href').symm
    rw [localChange, ← hremoves, hregion, htype]
    cases hput with
    | removed region hremove hdelta =>
      have hb : [true, false, false, false] ++ region = bits := List.append_cancel_left hbits
      obtain ⟨r, hr, hdelta⟩ := RegionEntry.exists_of_putRegion hdelta
      refine ⟨.removed r, ?_, ?_, ?_, ?_⟩
      · rw [← hb, hr, LocalEntry.bits]
      · rw [if_pos hremove, ← hdelta]
        exact .removed r
      · simp [hremove]
      · simp [hremove]
    | moved cached block' put movementType hremove hmove =>
      have hb : put = bits := List.append_cancel_left hbits
      rw [← hmask] at hmove
      obtain ⟨e, he, hnot, hmeans, hstill⟩ := says_of_putMovement hmove
      refine ⟨e, hb ▸ he, ?_, ?_, ?_⟩
      · rw [hremove]
        exact hmeans
      · simp [hremove, hnot]
      · simp [hremove, hstill]
    | unchanged cached block' v' skipCount hremove hmove hv hskips =>
      have hb : false :: putSkip skipCount = bits := List.append_cancel_left hbits
      rw [← hmask] at hmove
      obtain ⟨hmovement, hfalse, hnot⟩ := movementOf_of_putMovement_none hmove
      refine ⟨.unchanged skipCount, ?_, ?_, ?_, ?_⟩
      · rw [← hb, LocalEntry.bits]
      · rw [hremove, hmovement, hfalse]
        exact .unchanged skipCount
      · simp [hremove]
      · simp [hnot]

/-- The steps of a player who is not removed cancel out, and nothing else is to be told. -/
def StepsBack (w : WorldView Ref) (player : Ref) (v : Viewport Ref) (ref : Ref) (mask : Bool) :
    Prop :=
  needsRemove w player v (w.entity ref) = false ∧ Cancelled (w.entity ref) ∧ mask = false

end

private theorem eq_of_unchanged {lastHash : Word} {n : ℕ} {c : LocalChange}
    (h : Says lastHash (.unchanged n) c) : c = .moved .still 0 false := by
  cases h
  rfl

private theorem ne_of_moved_of_removed {lastHash : Word} {r : RegionEntry} {c c' : LocalChange}
    (h : Says lastHash (.still false) c) (h' : Says lastHash (.removed r) c') : c ≠ c' := by
  cases h
  cases h'
  simp

private theorem ne_of_aliased {c c' : LocalChange} (h : c.Aliased c') : c ≠ c' := by
  obtain ⟨d, d', mask, rfl, rfl, hne, -⟩ := h
  simpa using hne

/-- Entries of which one begins with the other are for one change, except where a player stepped
back and the other entry removes the player, and for teleports that are sent alike. -/
theorem localChange_unambiguous_iff {w w' : WorldView Ref} {player player' : Ref}
    {nsn0 nsn0' : Bool} {v : Viewport Ref} {block block' : List Byte} {id : ℕ} {ref : Ref}
    {mask mask' : Bool} {bits bits' : List Bool}
    (h : Emits w player nsn0 v block id ref mask bits)
    (h' : Emits w' player' nsn0' v block' id ref mask' bits') :
    (Comparable bits bits' →
        localChange w player v id ref mask = localChange w' player' v id ref mask') ↔
      ¬ (StepsBack w player v ref mask ∧ needsRemove w' player' v (w'.entity ref) = true) ∧
        ¬ (needsRemove w player v (w.entity ref) = true ∧ StepsBack w' player' v ref mask') ∧
        ¬ (localChange w player v id ref mask).Aliased (localChange w' player' v id ref mask') := by
  obtain ⟨e, rfl, hmeans, hremoved, hstill⟩ := says_of_emits h
  obtain ⟨e', rfl, hmeans', hremoved', hstill'⟩ := says_of_emits h'
  have hbegins (r : RegionEntry) : Comparable (LocalEntry.still false).bits (LocalEntry.removed r).bits :=
    .inl (List.prefix_append _ _)
  constructor
  · intro hunique
    refine ⟨?_, ?_, ?_⟩
    · intro hbad
      obtain ⟨r, rfl⟩ := hremoved'.mpr hbad.2
      obtain rfl := hstill.mpr hbad.1
      exact ne_of_moved_of_removed hmeans hmeans' (hunique (hbegins r))
    · intro hbad
      obtain ⟨r, rfl⟩ := hremoved.mpr hbad.1
      obtain rfl := hstill'.mpr hbad.2
      exact ne_of_moved_of_removed hmeans' hmeans (hunique (hbegins r).symm).symm
    · intro halias
      obtain rfl := hmeans.eq_of_aliased hmeans' halias
      exact ne_of_aliased halias (hunique (comparable_self _))
  · intro hfine hcomparable
    obtain rfl | ⟨n, n', rfl, rfl⟩ | ⟨r, rfl, rfl⟩ | ⟨r, rfl, rfl⟩ :=
      LocalEntry.eq_of_comparable hcomparable
    · exact (hmeans.eq_or_aliased hmeans').resolve_right hfine.2.2
    · rw [eq_of_unchanged hmeans, eq_of_unchanged hmeans']
    · exact absurd ⟨hstill.mp rfl, hremoved'.mp ⟨r, rfl⟩⟩ hfine.1
    · exact absurd ⟨hremoved.mp ⟨r, rfl⟩, hstill'.mp rfl⟩ hfine.2.1

section samples

/-- A player that walks north and runs back south, next to the player that looks. -/
def steppedBack : WorldView Bool where
  entity b := if b then { location := ⟨3200, 3200, 0⟩, index := 1 } else
    { location := ⟨3200, 3201, 0⟩, index := 2,
      movement := { nextWalkDirection := some .north, nextRunDirection := some .south } }
  getPlayer _ := none

/-- The same player after it logged out. -/
def loggedOut : WorldView Bool where
  entity b := if b then { location := ⟨3200, 3200, 0⟩, index := 1 } else
    { location := ⟨3200, 3201, 0⟩ }
  getPlayer _ := none

def besidePlayer : Viewport Bool where
  localPlayers := fun i => if i = 2 then some false else none
  localPlayerIndices := [2]
  regionHashes := fun _ => 12850

private theorem emits_steppedBack :
    Emits steppedBack true true besidePlayer [] 2 false false [true, false, false, false] :=
  ⟨[], [], _, _, rfl, by simp, rfl, rfl, rfl, by simp, rfl, rfl⟩

private theorem emits_loggedOut :
    Emits loggedOut true true besidePlayer [] 2 false false [true, false, false, false, false] :=
  ⟨[], [], _, _, rfl, by simp, rfl, rfl, rfl, by simp, rfl, rfl⟩

theorem localChange_ambiguous :
    ¬ ∀ (w w' : WorldView Bool) (player player' : Bool) (nsn0 nsn0' : Bool) (v : Viewport Bool)
      (block block' : List Byte) (id : ℕ) (ref mask mask' : Bool) (bits bits' : List Bool),
      Emits w player nsn0 v block id ref mask bits →
      Emits w' player' nsn0' v block' id ref mask' bits' → Comparable bits bits' →
      localChange w player v id ref mask = localChange w' player' v id ref mask' := by
  intro h
  have hsame := h _ _ _ _ _ _ _ _ _ _ _ _ _ _ _ emits_steppedBack emits_loggedOut
    (.inl ⟨[false], rfl⟩)
  revert hsame
  decide

theorem localChange_unambiguous_iff_sample :
    (Comparable [true, false, false, false] [true, false, false, false] →
        localChange steppedBack true besidePlayer 2 false false =
          localChange steppedBack true besidePlayer 2 false false) ↔
      ¬ (StepsBack steppedBack true besidePlayer false false ∧
          needsRemove steppedBack true besidePlayer (steppedBack.entity false) = true) ∧
        ¬ (needsRemove steppedBack true besidePlayer (steppedBack.entity false) = true ∧
          StepsBack steppedBack true besidePlayer false false) ∧
        ¬ (localChange steppedBack true besidePlayer 2 false false).Aliased
          (localChange steppedBack true besidePlayer 2 false false) :=
  localChange_unambiguous_iff emits_steppedBack emits_steppedBack

end samples

end OpenNXT.Model
