import OpenNXT.Model.Entity.SlotAccounting

/-! The update blocks that the four passes append, and the appearances that are cached for them. -/
namespace OpenNXT.Model.PlayerInfoEncoder
open Buffer Transition
variable {Ref : Type}

section Blocks

/-- The mask that announces some blocks. -/
def maskOf (blocks : List UpdateBlock) : Word :=
  (blocks.map UpdateBlock.playerMask).foldl (· ||| ·) 0

/-- The block sent for a slot of the renderer: its own, or else a new appearance. -/
def sentBlock (appearance : Bool) (b : Option UpdateBlock × ℕ) : Option UpdateBlock :=
  match b.1 with
  | some current => some current
  | none => if appearance && b.2 == UpdateBlock.appearance.playerPos then some .appearance else none

/-- The blocks sent for a player, in the order of their slots. -/
def sentBlocks (appearance : Bool) (blocks : List (Option UpdateBlock)) : List UpdateBlock :=
  blocks.zipIdx.filterMap (sentBlock appearance)

private theorem getLsbD_foldl_or (masks : List Word) (mask : Word) (i : ℕ) :
    (masks.foldl (· ||| ·) mask).getLsbD i =
      (mask.getLsbD i || masks.any fun m => m.getLsbD i) := by
  induction masks generalizing mask with
  | nil => simp
  | cons m masks ih => rw [List.foldl_cons, ih, BitVec.getLsbD_or, List.any_cons, Bool.or_assoc]

theorem putBlocks_eq (model : PlayerModel) (appearance : Bool)
    (blocks : List (Option UpdateBlock)) :
    putBlocks model appearance blocks =
      (sentBlocks appearance blocks).flatMap fun b => b.encode model := by
  rw [putBlocks, sentBlocks]
  generalize blocks.zipIdx = slots
  induction slots with
  | nil => rfl
  | cons b slots ih =>
    rw [List.flatMap_cons, ih, List.filterMap_cons, sentBlock]
    cases hb : b.1 with
    | some current => simp
    | none => split_ifs <;> simp

private theorem sentBlock_eq_some_iff {appearance : Bool} {b : Option UpdateBlock × ℕ}
    {sent : UpdateBlock} :
    sentBlock appearance b = some sent ↔
      b.1 = some sent ∨ (b.1 = none ∧ appearance = true ∧ b.2 = 3 ∧ sent = .appearance) := by
  obtain ⟨current, pos⟩ := b
  cases current with
  | some current => simp [sentBlock]
  | none =>
    rw [sentBlock]
    split_ifs with h
    · have h' : appearance = true ∧ pos = 3 := by simpa [UpdateBlock.playerPos] using h
      simp [h']
    · have h' : ¬ (appearance = true ∧ pos = 3) := by simpa [UpdateBlock.playerPos] using h
      simp only [false_or, true_and, false_iff]
      exact fun hsent => h' ⟨hsent.1, hsent.2.1⟩

/-- Of the 30 slots of a renderer one is for the appearance. -/
theorem mem_sentBlocks {appearance : Bool} {blocks : List (Option UpdateBlock)}
    (hblocks : blocks.length = 30) {b : UpdateBlock} :
    b ∈ sentBlocks appearance blocks ↔
      (appearance = true ∧ b = .appearance) ∨ some b ∈ blocks := by
  rw [sentBlocks, List.mem_filterMap]
  constructor
  · rintro ⟨slot, hslot, hsent⟩
    obtain hb | ⟨-, happearance, -, hb⟩ := sentBlock_eq_some_iff.mp hsent
    · exact .inr (hb ▸ List.fst_mem_of_mem_zipIdx hslot)
    · exact .inl ⟨happearance, hb⟩
  · rintro (⟨happearance, rfl⟩ | hmem)
    · have hpos : 3 < blocks.length := by omega
      refine ⟨(blocks[3], 3), List.mk_mem_zipIdx_iff_getElem?.mpr (List.getElem?_eq_getElem hpos),
        sentBlock_eq_some_iff.mpr ?_⟩
      cases hb : blocks[3] with
      | some current =>
        -- There is one kind of block.
        cases current
        exact .inl rfl
      | none => exact .inr ⟨rfl, happearance, rfl, rfl⟩
    · obtain ⟨i, hi, hget⟩ := List.getElem_of_mem hmem
      exact ⟨(blocks[i], i), List.mk_mem_zipIdx_iff_getElem?.mpr (List.getElem?_eq_getElem hi),
        sentBlock_eq_some_iff.mpr (.inl hget)⟩

theorem maskOf_sentBlocks {blocks : List (Option UpdateBlock)} (hblocks : blocks.length = 30)
    (appearance : Bool) :
    (blocks.filterMap fun b => b.map UpdateBlock.playerMask).foldl (· ||| ·)
        (if appearance then UpdateBlock.appearance.playerMask else 0) =
      maskOf (sentBlocks appearance blocks) := by
  apply BitVec.eq_of_getLsbD_eq
  intro i _
  have hzero : (0 : Word).getLsbD i = false := BitVec.getLsbD_zero
  rw [maskOf, getLsbD_foldl_or, getLsbD_foldl_or, hzero, Bool.false_or, Bool.eq_iff_iff,
    Bool.or_eq_true, List.any_eq_true, List.any_eq_true]
  constructor
  · rintro (hbit | ⟨mask, hmask, hbit⟩)
    · cases appearance with
      | false => simp at hbit
      | true =>
        exact ⟨_, List.mem_map_of_mem ((mem_sentBlocks hblocks).mpr (.inl ⟨rfl, rfl⟩)), hbit⟩
    · obtain ⟨b, hb, heq⟩ := List.mem_filterMap.mp hmask
      obtain ⟨current, rfl, rfl⟩ := Option.map_eq_some_iff.mp heq
      exact ⟨_, List.mem_map_of_mem ((mem_sentBlocks hblocks).mpr (.inr hb)), hbit⟩
  · rintro ⟨mask, hmask, hbit⟩
    obtain ⟨b, hb, rfl⟩ := List.mem_map.mp hmask
    obtain ⟨rfl, rfl⟩ | hb := (mem_sentBlocks hblocks).mp hb
    · exact .inl hbit
    · exact .inr ⟨b.playerMask, List.mem_filterMap.mpr ⟨some b, hb, rfl⟩, hbit⟩

end Blocks

/-- What an update block is appended for, behind `size` bytes of others. -/
structure Update where
  id : ℕ
  target : PlayerEntity
  size : ℕ
  blocks : List UpdateBlock

def Update.bytes (u : Update) : List Byte :=
  putMask (maskOf u.blocks) ++ u.blocks.flatMap fun b => b.encode u.target.model

/-- The appearances that are cached and the update blocks. -/
structure Output where
  cached : ℕ → Option (List Byte)
  block : List Byte

namespace Output

/-- Whether a new appearance is due. -/
def due (o : Output) (target : PlayerEntity) : Bool :=
  needsAppearanceUpdate ({ cachedAppearanceHashes := o.cached } : Viewport Unit) target
    o.block.length

def update (o : Output) (told : ℕ × PlayerEntity) : Update :=
  ⟨told.1, told.2, o.block.length, sentBlocks (o.due told.2) told.2.blocks⟩

def pack (o : Output) (told : ℕ × PlayerEntity) : Output where
  cached :=
    if o.due told.2 then
      Function.update o.cached told.2.index.toNat (some told.2.model.hash)
    else o.cached
  block := o.block ++ (o.update told).bytes

/-- The update blocks for some players, one after the other. -/
def updates (o : Output) : List (ℕ × PlayerEntity) → List Update
  | [] => []
  | told :: rest => o.update told :: (o.pack told).updates rest

theorem updates_id (o : Output) (told : List (ℕ × PlayerEntity)) :
    (o.updates told).map Update.id = told.map Prod.fst := by
  induction told generalizing o with
  | nil => rfl
  | cons one rest ih =>
    rw [updates, List.map_cons, List.map_cons, ih]
    rfl

theorem block_foldl_pack (o : Output) (told : List (ℕ × PlayerEntity)) :
    (told.foldl pack o).block = o.block ++ (o.updates told).flatMap Update.bytes := by
  induction told generalizing o with
  | nil => simp [updates]
  | cons one rest ih =>
    rw [List.foldl_cons, ih, updates, List.flatMap_cons, ← List.append_assoc]
    rfl

theorem mem_updates {o : Output} {told : List (ℕ × PlayerEntity)} {u : Update}
    (hu : u ∈ o.updates told) :
    (u.id, u.target) ∈ told ∧
      ∃ appearance, u.blocks = sentBlocks appearance u.target.blocks := by
  induction told generalizing o with
  | nil => cases hu
  | cons one rest ih =>
    rw [updates] at hu
    obtain rfl | hu := List.mem_cons.mp hu
    · exact ⟨List.mem_cons_self .., o.due one.2, rfl⟩
    · obtain ⟨hmem, hblocks⟩ := ih hu
      exact ⟨List.mem_cons_of_mem _ hmem, hblocks⟩

end Output

/-- The output of a pass on its way. -/
def Pass.output (s : Pass Ref) : Output := ⟨s.viewport.cachedAppearanceHashes, s.block⟩

theorem packUpdateBlock_eq (v : Viewport Ref) {target : PlayerEntity}
    (hblocks : target.blocks.length = 30) (block : List Byte) (id : ℕ) :
    packUpdateBlock v target block =
      ({ v with cachedAppearanceHashes :=
          (Output.pack ⟨v.cachedAppearanceHashes, block⟩ (id, target)).cached },
        (Output.pack ⟨v.cachedAppearanceHashes, block⟩ (id, target)).block) := by
  have hdue : Output.due ⟨v.cachedAppearanceHashes, block⟩ target =
      needsAppearanceUpdate v target block.length := rfl
  rw [packUpdateBlock, maskOf_sentBlocks hblocks, putBlocks_eq, Output.pack, Output.update,
    Update.bytes, hdue, List.append_assoc]
  cases needsAppearanceUpdate v target block.length <;> rfl

/-- What the turn of a slot wrote, and the player that an update block was appended for. -/
structure Entry where
  id : ℕ
  bits : List Bool
  update : Option PlayerEntity

namespace Entry

/-- The second bit of an entry for a local player. -/
def maskFlag (e : Entry) : Bool :=
  match e.bits with
  | true :: mask :: _ => mask
  | _ => false

/-- An entry that adds a player. -/
def addition (e : Entry) : Bool :=
  match e.bits with
  | true :: false :: false :: _ => true
  | _ => false

def told (e : Entry) : Option (ℕ × PlayerEntity) := e.update.map fun target => (e.id, target)

def pack (e : Entry) (o : Output) : Output :=
  match e.told with
  | some told => o.pack told
  | none => o

end Entry

/-- A turn that wrote the entry `e`; `target` is the player of its slot. -/
structure Wrote (flagged : Entry → Bool) (target : Option PlayerEntity) (s : Pass Ref) (e : Entry)
    (t : Pass Ref) : Prop where
  bits : t.bits = s.bits ++ e.bits
  flagged : flagged e = e.update.isSome
  update : e.update = none ∨ e.update = target
  output : t.output = e.pack s.output

section Turns
variable {w : WorldView Ref} {player : Ref} {nsn : Bool} {s t : Pass Ref} {id : ℕ} {rest : List ℕ}

theorem maskFlag_of_putMovement {movementType : Byte} {target : PlayerEntity} {mask : Bool}
    {put : Option (List Bool × Byte)} (h : putMovement movementType target mask = .ok put)
    (update : Option PlayerEntity) :
    (put = none ∧ mask = false) ∨
      ∃ bits movementType', put = some (bits, movementType') ∧
        Entry.maskFlag ⟨id, bits, update⟩ = mask := by
  rw [putMovement] at h
  split at h
  next =>
    obtain ⟨steps, -, heq⟩ := bind_eq_ok_iff.mp h
    cases heq
    cases mask <;> exact .inr ⟨_, _, rfl, rfl⟩
  next =>
    split at h
    · cases h
      cases mask <;> exact .inr ⟨_, _, rfl, rfl⟩
    · cases mask with
      | false =>
        cases h
        exact .inl ⟨rfl, rfl⟩
      | true =>
        cases h
        exact .inr ⟨_, _, rfl, rfl⟩

theorem wrote_of_putLocalPlayer (hblocks : ∀ ref, (w.entity ref).blocks.length = 30)
    (h : putLocalPlayer w player nsn s id rest = .ok t) :
    ∃ bits update, Wrote Entry.maskFlag ((s.viewport.localPlayers id).map w.entity) s
      ⟨id, bits, update⟩ t := by
  rw [putLocalPlayer] at h
  cases hlocal : s.viewport.localPlayers id with
  | none =>
    rw [hlocal] at h
    cases h
  | some ref =>
    rw [hlocal] at h
    dsimp only at h
    split at h
    · obtain ⟨region, -, heq⟩ := bind_eq_ok_iff.mp h
      cases heq
      exact ⟨_, none, rfl, rfl, .inl rfl, rfl⟩
    · generalize hv : ({ s.viewport with
        regionHashes := Function.update s.viewport.regionHashes id
          (w.entity ref).location.regionHash } : Viewport Ref) = v at h
      have hcached : v.cachedAppearanceHashes = s.viewport.cachedAppearanceHashes := by rw [← hv]
      have hpack := packUpdateBlock_eq v (hblocks ref) s.block id
      rw [hcached] at hpack
      cases hmask : needsMaskUpdate v (w.entity ref) s.block.length with
      | true =>
        simp only [hmask, if_true, hpack] at h
        cases hput : putMovement (v.movementTypes id) (w.entity ref) true with
        | error e => simp [hput] at h
        | ok put =>
          obtain ⟨-, hfalse⟩ | ⟨bits, movementType, rfl, hflag⟩ :=
            maskFlag_of_putMovement hput (some (w.entity ref))
          · cases hfalse
          · simp only [hput, Except.ok.injEq] at h
            rw [← h]
            exact ⟨bits, some (w.entity ref), rfl, hflag, .inr rfl, rfl⟩
      | false =>
        simp only [hmask, Bool.false_eq_true, if_false] at h
        cases hput : putMovement (v.movementTypes id) (w.entity ref) false with
        | error e => simp [hput] at h
        | ok put =>
          obtain ⟨rfl, -⟩ | ⟨bits, movementType, rfl, hflag⟩ := maskFlag_of_putMovement hput none
          · simp only [hput] at h
            obtain ⟨skipCount, -, heq⟩ := bind_eq_ok_iff.mp h
            cases heq
            refine ⟨_, none, rfl, rfl, .inl rfl, ?_⟩
            simp [Pass.output, Viewport.flagNext, hcached, Entry.pack, Entry.told]
          · simp only [hput, Except.ok.injEq] at h
            rw [← h]
            refine ⟨bits, none, rfl, hflag, .inl rfl, ?_⟩
            simp [Pass.output, hcached, Entry.pack, Entry.told]

theorem not_addition_of_appendRegionHash {target : PlayerEntity} {last current : Word}
    {bits : List Bool} (h : appendRegionHash target last current = .ok bits)
    (update : Option PlayerEntity) : Entry.addition ⟨id, true :: bits, update⟩ = false := by
  rw [appendRegionHash] at h
  split_ifs at h
  · cases h
    rfl
  · obtain ⟨opcode, -, heq⟩ := bind_eq_ok_iff.mp h
    cases heq
    rfl
  · cases h
    rfl

theorem wrote_of_putOutsidePlayer (hblocks : ∀ ref, (w.entity ref).blocks.length = 30)
    (h : putOutsidePlayer w player nsn s id rest = .ok t) :
    ∃ bits update, Wrote Entry.addition ((w.getPlayer id).map w.entity) s ⟨id, bits, update⟩ t := by
  have hnothing (target : Option PlayerEntity) : ∃ bits update,
      Wrote Entry.addition target s ⟨id, bits, update⟩ (putNothing w player nsn s id rest) :=
    ⟨_, none, rfl, rfl, .inl rfl, rfl⟩
  rw [putOutsidePlayer] at h
  cases hget : w.getPlayer id with
  | none =>
    rw [hget] at h
    cases h
    exact hnothing _
  | some ref =>
    rw [hget] at h
    dsimp only at h
    split at h
    · obtain ⟨region, -, heq⟩ := bind_eq_ok_iff.mp h
      rw [packUpdateBlock_eq _ (hblocks ref) s.block id] at heq
      cases heq
      exact ⟨_, some (w.entity ref), rfl, rfl, .inr rfl, rfl⟩
    · split at h
      · obtain ⟨bits, hregion, heq⟩ := bind_eq_ok_iff.mp h
        cases heq
        exact ⟨true :: bits, none, rfl, not_addition_of_appendRegionHash hregion none, .inl rfl,
          rfl⟩
      · cases h
        exact hnothing _

end Turns

/-- The entries that a pass writes for its slots, in order. -/
inductive Written (other : Byte → Bool)
    (put : Pass Ref → ℕ → List ℕ → Except PlayerInfoError (Pass Ref)) (flagged : Entry → Bool)
    (playerAt : Pass Ref → ℕ → Option PlayerEntity) :
    Pass Ref → List ℕ → List Entry → Pass Ref → Prop
  | done (s : Pass Ref) : Written other put flagged playerAt s [] [] s
  | left {s t : Pass Ref} {id : ℕ} {ids : List ℕ} {entries : List Entry}
      (hother : other (s.viewport.slotFlags id) = true)
      (hrest : Written other put flagged playerAt s ids entries t) :
      Written other put flagged playerAt s (id :: ids) entries t
  | skipped {s t : Pass Ref} {id : ℕ} {ids : List ℕ} {entries : List Entry}
      (hother : other (s.viewport.slotFlags id) = false) (hskip : 0 < s.skipCount)
      (hrest : Written other put flagged playerAt
        { s with viewport := s.viewport.flagNext id, skipCount := s.skipCount - 1 } ids entries t) :
      Written other put flagged playerAt s (id :: ids) entries t
  | wrote {s m t : Pass Ref} {id : ℕ} {ids : List ℕ} {entries : List Entry} (bits : List Bool)
      (update : Option PlayerEntity) (hother : other (s.viewport.slotFlags id) = false)
      (hskip : s.skipCount = 0) (hput : put s id ids = .ok m)
      (hwrote : Wrote flagged (playerAt s id) s ⟨id, bits, update⟩ m)
      (hrest : Written other put flagged playerAt m ids entries t) :
      Written other put flagged playerAt s (id :: ids) (⟨id, bits, update⟩ :: entries) t

section Passes
variable {other : Byte → Bool}
  {put : Pass Ref → ℕ → List ℕ → Except PlayerInfoError (Pass Ref)} {flagged : Entry → Bool}
  {playerAt : Pass Ref → ℕ → Option PlayerEntity} {s t : Pass Ref} {ids : List ℕ}
  {entries : List Entry}

theorem written_of_loop
    (hput : ∀ s id rest t, put s id rest = .ok t →
      ∃ bits update, Wrote flagged (playerAt s id) s ⟨id, bits, update⟩ t)
    (h : loopOver (turn other put) s ids [] = .ok t) :
    ∃ entries, Written other put flagged playerAt s ids entries t := by
  induction ids generalizing s with
  | nil =>
    cases h
    exact ⟨[], .done _⟩
  | cons id ids ih =>
    obtain ⟨m, hm, ht⟩ := loopOver_cons.mp h
    rw [List.append_nil] at hm
    obtain ⟨entries, hrest⟩ := ih ht
    obtain ⟨hother, rfl⟩ | ⟨hother, hskip, rfl⟩ | ⟨hother, hskip, hm⟩ := turn_cases hm
    · exact ⟨entries, .left hother hrest⟩
    · exact ⟨entries, .skipped hother hskip hrest⟩
    · obtain ⟨bits, update, hwrote⟩ := hput s id ids m hm
      exact ⟨_, .wrote bits update hother hskip hm hwrote hrest⟩

namespace Written

theorem bits (h : Written other put flagged playerAt s ids entries t) :
    t.bits = s.bits ++ entries.flatMap Entry.bits := by
  induction h with
  | done => simp
  | left _ _ ih => exact ih
  | skipped _ _ _ ih => exact ih
  | wrote bits update _ _ _ hwrote _ ih =>
    rw [ih, hwrote.bits, List.flatMap_cons, List.append_assoc]

theorem output (h : Written other put flagged playerAt s ids entries t) :
    t.output = (entries.filterMap Entry.told).foldl Output.pack s.output := by
  induction h with
  | done => rfl
  | left _ _ ih => exact ih
  | skipped _ _ _ ih => exact ih
  | wrote bits update _ _ _ hwrote _ ih =>
    rw [ih, hwrote.output]
    cases update <;> rfl

/-- An update block goes with each flagged entry and with no other. -/
theorem told_id (h : Written other put flagged playerAt s ids entries t) :
    (entries.filterMap Entry.told).map Prod.fst = (entries.filter flagged).map Entry.id := by
  induction h with
  | done => rfl
  | left _ _ ih => exact ih
  | skipped _ _ _ ih => exact ih
  | wrote bits update _ _ _ hwrote _ ih =>
    rw [List.filterMap_cons, List.filter_cons, hwrote.flagged]
    cases update with
    | none => exact ih
    | some target => exact congrArg (_ :: ·) ih

theorem playerAt_of_told (h : Written other put flagged playerAt s ids entries t)
    {told : ℕ × PlayerEntity} (htold : told ∈ entries.filterMap Entry.told) :
    ∃ s, playerAt s told.1 = some told.2 := by
  induction h with
  | done => cases htold
  | left _ _ ih => exact ih htold
  | skipped _ _ _ ih => exact ih htold
  | wrote bits update _ _ _ hwrote _ ih =>
    cases update with
    | none => exact ih htold
    | some target =>
      obtain rfl | htold := List.mem_cons.mp htold
      · obtain hnone | hsome := hwrote.update
        · cases hnone
        · exact ⟨_, hsome.symm⟩
      · exact ih htold

/-- The entries are for slots of the pass, in their order. -/
theorem sublist (h : Written other put flagged playerAt s ids entries t) :
    (entries.map Entry.id).Sublist ids := by
  induction h with
  | done => exact List.Sublist.refl _
  | left _ _ ih => exact ih.cons _
  | skipped _ _ _ ih => exact ih.cons _
  | wrote _ _ _ _ _ _ _ ih => exact ih.cons_cons _

end Written
end Passes

section Frame
variable (w : WorldView Ref) (player : Ref)

/-- The entries of a pass over the local players. -/
abbrev LocalEntries (nsn0 : Bool) (v : Viewport Ref) (block : List Byte) (entries : List Entry)
    (t : Pass Ref) : Prop :=
  Written (otherLocalPass nsn0) (putLocalPlayer w player nsn0) Entry.maskFlag
    (fun s id => (s.viewport.localPlayers id).map w.entity) { viewport := v, block := block }
    v.localPlayerIndices entries t

/-- The entries of a pass over the outside players. -/
abbrev OutsideEntries (nsn2 : Bool) (v : Viewport Ref) (block : List Byte) (entries : List Entry)
    (t : Pass Ref) : Prop :=
  Written (otherOutsidePass nsn2) (putOutsidePlayer w player nsn2) Entry.addition
    (fun _ id => (w.getPlayer id).map w.entity) { viewport := v, block := block }
    v.outPlayerIndices entries t

/-- What the four passes of a frame write. -/
structure FrameEntries (v : Viewport Ref) where
  s₁ : Pass Ref
  s₂ : Pass Ref
  s₃ : Pass Ref
  s₄ : Pass Ref
  e₁ : List Entry
  e₂ : List Entry
  e₃ : List Entry
  e₄ : List Entry
  first : LocalEntries w player true v [] e₁ s₁
  second : LocalEntries w player false s₁.viewport s₁.block e₂ s₂
  third : OutsideEntries w player true s₂.viewport s₂.block e₃ s₃
  fourth : OutsideEntries w player false s₃.viewport s₃.block e₄ s₄

end Frame

namespace FrameEntries
variable {w : WorldView Ref} {player : Ref} {v : Viewport Ref}

/-- Those that an update block is appended for: the entries of local players with their mask flag
set, and those that add a player. -/
def flagged (f : FrameEntries w player v) : List Entry :=
  (f.e₁ ++ f.e₂).filter Entry.maskFlag ++ (f.e₃ ++ f.e₄).filter Entry.addition

def told (f : FrameEntries w player v) : List (ℕ × PlayerEntity) :=
  (f.e₁ ++ f.e₂ ++ f.e₃ ++ f.e₄).filterMap Entry.told

/-- The update blocks of the frame. -/
def updates (f : FrameEntries w player v) : List Update :=
  Output.updates ⟨v.cachedAppearanceHashes, []⟩ f.told

/-- The bytes of the frame. -/
def bytes (f : FrameEntries w player v) : List Byte :=
  packBits (f.e₁.flatMap Entry.bits) ++ packBits (f.e₂.flatMap Entry.bits) ++
    packBits (f.e₃.flatMap Entry.bits) ++ packBits (f.e₄.flatMap Entry.bits) ++
    f.updates.flatMap Update.bytes

theorem updates_id (f : FrameEntries w player v) :
    f.updates.map Update.id = f.flagged.map Entry.id := by
  rw [updates, Output.updates_id, told, List.filterMap_append, List.filterMap_append,
    List.filterMap_append, List.map_append, List.map_append, List.map_append, f.first.told_id,
    f.second.told_id, f.third.told_id, f.fourth.told_id, flagged, List.filter_append,
    List.filter_append, List.map_append, List.map_append, List.map_append, List.append_assoc,
    List.append_assoc]

theorem output (f : FrameEntries w player v) :
    f.s₄.output = f.told.foldl Output.pack ⟨v.cachedAppearanceHashes, []⟩ := by
  have h₁ : f.s₁.output = (f.e₁.filterMap Entry.told).foldl Output.pack
      ⟨v.cachedAppearanceHashes, []⟩ := f.first.output
  have h₂ : f.s₂.output = (f.e₂.filterMap Entry.told).foldl Output.pack f.s₁.output :=
    f.second.output
  have h₃ : f.s₃.output = (f.e₃.filterMap Entry.told).foldl Output.pack f.s₂.output :=
    f.third.output
  have h₄ : f.s₄.output = (f.e₄.filterMap Entry.told).foldl Output.pack f.s₃.output :=
    f.fourth.output
  rw [told, List.filterMap_append, List.filterMap_append, List.filterMap_append, List.foldl_append,
    List.foldl_append, List.foldl_append, h₄, h₃, h₂, h₁]

theorem exists_ref_of_told (f : FrameEntries w player v) {told : ℕ × PlayerEntity}
    (htold : told ∈ f.told) : ∃ ref, w.entity ref = told.2 := by
  have hexists : ∃ ref : Option Ref, ref.map w.entity = some told.2 := by
    rw [FrameEntries.told, List.filterMap_append, List.filterMap_append, List.filterMap_append,
      List.mem_append, List.mem_append, List.mem_append] at htold
    obtain ((htold | htold) | htold) | htold := htold
    · exact (f.first.playerAt_of_told htold).imp' _ fun _ => id
    · exact (f.second.playerAt_of_told htold).imp' _ fun _ => id
    · exact (f.third.playerAt_of_told htold).imp' _ fun _ => id
    · exact (f.fourth.playerAt_of_told htold).imp' _ fun _ => id
  obtain ⟨ref, href⟩ := hexists
  obtain ⟨ref, -, href⟩ := Option.map_eq_some_iff.mp href
  exact ⟨ref, href⟩

theorem block (f : FrameEntries w player v) : f.s₄.block = f.updates.flatMap Update.bytes := by
  have hblock := Output.block_foldl_pack ⟨v.cachedAppearanceHashes, []⟩ f.told
  rw [← f.output] at hblock
  exact hblock

theorem exists_of_createBufferFor (hblocks : ∀ ref, (w.entity ref).blocks.length = 30)
    {v' : Viewport Ref} {out : List Byte} (h : createBufferFor w player v = .ok (v', out)) :
    ∃ f : FrameEntries w player v, f.s₄.viewport = v' ∧ f.bytes = out := by
  rw [createBufferFor] at h
  obtain ⟨s₁, h₁, h⟩ := bind_eq_ok_iff.mp h
  obtain ⟨s₂, h₂, h⟩ := bind_eq_ok_iff.mp h
  obtain ⟨s₃, h₃, h⟩ := bind_eq_ok_iff.mp h
  obtain ⟨s₄, h₄, heq⟩ := bind_eq_ok_iff.mp h
  cases heq
  have hlocal (nsn0 : Bool) (s : Pass Ref) (id : ℕ) (rest : List ℕ) (t : Pass Ref)
      (hput : putLocalPlayer w player nsn0 s id rest = .ok t) := wrote_of_putLocalPlayer hblocks hput
  have houtside (nsn2 : Bool) (s : Pass Ref) (id : ℕ) (rest : List ℕ) (t : Pass Ref)
      (hput : putOutsidePlayer w player nsn2 s id rest = .ok t) :=
    wrote_of_putOutsidePlayer hblocks hput
  obtain ⟨e₁, w₁⟩ := written_of_loop (hlocal true) h₁
  obtain ⟨e₂, w₂⟩ := written_of_loop (hlocal false) h₂
  obtain ⟨e₃, w₃⟩ := written_of_loop (houtside true) h₃
  obtain ⟨e₄, w₄⟩ := written_of_loop (houtside false) h₄
  let f : FrameEntries w player v := ⟨s₁, s₂, s₃, s₄, e₁, e₂, e₃, e₄, w₁, w₂, w₃, w₄⟩
  refine ⟨f, rfl, ?_⟩
  rw [bytes, ← f.block, w₁.bits, w₂.bits, w₃.bits, w₄.bits]
  rfl

end FrameEntries

/-- Whether the cache is told of an appearance that is sent. -/
def Update.hashed (u : Update) : Bool := !(u.size > (7500 - 500) / 2) && !u.target.model.hash.isEmpty

/-- The appearances last sent, by the index of the player. -/
def Update.send (sent : ℕ → Option (List Byte)) (u : Update) : ℕ → Option (List Byte) :=
  if .appearance ∈ u.blocks then
    Function.update sent u.target.index.toNat (some u.target.model.data)
  else sent

/-- The players whose last appearance the cache was not told of. -/
def Update.miss (missed : ℕ → Bool) (u : Update) : ℕ → Bool :=
  if .appearance ∈ u.blocks then Function.update missed u.target.index.toNat !u.hashed else missed

/-- The hash of a model that was refreshed is that of its data. -/
def Hashed (md5 : List Byte → List Byte) (model : PlayerModel) : Prop :=
  model.hash ≠ [] → model.hash = md5 model.data

/-- The cache has the hashes of the appearances last sent, but for those that it missed. -/
def CachesSent (md5 : List Byte → List Byte) (cached : ℕ → Option (List Byte))
    (sent : ℕ → Option (List Byte)) (missed : ℕ → Bool) : Prop :=
  ∀ id data, sent id = some data → missed id = false → cached id = some (md5 data)

private theorem due_eq (o : Output) (told : ℕ × PlayerEntity) :
    o.due told.2 =
      ((o.update told).hashed && o.cached told.2.index.toNat != some told.2.model.hash) := by
  rw [Output.due, needsAppearanceUpdate, Update.hashed, Output.update]
  cases hsize : decide (o.block.length > (7500 - 500) / 2) <;>
    cases hempty : told.2.model.hash.isEmpty <;> simp_all

private theorem update_ite_apply {α : Type} {c : Prop} [Decidable c] (f : ℕ → α) (i : ℕ) (a : α)
    (id : ℕ) :
    (if c then Function.update f i a else f) id = if c ∧ id = i then a else f id := by
  by_cases hc : c
  · rw [if_pos hc, Function.update_apply]
    simp [hc]
  · simp [hc]

/-- One update block. -/
theorem cachesSent_pack {md5 : List Byte → List Byte} {o : Output} {sent : ℕ → Option (List Byte)}
    {missed : ℕ → Bool} (h : CachesSent md5 o.cached sent missed) {told : ℕ × PlayerEntity}
    (hblocks : told.2.blocks.length = 30) (hmodel : Hashed md5 told.2.model) :
    CachesSent md5 (o.pack told).cached ((o.update told).send sent)
      ((o.update told).miss missed) := by
  have hdue := due_eq o told
  intro id data hsent hmissed
  rw [Update.send, update_ite_apply] at hsent
  rw [Update.miss, update_ite_apply] at hmissed
  have hcached : (o.pack told).cached id =
      if o.due told.2 ∧ id = told.2.index.toNat then some told.2.model.hash else o.cached id :=
    update_ite_apply ..
  rw [hcached]
  by_cases hid : id = told.2.index.toNat
  · by_cases happearance : .appearance ∈ (o.update told).blocks
    · rw [if_pos ⟨happearance, hid⟩] at hsent hmissed
      have hdata : told.2.model.data = data := Option.some.inj hsent
      have hhashed : (o.update told).hashed = true := by simpa using hmissed
      have hhash : told.2.model.hash = md5 data := by
        rw [← hdata]
        apply hmodel
        rw [Update.hashed, Bool.and_eq_true] at hhashed
        simpa [Output.update] using hhashed.2
      split_ifs with hnew
      · rw [hhash]
      · have hsame : o.cached told.2.index.toNat = some told.2.model.hash := by
          simpa [hdue, hhashed, hid] using hnew
        rw [hid, hsame, hhash]
    · have hold : ¬ o.due told.2 = true := fun hnew =>
        happearance ((mem_sentBlocks hblocks).mpr (.inl ⟨hnew, rfl⟩))
      rw [if_neg fun hboth => happearance hboth.1] at hsent hmissed
      rw [if_neg fun hboth => hold hboth.1]
      exact h id data hsent hmissed
  · rw [if_neg fun hboth => hid hboth.2] at hsent hmissed ⊢
    exact h id data hsent hmissed

/-- The update blocks of a frame. -/
theorem cachesSent_foldl {md5 : List Byte → List Byte} {o : Output}
    {sent : ℕ → Option (List Byte)} {missed : ℕ → Bool} {told : List (ℕ × PlayerEntity)}
    (h : CachesSent md5 o.cached sent missed)
    (htold : ∀ one ∈ told, one.2.blocks.length = 30 ∧ Hashed md5 one.2.model) :
    CachesSent md5 (told.foldl Output.pack o).cached ((o.updates told).foldl Update.send sent)
      ((o.updates told).foldl Update.miss missed) := by
  induction told generalizing o sent missed with
  | nil => exact h
  | cons one rest ih =>
    obtain ⟨hblocks, hmodel⟩ := htold one (List.mem_cons_self ..)
    exact ih (cachesSent_pack h hblocks hmodel)
      fun other hmem => htold other (List.mem_cons_of_mem one hmem)

theorem cachedAppearanceHashes_resetForNextTransmit (v : Viewport Ref) :
    v.resetForNextTransmit.cachedAppearanceHashes = v.cachedAppearanceHashes := by
  rw [Viewport.resetForNextTransmit]
  generalize hcleared : ({ v with
    localPlayerIndices := [], outPlayerIndices := [], localAddedPlayers := 0 } : Viewport Ref) = v₀
  have hsame : v.cachedAppearanceHashes = v₀.cachedAppearanceHashes := by rw [← hcleared]
  rw [hsame]
  generalize Viewport.slots = ids
  clear hcleared hsame
  induction ids generalizing v₀ with
  | nil => rfl
  | cons id ids ih =>
    rw [List.foldl_cons, ih, Viewport.resetSlot]
    dsimp only
    cases v₀.localPlayers id <;> rfl

/-- The hash of the own appearance is dropped, that it is sent again. -/
def forceAppearance (v : Viewport Ref) (forced : Bool) (index : ℕ) : Viewport Ref :=
  if forced then
    { v with cachedAppearanceHashes := Function.update v.cachedAppearanceHashes index none }
  else v

/-- The viewport after some frames of the player, and what was sent and missed in them. -/
inductive Frames (md5 : List Byte → List Byte) (player : Ref) :
    Viewport Ref → (ℕ → Option (List Byte)) → (ℕ → Bool) → Prop
  | start (v : Viewport Ref) (sent : ℕ → Option (List Byte))
      (h : CachesSent md5 v.cachedAppearanceHashes sent fun _ => false) :
      Frames md5 player v sent fun _ => false
  /-- Without an opcode for the players. -/
  | idle {v : Viewport Ref} {sent : ℕ → Option (List Byte)} {missed : ℕ → Bool}
      (h : Frames md5 player v sent missed) :
      Frames md5 player v.resetForNextTransmit sent missed
  | frame {v v' : Viewport Ref} {sent : ℕ → Option (List Byte)} {missed : ℕ → Bool}
      {out : List Byte} (w : WorldView Ref) (index : ℕ) (forced : Bool)
      (h : Frames md5 player v sent missed) (hindex : (w.entity player).index = index)
      (hblocks : ∀ ref, (w.entity ref).blocks.length = 30)
      (hmodels : ∀ ref, Hashed md5 (w.entity ref).model)
      (hbuffer : createBufferFor w player (forceAppearance v forced index) = .ok (v', out))
      (f : FrameEntries w player (forceAppearance v forced index))
      (hf : f.s₄.viewport = v') :
      Frames md5 player v'.resetForNextTransmit (f.updates.foldl Update.send sent)
        (f.updates.foldl Update.miss (if forced then Function.update missed index true else missed))

theorem cachesSent_of_frames {md5 : List Byte → List Byte} {player : Ref} {v : Viewport Ref}
    {sent : ℕ → Option (List Byte)} {missed : ℕ → Bool} (h : Frames md5 player v sent missed) :
    CachesSent md5 v.cachedAppearanceHashes sent missed := by
  induction h with
  | start _ _ h => exact h
  | idle _ ih =>
    rw [cachedAppearanceHashes_resetForNextTransmit]
    exact ih
  | @frame v v' sent missed out w index forced _ _ hblocks hmodels _ f hf ih =>
    have hforced : CachesSent md5 (forceAppearance v forced index).cachedAppearanceHashes sent
        (if forced then Function.update missed index true else missed) := by
      intro id data hsent hmissed
      cases forced with
      | false => exact ih id data hsent hmissed
      | true =>
        rw [if_pos rfl] at hmissed
        have hid : id ≠ index := by
          rintro rfl
          simp at hmissed
        rw [Function.update_of_ne hid] at hmissed
        exact (Function.update_of_ne hid _ _).trans (ih id data hsent hmissed)
    have htold (one : ℕ × PlayerEntity) (hmem : one ∈ f.told) :
        one.2.blocks.length = 30 ∧ Hashed md5 one.2.model := by
      obtain ⟨ref, href⟩ := f.exists_ref_of_told hmem
      exact href ▸ ⟨hblocks ref, hmodels ref⟩
    have hfold := @cachesSent_foldl md5 ⟨_, []⟩ sent _ f.told hforced htold
    rw [← f.output] at hfold
    rw [cachedAppearanceHashes_resetForNextTransmit, ← hf]
    exact hfold

/-- In every frame the update blocks are one for each flagged entry, in order, each behind the mask
of its blocks; and in every run the cache has the hashes of the appearances last sent, but for an own
hash that was dropped and for an appearance that went out over the limit or without a hash. -/
theorem updates_of_frames (md5 : List Byte → List Byte) (player : Ref) :
    (∀ w v v' out, (∀ ref, (w.entity ref).blocks.length = 30) →
      createBufferFor w player v = .ok (v', out) →
      ∃ f : FrameEntries w player v, f.s₄.viewport = v' ∧ f.bytes = out ∧
        f.updates.map Update.id = f.flagged.map Entry.id ∧
        ∀ u ∈ f.updates, ∃ appearance, u.blocks = sentBlocks appearance u.target.blocks) ∧
    ∀ v sent missed, Frames md5 player v sent missed →
      CachesSent md5 v.cachedAppearanceHashes sent missed := by
  constructor
  · intro w v v' out hblocks h
    obtain ⟨f, hviewport, hbytes⟩ := FrameEntries.exists_of_createBufferFor hblocks h
    exact ⟨f, hviewport, hbytes, f.updates_id, fun u hu => (Output.mem_updates hu).2⟩
  · intro v sent missed h
    exact cachesSent_of_frames h

section Crowd

/-- The MD5 hash of 250 zeros. -/
def crowdHash : List Byte :=
  [34, 224, 65, 44, 80, 46, 153, 138, 122, 137, 208, 129, 59, 200, 186, 94]

/-- Fifteen players next to each other. -/
def crowd : WorldView ℕ where
  entity i := {
    location := ⟨3200, 3200, 0⟩
    index := (i % 2048 : ℕ)
    index_lt := PlayerEntity.natCast_mod_lt i
    model := { data := List.replicate 250 0, hash := crowdHash } }
  getPlayer i := if 1 ≤ i ∧ i ≤ 15 then some i else none

/-- What the player in slot 15 sees of them; it was sent its own appearance. -/
def crowdView : Viewport ℕ where
  localPlayers i := if 1 ≤ i ∧ i ≤ 15 then some i else none
  localPlayerIndices := List.range' 1 15
  cachedAppearanceHashes i := if i = 15 then some crowdHash else none

private theorem blocks_crowd (i : ℕ) : (crowd.entity i).blocks.length = 30 := List.length_replicate

/-- The player in slot 15 on its own. -/
def loneView : Viewport ℕ where
  localPlayers i := if i = 15 then some i else none
  localPlayerIndices := [15]

private theorem isOk_lone : (createBufferFor crowd 15 loneView).isOk = true := by
  decide +kernel

theorem updates_of_frames_lone :
    (∃ v' out, createBufferFor crowd 15 loneView = .ok (v', out) ∧
      ∃ f : FrameEntries crowd 15 loneView, f.s₄.viewport = v' ∧ f.bytes = out ∧
        f.updates.map Update.id = f.flagged.map Entry.id ∧
        ∀ u ∈ f.updates, ∃ appearance, u.blocks = sentBlocks appearance u.target.blocks) ∧
    CachesSent (fun _ => crowdHash) loneView.cachedAppearanceHashes (fun _ => none)
      fun _ => false := by
  obtain ⟨hframe, hrun⟩ := updates_of_frames (fun _ => crowdHash) (15 : ℕ)
  refine ⟨?_, hrun _ _ _ (.start loneView _ fun _ _ hsent _ => by cases hsent)⟩
  have hok := isOk_lone
  cases hbuffer : createBufferFor crowd 15 loneView with
  | error e =>
    rw [hbuffer] at hok
    cases hok
  | ok r => exact ⟨r.1, r.2, rfl, hframe crowd loneView r.1 r.2 blocks_crowd hbuffer⟩

/-- Before the turn of the last slot the others have filled the limit. -/
private theorem cached_crowd :
    ((createBufferFor crowd 15 (forceAppearance crowdView true 15)).toOption.map
      fun r => r.1.cachedAppearanceHashes 15) = some none := by
  decide +kernel

def ownSent : ℕ → Option (List Byte) :=
  fun id => if id = 15 then some (List.replicate 250 0) else none

private theorem isSome_foldl_send (updates : List Update) {sent : ℕ → Option (List Byte)} {id : ℕ}
    (h : (sent id).isSome) : ((updates.foldl Update.send sent) id).isSome := by
  induction updates generalizing sent with
  | nil => exact h
  | cons u updates ih =>
    apply ih
    rw [Update.send, update_ite_apply]
    split_ifs
    · rfl
    · exact h

theorem not_cached_of_forced :
    ¬ ∀ (md5 : List Byte → List Byte) (player : ℕ) (v : Viewport ℕ)
      (sent : ℕ → Option (List Byte)) (missed : ℕ → Bool), Frames md5 player v sent missed →
      ∀ id data, sent id = some data → v.cachedAppearanceHashes id = some (md5 data) := by
  intro hclaim
  have hstart : Frames (fun _ => crowdHash) 15 crowdView
      ownSent fun _ => false := by
    refine .start crowdView _ fun id data hsent _ => ?_
    rw [ownSent] at hsent
    split_ifs at hsent with hid
    exact if_pos hid
  have hcached := cached_crowd
  cases hbuffer : createBufferFor crowd 15 (forceAppearance crowdView true 15) with
  | error e =>
    rw [hbuffer] at hcached
    cases hcached
  | ok r =>
    obtain ⟨v', out⟩ := r
    rw [hbuffer] at hcached
    obtain ⟨f, hf, -⟩ := FrameEntries.exists_of_createBufferFor blocks_crowd hbuffer
    have hframe := hstart.frame crowd 15 true rfl blocks_crowd (fun _ _ => rfl) hbuffer f hf
    have hsent := @isSome_foldl_send f.updates ownSent 15 rfl
    obtain ⟨data, hdata⟩ := Option.isSome_iff_exists.mp hsent
    have hsome := hclaim _ _ _ _ _ hframe 15 data hdata
    have hnone : v'.cachedAppearanceHashes 15 = none := Option.some.inj hcached
    rw [cachedAppearanceHashes_resetForNextTransmit, hnone] at hsome
    cases hsome

end Crowd

end OpenNXT.Model.PlayerInfoEncoder
