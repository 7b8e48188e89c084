import Mathlib.Data.List.Induction
import OpenNXT.Model.WorldPlayer.WorldPlayer

/-! The waits before the first sync end: whatever the client sends, the two timers are armed while
the first sync is not sent. -/
namespace OpenNXT.Model
namespace WorldPlayer
variable {c : WorldConfig} (s : WorldPlayer)

/-! ### What a frame leaves alone -/

@[simp] theorem sendWorldSyncFrame_waits : (s.sendWorldSyncFrame c).waits = s.waits := by
  unfold sendWorldSyncFrame
  split_ifs <;> rfl

@[simp] theorem sendWorldSyncFrame_flags :
    (s.sendWorldSyncFrame c).bundles.flags = s.bundles.flags := by
  unfold sendWorldSyncFrame
  dsimp only
  split_ifs <;> rfl

@[simp] theorem sendWorldSyncFrame_postInitialWorldSyncHold :
    (s.sendWorldSyncFrame c).postInitialWorldSyncHold = s.postInitialWorldSyncHold := by
  unfold sendWorldSyncFrame
  split_ifs <;> rfl

@[simp] theorem sendWorldSyncFrame_completedBootstrapStages :
    (s.sendWorldSyncFrame c).completedBootstrapStages = s.completedBootstrapStages := by
  unfold sendWorldSyncFrame
  split_ifs <;> rfl

@[simp] theorem sendWorldSyncFrame_sceneStart :
    (s.sendWorldSyncFrame c).sceneStart = s.sceneStart := by
  unfold sendWorldSyncFrame
  split_ifs <;> rfl

theorem sendWorldSyncFrame_sent (hinfo : c.playerInfo = true) :
    (s.sendWorldSyncFrame c).sync.initialWorldSyncSent = true := by
  unfold sendWorldSyncFrame
  rw [if_pos hinfo]

theorem sendWorldSyncFrame_frames (hinfo : c.playerInfo = true) :
    (s.sendWorldSyncFrame c).sync.worldSyncFramesSent = s.sync.worldSyncFramesSent + 1 := by
  unfold sendWorldSyncFrame
  rw [if_pos hinfo]

@[simp] theorem sendPreReadyWorldSyncPrimeFrame_waits :
    (s.sendPreReadyWorldSyncPrimeFrame c).waits = s.waits := by
  simp [sendPreReadyWorldSyncPrimeFrame]

@[simp] theorem sendPreReadyWorldSyncPrimeFrame_completedBootstrapStages :
    (s.sendPreReadyWorldSyncPrimeFrame c).completedBootstrapStages = s.completedBootstrapStages := by
  simp [sendPreReadyWorldSyncPrimeFrame]

@[simp] theorem sendPreReadyWorldSyncPrimeFrame_sceneStart :
    (s.sendPreReadyWorldSyncPrimeFrame c).sceneStart = s.sceneStart := by
  simp [sendPreReadyWorldSyncPrimeFrame]

@[simp] theorem sendPreReadyWorldSyncPrimeFrame_sent :
    (s.sendPreReadyWorldSyncPrimeFrame c).sync.initialWorldSyncSent =
      s.sync.initialWorldSyncSent := by
  simp [sendPreReadyWorldSyncPrimeFrame]

/-! ### The first sync -/

@[simp] theorem primeForcedFallbackPostInitialSyncHold_waits :
    (s.primeForcedFallbackPostInitialSyncHold c).waits = s.waits := by
  unfold primeForcedFallbackPostInitialSyncHold
  dsimp only
  split_ifs <;> simp

@[simp] theorem primeForcedFallbackPostInitialSyncHold_completedBootstrapStages :
    (s.primeForcedFallbackPostInitialSyncHold c).completedBootstrapStages =
      s.completedBootstrapStages := by
  unfold primeForcedFallbackPostInitialSyncHold
  dsimp only
  split_ifs <;> simp

@[simp] theorem primeForcedFallbackPostInitialSyncHold_sceneStart :
    (s.primeForcedFallbackPostInitialSyncHold c).sceneStart = s.sceneStart := by
  unfold primeForcedFallbackPostInitialSyncHold
  dsimp only
  split_ifs <;> simp

theorem primeForcedFallbackPostInitialSyncHold_sent (hinfo : c.playerInfo = true)
    (hsent : s.sync.initialWorldSyncSent = true) :
    (s.primeForcedFallbackPostInitialSyncHold c).sync.initialWorldSyncSent = true := by
  unfold primeForcedFallbackPostInitialSyncHold
  dsimp only
  split_ifs <;> simp [hsent, sendWorldSyncFrame_sent _ hinfo]

@[simp] theorem sendImmediateFollowup_waits (forced skip : Bool) :
    (s.sendImmediateFollowup c forced skip).waits = s.waits := by
  unfold sendImmediateFollowup
  dsimp only
  split_ifs <;> simp

@[simp] theorem sendImmediateFollowup_completedBootstrapStages (forced skip : Bool) :
    (s.sendImmediateFollowup c forced skip).completedBootstrapStages =
      s.completedBootstrapStages := by
  unfold sendImmediateFollowup
  dsimp only
  split_ifs <;> simp

@[simp] theorem sendImmediateFollowup_sceneStart (forced skip : Bool) :
    (s.sendImmediateFollowup c forced skip).sceneStart = s.sceneStart := by
  unfold sendImmediateFollowup
  dsimp only
  split_ifs <;> simp

theorem sendImmediateFollowup_sent (forced skip : Bool) (hinfo : c.playerInfo = true) :
    (s.sendImmediateFollowup c forced skip).sync.initialWorldSyncSent = true := by
  have hframe := sendWorldSyncFrame_sent s hinfo
  unfold sendImmediateFollowup
  dsimp only
  split_ifs
  · exact primeForcedFallbackPostInitialSyncHold_sent _ hinfo hframe
  · exact hframe
  · exact hframe

@[simp] theorem prepareLoadingOverlay_waits : (s.prepareLoadingOverlay c).waits = s.waits := by
  unfold prepareLoadingOverlay
  split_ifs <;> rfl

@[simp] theorem prepareLoadingOverlay_completedBootstrapStages :
    (s.prepareLoadingOverlay c).completedBootstrapStages = s.completedBootstrapStages := by
  unfold prepareLoadingOverlay
  split_ifs <;> rfl

@[simp] theorem prepareLoadingOverlay_sceneStart :
    (s.prepareLoadingOverlay c).sceneStart = s.sceneStart := by
  unfold prepareLoadingOverlay
  split_ifs <;> rfl

variable {s}

theorem sendInitialWorldSyncIfNeeded_of_sent (force skip : Bool)
    (hsent : s.sync.initialWorldSyncSent = true) :
    s.sendInitialWorldSyncIfNeeded c force skip = s := by
  unfold sendInitialWorldSyncIfNeeded
  rw [if_pos hsent]

theorem sendInitialWorldSyncIfNeeded_waits (force skip : Bool)
    (hunsent : s.sync.initialWorldSyncSent = false) :
    (s.sendInitialWorldSyncIfNeeded c force skip).waits =
      { s.waits with
        pendingWorldReadySignal := none
        pendingServerpermDelayedReadySignal := none
        skipPostInitialSyncHoldForForcedFallback := false } := by
  unfold sendInitialWorldSyncIfNeeded
  rw [if_neg (by simp [hunsent])]
  dsimp only
  split_ifs <;> simp

@[simp] theorem sendInitialWorldSyncIfNeeded_completedBootstrapStages (force skip : Bool) :
    (s.sendInitialWorldSyncIfNeeded c force skip).completedBootstrapStages =
      s.completedBootstrapStages := by
  unfold sendInitialWorldSyncIfNeeded
  dsimp only
  split_ifs <;> simp

@[simp] theorem sendInitialWorldSyncIfNeeded_sceneStart (force skip : Bool) :
    (s.sendInitialWorldSyncIfNeeded c force skip).sceneStart = s.sceneStart := by
  unfold sendInitialWorldSyncIfNeeded
  dsimp only
  split_ifs <;> simp

theorem sendInitialWorldSyncIfNeeded_sent (force skip : Bool) (hinfo : c.playerInfo = true) :
    (s.sendInitialWorldSyncIfNeeded c force skip).sync.initialWorldSyncSent = true := by
  have hframe := sendWorldSyncFrame_sent (s.prepareLoadingOverlay c) hinfo
  unfold sendInitialWorldSyncIfNeeded
  dsimp only
  split_ifs with hsent
  · exact hsent
  · exact sendImmediateFollowup_sent _ _ _ hinfo
  · exact hframe

/-- The second wait is over: the first sync is sent, and nothing of the wait is left. -/
theorem acceptWorldReadySignal_of_unsent (hinfo : c.playerInfo = true)
    (hunsent : s.sync.initialWorldSyncSent = false) :
    (s.acceptWorldReadySignal c).sync.initialWorldSyncSent = true ∧
      (s.acceptWorldReadySignal c).waits =
        { s.waits with
          pendingWorldReadySignal := none
          pendingServerpermDelayedReadySignal := none
          awaitingWorldReadySignal := false
          compatMapBuildReadyFallbackOpcode := none
          worldReadyWaitTicks := 0
          playerInfoDelayTicks := 0
          skipPostInitialSyncHoldForForcedFallback := false } := by
  unfold acceptWorldReadySignal
  rw [if_neg (by simp [hunsent])]
  dsimp only
  rw [if_neg (by simp [hunsent])]
  constructor
  · exact sendInitialWorldSyncIfNeeded_sent _ _ hinfo
  · exact sendInitialWorldSyncIfNeeded_waits _ _ hunsent

@[simp] theorem acceptWorldReadySignal_completedBootstrapStages :
    (s.acceptWorldReadySignal c).completedBootstrapStages = s.completedBootstrapStages := by
  unfold acceptWorldReadySignal
  dsimp only
  split_ifs <;> simp

@[simp] theorem acceptWorldReadySignal_sceneStart :
    (s.acceptWorldReadySignal c).sceneStart = s.sceneStart := by
  unfold acceptWorldReadySignal
  dsimp only
  split_ifs <;> simp

/-! ### The continuation -/

/-- The waits, the frames and the scene start are the same. -/
structure SameWaits (s r : WorldPlayer) : Prop where
  waits : r.waits = s.waits
  sync : r.sync = s.sync
  sceneStart : r.sceneStart = s.sceneStart

theorem runDefaultState_sameWaits : SameWaits s (s.runDefaultState c) := by
  unfold runDefaultState
  constructor <;> dsimp only [mapBundles, completeStage] <;> split_ifs <;> rfl

theorem openInterfaces_sameWaits : SameWaits s (s.openInterfaces c) := by
  unfold openInterfaces
  constructor <;> dsimp only [mapBundles, queueMinimalWorldFollowupIfNeeded] <;> split_ifs <;> rfl

theorem continuation_sameWaits : SameWaits s (s.continuation c) := by
  have hstate := runDefaultState_sameWaits (c := c) (s := s.runStats)
  have hopen := openInterfaces_sameWaits (c := c) (s := s.runStats.runDefaultState c)
  constructor
  · exact hopen.waits.trans hstate.waits
  · exact hopen.sync.trans hstate.sync
  · exact hopen.sceneStart.trans hstate.sceneStart

theorem continuation_completedBootstrapStages :
    (s.continuation c).completedBootstrapStages =
      s.completedBootstrapStages ++ [.stats, .defaultState, .interfaces] := by
  have hstate : (s.runStats.runDefaultState c).completedBootstrapStages =
      s.completedBootstrapStages ++ [.stats] ++ [.defaultState] := by
    unfold runDefaultState
    dsimp only [mapBundles, completeStage]
    split_ifs <;> rfl
  have hopen : ((s.runStats.runDefaultState c).openInterfaces c).completedBootstrapStages =
      (s.runStats.runDefaultState c).completedBootstrapStages := by
    unfold openInterfaces
    dsimp only [mapBundles, queueMinimalWorldFollowupIfNeeded]
    split_ifs <;> rfl
  simp [continuation, runInterfaces, hopen, hstate]

/-! ### The two waits -/

/-- The continuation is stored. -/
structure Stored (s : WorldPlayer) : Prop where
  stored : s.waits.deferredBootstrap = true
  unsent : s.sync.initialWorldSyncSent = false
  notLate : s.sceneStart.awaitingLateSceneStartReadySignal = false
  notRun : .stats ∉ s.completedBootstrapStages

/-- The map is awaited, and every tick was counted. -/
structure MapBuildWait (ticks : ℕ) (s : WorldPlayer) : Prop extends Stored s where
  awaiting : s.waits.awaitingMapBuildComplete = true
  counted : s.waits.mapBuildWaitTicks = ticks
  bounded : ticks < 20
  notReady : s.waits.awaitingWorldReadySignal = false

structure Continued (s : WorldPlayer) : Prop where
  built : s.waits.awaitingMapBuildComplete = false
  taken : s.waits.deferredBootstrap = false
  run : .interfaces ∈ s.completedBootstrapStages
  once : s.completedBootstrapStages.count .stats = 1

/-- The continuation has run, and either the first sync is sent or the ready signal is awaited. -/
structure MapBuilt (ticks : ℕ) (s : WorldPlayer) : Prop extends Continued s where
  noDelay : s.waits.playerInfoDelayTicks = 0
  synced : s.sync.initialWorldSyncSent = !s.waits.awaitingWorldReadySignal
  late : s.sceneStart.awaitingLateSceneStartReadySignal = true → s.sync.initialWorldSyncSent = true
  bounded : s.waits.awaitingWorldReadySignal = true →
    s.waits.worldReadyWaitTicks < 8 ∧ ticks ≤ 19 + s.waits.worldReadyWaitTicks

def Bootstrapping (ticks : ℕ) (s : WorldPlayer) : Prop := MapBuildWait ticks s ∨ MapBuilt ticks s

variable {ticks : ℕ}

private theorem MapBuilt.of_sent (h : Continued s) (hdelay : s.waits.playerInfoDelayTicks = 0)
    (hready : s.waits.awaitingWorldReadySignal = false)
    (hsent : s.sync.initialWorldSyncSent = true) : MapBuilt ticks s where
  toContinued := h
  noDelay := hdelay
  synced := by rw [hsent, hready, Bool.not_false]
  late := fun _ => hsent
  bounded := by simp [hready]

private theorem Continued.sendInitialWorldSyncIfNeeded (h : Continued s)
    (hinfo : c.playerInfo = true) (hunsent : s.sync.initialWorldSyncSent = false)
    (hdelay : s.waits.playerInfoDelayTicks = 0)
    (hready : s.waits.awaitingWorldReadySignal = false) (force skip : Bool) :
    MapBuilt ticks (s.sendInitialWorldSyncIfNeeded c force skip) := by
  have hwaits := sendInitialWorldSyncIfNeeded_waits (c := c) force skip hunsent
  have hstages := sendInitialWorldSyncIfNeeded_completedBootstrapStages (c := c) (s := s) force skip
  apply MapBuilt.of_sent
  · constructor
    · rw [hwaits]
      exact h.built
    · rw [hwaits]
      exact h.taken
    · rw [hstages]
      exact h.run
    · rw [hstages]
      exact h.once
  · rw [hwaits]
    exact hdelay
  · rw [hwaits]
    exact hready
  · exact sendInitialWorldSyncIfNeeded_sent _ _ hinfo

private theorem Continued.acceptWorldReadySignal (h : Continued s) (hinfo : c.playerInfo = true)
    (hunsent : s.sync.initialWorldSyncSent = false) :
    MapBuilt ticks (s.acceptWorldReadySignal c) := by
  obtain ⟨hsent, hwaits⟩ := acceptWorldReadySignal_of_unsent hinfo hunsent
  have hstages := acceptWorldReadySignal_completedBootstrapStages (c := c) (s := s)
  apply MapBuilt.of_sent
  · constructor
    · rw [hwaits]
      exact h.built
    · rw [hwaits]
      exact h.taken
    · rw [hstages]
      exact h.run
    · rw [hstages]
      exact h.once
  · rw [hwaits]
  · rw [hwaits]
  · exact hsent

private theorem Continued.consume (h : Continued s) (hinfo : c.playerInfo = true)
    (hunsent : s.sync.initialWorldSyncSent = false)
    (hpending : s.waits.pendingWorldReadySignal.isSome = true) :
    MapBuilt ticks (s.consumePendingWorldReadySignalIfNeeded c) := by
  unfold consumePendingWorldReadySignalIfNeeded
  rw [if_pos hpending]
  have hcleared : Continued
      { s with waits := { s.waits with pendingWorldReadySignal := none } } := { h with }
  exact hcleared.acceptWorldReadySignal hinfo hunsent

/-- The second timer is armed unless the first sync is sent at once. -/
private theorem Continued.awaitWorldReady (h : Continued s) (hinfo : c.playerInfo = true)
    (hunsent : s.sync.initialWorldSyncSent = false)
    (hdelay : s.waits.playerInfoDelayTicks = 0) (hzero : s.waits.worldReadyWaitTicks = 0)
    (hlate : s.sceneStart.awaitingLateSceneStartReadySignal = false) (hticks : ticks ≤ 19)
    (forced : Bool) : MapBuilt ticks (s.awaitWorldReady c forced) := by
  unfold WorldPlayer.awaitWorldReady
  split_ifs with hroot hcompat hforced
  · apply Continued.sendInitialWorldSyncIfNeeded ?_ hinfo ?_ ?_ ?_
    · exact { h with }
    · exact hunsent
    · exact hdelay
    · rfl
  · apply Continued.sendInitialWorldSyncIfNeeded ?_ hinfo ?_ ?_ ?_
    · exact { h with }
    · exact hunsent
    · exact hdelay
    · rfl
  · apply Continued.consume ?_ hinfo ?_ ?_
    · cases hpending : s.waits.pendingWorldReadySignal <;>
        simp only [hpending, WorldWaits.latchWorldReadySignal] <;> exact { h with }
    · exact hunsent
    · cases hpending : s.waits.pendingWorldReadySignal <;>
        simp [hpending, WorldWaits.latchWorldReadySignal]
  · by_cases hpending : s.waits.pendingWorldReadySignal.isSome = true
    · apply Continued.consume ?_ hinfo ?_ ?_
      · exact { h with }
      · exact hunsent
      · exact hpending
    · unfold consumePendingWorldReadySignalIfNeeded
      rw [if_neg (by exact hpending)]
      constructor
      · exact { h with }
      · exact hdelay
      · exact hunsent
      · simp [hlate]
      · intro _
        dsimp only
        omega

private theorem completeDeferredBootstrap_of_taken (htaken : s.waits.deferredBootstrap = false) :
    s.completeDeferredBootstrap c = s := by
  unfold completeDeferredBootstrap
  rw [if_pos (by simp [htaken])]

/-- The map is built, after any of the signals that count as such. -/
private theorem Stored.completeDeferredBootstrap (h : Stored s) (hinfo : c.playerInfo = true)
    (hmap : s.waits.awaitingMapBuildComplete = false) (hticks : ticks ≤ 19) :
    MapBuilt ticks (s.completeDeferredBootstrap c) := by
  let taken := s.takeDeferredBootstrap
  have hsame := continuation_sameWaits (c := c) (s := taken)
  have hstages := continuation_completedBootstrapStages (c := c) (s := taken)
  have hcontinued : Continued (taken.continuation c).resetWorldReadyWait := by
    constructor
    · show (taken.continuation c).waits.awaitingMapBuildComplete = false
      rw [hsame.waits]
      exact hmap
    · show (taken.continuation c).waits.deferredBootstrap = false
      rw [hsame.waits]
      rfl
    · show .interfaces ∈ (taken.continuation c).completedBootstrapStages
      simp [hstages]
    · show (taken.continuation c).completedBootstrapStages.count .stats = 1
      have hzero : taken.completedBootstrapStages.count .stats = 0 :=
        List.count_eq_zero.mpr h.notRun
      rw [hstages, List.count_append, hzero]
      decide
  have hbuilt : MapBuilt ticks ((taken.continuation c).resetWorldReadyWait.awaitWorldReady c
      s.waits.forcedMapBuildFallbackPending) := by
    apply hcontinued.awaitWorldReady hinfo
    · show (taken.continuation c).sync.initialWorldSyncSent = false
      rw [hsame.sync]
      exact h.unsent
    · rfl
    · rfl
    · show (taken.continuation c).sceneStart.awaitingLateSceneStartReadySignal = false
      rw [hsame.sceneStart]
      exact h.notLate
    · exact hticks
  unfold WorldPlayer.completeDeferredBootstrap
  rw [if_neg (by simp [h.stored])]
  exact { hbuilt with }

private theorem Stored.endMapBuildWait (h : Stored s) (hinfo : c.playerInfo = true)
    (hticks : ticks ≤ 19) : MapBuilt ticks (s.endMapBuildWait c) := by
  apply Stored.completeDeferredBootstrap ?_ hinfo ?_ hticks
  · exact { h with }
  · rfl

/-! ### After the first sync -/

/-- The waits are over and stay so, of the stages only that of the default varps is new, and no frame
is taken back. -/
structure SyncedStep (s r : WorldPlayer) : Prop where
  waits : r.waits = s.waits
  sent : s.sync.initialWorldSyncSent = true → r.sync.initialWorldSyncSent = true
  stages : r.completedBootstrapStages.filter (· ≠ .lateDefaultVarps) =
    s.completedBootstrapStages.filter (· ≠ .lateDefaultVarps)
  frames : s.sync.worldSyncFramesSent ≤ r.sync.worldSyncFramesSent

section
variable {s r : WorldPlayer}

theorem SyncedStep.refl (s : WorldPlayer) : SyncedStep s s := ⟨rfl, id, rfl, le_rfl⟩

theorem SyncedStep.sendWorldSyncFrame (h : SyncedStep s r) :
    SyncedStep s (r.sendWorldSyncFrame c) := by
  constructor
  · rw [sendWorldSyncFrame_waits, h.waits]
  · intro hsent
    have hkept := h.sent hsent
    unfold WorldPlayer.sendWorldSyncFrame
    dsimp only
    split_ifs <;> first | exact hkept | rfl
  · rw [sendWorldSyncFrame_completedBootstrapStages, h.stages]
  · apply h.frames.trans
    unfold WorldPlayer.sendWorldSyncFrame
    dsimp only
    split_ifs <;> first | exact Nat.le_succ _ | rfl

theorem SyncedStep.sendDeferredDefaultVarpsIfNeeded (h : SyncedStep s r) :
    SyncedStep s (r.sendDeferredDefaultVarpsIfNeeded c) := by
  have hprime : SyncedStep s ((r.queueLateDefaultVarps c).primeLateDefaultVarps c) := by
    unfold primeLateDefaultVarps
    split_ifs <;> exact ⟨h.waits, h.sent, h.stages, h.frames⟩
  have hframe := hprime.sendWorldSyncFrame (c := c)
  unfold WorldPlayer.sendDeferredDefaultVarpsIfNeeded
  split_ifs
  · exact h
  · constructor
    · exact hframe.waits
    · exact hframe.sent
    · simpa using hframe.stages
    · exact hframe.frames

theorem SyncedStep.sendDeferredLateWorldCompletionTailIfNeeded (h : SyncedStep s r) :
    SyncedStep s (r.sendDeferredLateWorldCompletionTailIfNeeded c) := by
  unfold WorldPlayer.sendDeferredLateWorldCompletionTailIfNeeded
  split_ifs
  · exact h
  · apply SyncedStep.sendDeferredDefaultVarpsIfNeeded
    exact ⟨h.waits, h.sent, h.stages, h.frames⟩

theorem SyncedStep.holdPostInitialSync (h : SyncedStep s r) :
    SyncedStep s (r.holdPostInitialSync c) := by
  have hwrite : SyncedStep s (r.writeInPostInitialSyncHold c) := by
    unfold writeInPostInitialSyncHold
    dsimp only
    split_ifs
    · apply SyncedStep.sendWorldSyncFrame
      exact ⟨h.waits, h.sent, h.stages, h.frames⟩
    · exact ⟨h.waits, h.sent, h.stages, h.frames⟩
    · apply SyncedStep.sendWorldSyncFrame
      exact ⟨h.waits, h.sent, h.stages, h.frames⟩
    · exact ⟨h.waits, h.sent, h.stages, h.frames⟩
  exact ⟨hwrite.waits, hwrite.sent, hwrite.stages, hwrite.frames⟩

theorem SyncedStep.releasePhaseOne (h : SyncedStep s r) (control50 : ℤ) :
    SyncedStep s (r.releasePhaseOne c control50) := by
  unfold WorldPlayer.releasePhaseOne deferForcedFallbackPhaseOneEventDeltaUntilLateReady
  split_ifs
  · exact h
  · apply SyncedStep.sendWorldSyncFrame
    exact ⟨h.waits, h.sent, h.stages, h.frames⟩
  · exact ⟨h.waits, h.sent, h.stages, h.frames⟩

theorem SyncedStep.tickSceneStartPhases (h : SyncedStep s r) :
    SyncedStep s (r.tickSceneStartPhases c).1 := by
  have hburst (sceneStart : SceneStart) :
      SyncedStep s (WorldPlayer.sendWorldSyncFrame c { r with sceneStart }) := by
    apply SyncedStep.sendWorldSyncFrame
    exact ⟨h.waits, h.sent, h.stages, h.frames⟩
  unfold WorldPlayer.tickSceneStartPhases
  dsimp only
  split_ifs
  · exact h.sendWorldSyncFrame
  · exact (hburst _).releasePhaseOne _
  · exact hburst _
  · exact h.releasePhaseOne _
  · exact ⟨h.waits, h.sent, h.stages, h.frames⟩
  · exact ⟨h.waits, h.sent, h.stages, h.frames⟩
  · exact ⟨h.waits, h.sent, h.stages, h.frames⟩
  · exact h.sendWorldSyncFrame

theorem SyncedStep.tickSceneStart (h : SyncedStep s r) :
    SyncedStep s (r.tickSceneStart c).1 :=
  h.sendDeferredDefaultVarpsIfNeeded.tickSceneStartPhases

theorem SyncedStep.tickSynced (h : SyncedStep s r) : SyncedStep s (r.tickSynced c).1 := by
  have hhold := h.holdPostInitialSync (c := c)
  have hclear : SyncedStep s ((r.holdPostInitialSync c).clearPostInitialSyncHold c) :=
    ⟨hhold.waits, hhold.sent, hhold.stages, hhold.frames⟩
  unfold WorldPlayer.tickSynced
  dsimp only
  split_ifs
  · exact h.sendDeferredLateWorldCompletionTailIfNeeded
  · exact hclear.sendDeferredLateWorldCompletionTailIfNeeded
  · exact hclear.tickSceneStart
  · exact hhold
  · exact h.tickSceneStart

theorem SyncedStep.acceptLateSceneStartReadySignal (h : SyncedStep s r) :
    SyncedStep s (r.acceptLateSceneStartReadySignal c) := by
  unfold WorldPlayer.acceptLateSceneStartReadySignal
  apply SyncedStep.sendWorldSyncFrame
  exact ⟨h.waits, h.sent, h.stages, h.frames⟩

private theorem MapBuilt.syncedStep (h : MapBuilt ticks s) (hstep : SyncedStep s r)
    (hsent : s.sync.initialWorldSyncSent = true) : MapBuilt ticks r := by
  have hready : s.waits.awaitingWorldReadySignal = false := by
    simpa [hsent] using h.synced
  have hcount (stages : List WorldStage) :
      (stages.filter (· ≠ .lateDefaultVarps)).count .stats = stages.count .stats :=
    List.count_filter (by decide)
  apply MapBuilt.of_sent
  · constructor
    · rw [hstep.waits]
      exact h.built
    · rw [hstep.waits]
      exact h.taken
    · have hrun : .interfaces ∈ s.completedBootstrapStages.filter (· ≠ .lateDefaultVarps) := by
        simpa using h.run
      rw [← hstep.stages] at hrun
      exact (List.mem_filter.mp hrun).1
    · rw [← hcount, hstep.stages, hcount]
      exact h.once
  · rw [hstep.waits]
    exact h.noDelay
  · rw [hstep.waits]
    exact hready
  · exact hstep.sent hsent

end

/-! ### The client's packets -/

private theorem MapBuilt.endMapBuildWait (h : MapBuilt ticks s) :
    MapBuilt ticks (s.endMapBuildWait c) := by
  unfold WorldPlayer.endMapBuildWait
  rw [completeDeferredBootstrap_of_taken (by exact h.taken)]
  exact { h with built := rfl }

private theorem Bootstrapping.endMapBuildWait (h : Bootstrapping ticks s)
    (hinfo : c.playerInfo = true) : Bootstrapping ticks (s.endMapBuildWait c) := by
  obtain h | h := h
  · exact .inr (h.toStored.endMapBuildWait hinfo (Nat.le_of_lt_succ h.bounded))
  · exact .inr h.endMapBuildWait

private theorem MapBuilt.acceptWorldReadySignal (h : MapBuilt ticks s)
    (hinfo : c.playerInfo = true) : MapBuilt ticks (s.acceptWorldReadySignal c) := by
  cases hsent : s.sync.initialWorldSyncSent with
  | false => exact h.toContinued.acceptWorldReadySignal hinfo hsent
  | true =>
    have hready : s.waits.awaitingWorldReadySignal = false := by
      simpa [hsent] using h.synced
    unfold WorldPlayer.acceptWorldReadySignal
    rw [if_pos (by simp [hsent, hready])]
    exact h

private theorem Bootstrapping.latchWorldReadySignal (h : Bootstrapping ticks s)
    (signal : PendingWorldReadySignal) : Bootstrapping ticks (s.latchWorldReadySignal signal) := by
  unfold WorldPlayer.latchWorldReadySignal WorldWaits.latchWorldReadySignal
  dsimp only
  split_ifs
  · exact h.imp (fun h => { h with }) (fun h => { h with })
  · exact h

private theorem Bootstrapping.acceptLateSceneStartReadySignal (h : Bootstrapping ticks s)
    (hlate : s.sceneStart.awaitingLateSceneStartReadySignal = true) :
    Bootstrapping ticks (s.acceptLateSceneStartReadySignal c) := by
  obtain h | h := h
  · simp [h.notLate] at hlate
  · exact .inr (h.syncedStep (SyncedStep.refl s).acceptLateSceneStartReadySignal (h.late hlate))

private theorem Bootstrapping.handleCompatMapBuild (h : Bootstrapping ticks s)
    (hinfo : c.playerInfo = true) (opcode : ℤ) :
    Bootstrapping ticks (s.handleCompatMapBuild c opcode) := by
  unfold WorldPlayer.handleCompatMapBuild
  apply Bootstrapping.endMapBuildWait ?_ hinfo
  exact h.imp (fun h => { h with }) (fun h => { h with })

/-- The ready signal is awaited only when the continuation has run. -/
private theorem Bootstrapping.acceptWorldReadySignal (h : Bootstrapping ticks s)
    (hinfo : c.playerInfo = true) (hready : s.waits.awaitingWorldReadySignal = true) :
    Bootstrapping ticks (s.acceptWorldReadySignal c) := by
  obtain h | h := h
  · simp [h.notReady] at hready
  · exact .inr (h.acceptWorldReadySignal hinfo)

private theorem Bootstrapping.handleClientBootstrapControl50 (h : Bootstrapping ticks s)
    (hinfo : c.playerInfo = true) (value : ℤ) :
    Bootstrapping ticks (s.handleClientBootstrapControl50 c value) := by
  have hrecorded : Bootstrapping ticks { s with lastClientBootstrapControl50 := some value } :=
    h.imp (fun h => { h with }) (fun h => { h with })
  unfold WorldPlayer.handleClientBootstrapControl50
  dsimp only
  split_ifs with hmap hready hsent hphase
  · exact hrecorded.handleCompatMapBuild hinfo 50
  · exact hrecorded.acceptWorldReadySignal hinfo hready
  · exact hrecorded.latchWorldReadySignal _
  · exact hrecorded.imp (fun h => { h with }) (fun h => { h with })
  · exact hrecorded

private theorem Bootstrapping.handleClientDisplayState106 (h : Bootstrapping ticks s)
    (hinfo : c.playerInfo = true) : Bootstrapping ticks (s.handleClientDisplayState106 c) := by
  unfold WorldPlayer.handleClientDisplayState106
  dsimp only
  split_ifs with hmap hlate hlate
  · apply Bootstrapping.acceptLateSceneStartReadySignal ?_ hlate
    apply Bootstrapping.endMapBuildWait ?_ hinfo
    exact h.imp (fun h => { h with }) (fun h => { h with })
  · apply Bootstrapping.endMapBuildWait ?_ hinfo
    exact h.imp (fun h => { h with }) (fun h => { h with })
  · apply Bootstrapping.acceptLateSceneStartReadySignal ?_ hlate
    exact h.imp (fun h => { h with }) (fun h => { h with })
  · exact h.imp (fun h => { h with }) (fun h => { h with })

private theorem Bootstrapping.acknowledgeServerpermVarcs (h : Bootstrapping ticks s) :
    Bootstrapping ticks (s.acknowledgeServerpermVarcs c) := by
  unfold WorldPlayer.acknowledgeServerpermVarcs
  split_ifs
  · exact h.imp (fun h => { h with }) (fun h => { h with })
  · exact h

private theorem Bootstrapping.deferServerpermReady (h : Bootstrapping ticks s) :
    Bootstrapping ticks s.deferServerpermReady := by
  unfold WorldPlayer.deferServerpermReady
  dsimp only
  split_ifs
  · exact h.imp (fun h => { h with }) (fun h => { h with })
  · exact h.imp (fun h => { h with }) (fun h => { h with })
  · exact h

private theorem Bootstrapping.handleServerpermVarcs (h : Bootstrapping ticks s)
    (hinfo : c.playerInfo = true) : Bootstrapping ticks (s.handleServerpermVarcs c) := by
  have hdeferred := (h.acknowledgeServerpermVarcs (c := c)).deferServerpermReady
  unfold WorldPlayer.handleServerpermVarcs
  dsimp only
  split_ifs
  · apply Bootstrapping.endMapBuildWait ?_ hinfo
    exact hdeferred.imp (fun h => { h with }) (fun h => { h with })
  · exact hdeferred.imp (fun h => { h with }) (fun h => { h with })
  · exact hdeferred

private theorem Bootstrapping.handleNoTimeout (h : Bootstrapping ticks s) :
    Bootstrapping ticks (s.handleNoTimeout c) := by
  unfold WorldPlayer.handleNoTimeout
  dsimp only
  split_ifs
  · exact h.imp (fun h => { h with }) (fun h => { h with })
  · exact h.imp (fun h => { h with }) (fun h => { h with })

private theorem Bootstrapping.handleUnidentifiedPacket (h : Bootstrapping ticks s)
    (hinfo : c.playerInfo = true) (opcode : ℤ) (payloadLength : ℕ) :
    Bootstrapping ticks (s.handleUnidentifiedPacket c opcode payloadLength) := by
  unfold WorldPlayer.handleUnidentifiedPacket
  split_ifs with _ _ _ _ hmap hready hunsent hlate
  · exact h.handleServerpermVarcs hinfo
  · exact h.handleNoTimeout
  · exact h.imp (fun h => { h with }) (fun h => { h with })
  · exact h
  · exact h.handleCompatMapBuild hinfo opcode
  · exact h.acceptWorldReadySignal hinfo hready.1
  · exact h.latchWorldReadySignal _
  · exact h.acceptLateSceneStartReadySignal hlate.1
  · exact h

/-! ### The tick -/

private theorem MapBuilt.endTick (h : MapBuilt ticks s) : MapBuilt ticks (s.endTick c) := by
  unfold WorldPlayer.endTick
  split_ifs
  · exact { h with }
  · exact h

private theorem MapBuilt.tickReady (h : MapBuilt ticks s) : MapBuilt ticks (s.tickReady c).1 := by
  unfold WorldPlayer.tickReady
  split_ifs with hwait hdelay hunsent
  · exact h
  · simp [h.noDelay] at hdelay
  · have hready : s.waits.awaitingWorldReadySignal = true := by
      simpa [h.synced] using hunsent
    simp [hready] at hwait
  · apply h.syncedStep (SyncedStep.refl s).tickSynced
    simpa using hunsent

/-- The second wait within a tick, its timer already advanced. -/
private structure WorldReadyWait (ticks : ℕ) (s : WorldPlayer) : Prop extends Continued s where
  awaiting : s.waits.awaitingWorldReadySignal = true
  unsent : s.sync.initialWorldSyncSent = false
  noDelay : s.waits.playerInfoDelayTicks = 0
  notLate : s.sceneStart.awaitingLateSceneStartReadySignal = false
  bounded : s.waits.worldReadyWaitTicks ≤ 8 ∧ ticks ≤ 19 + s.waits.worldReadyWaitTicks

private theorem MapBuilt.countWorldReadyWait (h : MapBuilt ticks s)
    (hready : s.waits.awaitingWorldReadySignal = true) :
    WorldReadyWait (ticks + 1) (s.countWorldReadyWait c) where
  toContinued := { h with }
  awaiting := hready
  unsent := by
    show s.sync.initialWorldSyncSent = false
    simpa [hready] using h.synced
  noDelay := h.noDelay
  notLate := by
    have hunsent : s.sync.initialWorldSyncSent = false := by simpa [hready] using h.synced
    show s.sceneStart.awaitingLateSceneStartReadySignal = false
    simpa [hunsent] using h.late
  bounded := by
    obtain ⟨hlt, hle⟩ := h.bounded hready
    show s.waits.worldReadyWaitTicks + 1 ≤ 8 ∧ ticks + 1 ≤ 19 + (s.waits.worldReadyWaitTicks + 1)
    omega

private theorem WorldReadyWait.promoteServerpermReady (h : WorldReadyWait ticks s) :
    WorldReadyWait ticks s.promoteServerpermReady := by
  unfold WorldPlayer.promoteServerpermReady
  split
  · split_ifs
    · unfold WorldPlayer.latchWorldReadySignal WorldWaits.latchWorldReadySignal
      dsimp only
      split_ifs
      · exact { h with }
      · exact { h with }
    · exact h
  · exact h

private theorem WorldReadyWait.primeWorldReadyWait (h : WorldReadyWait ticks s) :
    WorldReadyWait ticks (s.primeWorldReadyWait c) := by
  unfold WorldPlayer.primeWorldReadyWait
  split_ifs
  · constructor
    · constructor <;> simp [h.built, h.taken, h.run, h.once]
    · simp [h.awaiting]
    · simp [h.unsent]
    · simp [h.noDelay]
    · simp [h.notLate]
    · simpa using h.bounded
  · exact h

private theorem WorldReadyWait.fallBackFromWorldReadyWait (h : WorldReadyWait ticks s)
    (hinfo : c.playerInfo = true) : MapBuilt ticks (s.fallBackFromWorldReadyWait c) := by
  unfold WorldPlayer.fallBackFromWorldReadyWait
  split_ifs with hticks
  · apply Continued.sendInitialWorldSyncIfNeeded ?_ hinfo ?_ ?_ ?_
    · exact { h with }
    · exact h.unsent
    · rfl
    · rfl
  · constructor
    · exact h.toContinued
    · exact h.noDelay
    · rw [h.unsent, h.awaiting, Bool.not_true]
    · simp [h.notLate]
    · intro _
      obtain ⟨hle, hbound⟩ := h.bounded
      exact ⟨by omega, hbound⟩

/-- A tick of the second wait: either the signal came, or the timer has run out, or it runs on. -/
theorem MapBuilt.tickWorldReadyWait (h : MapBuilt ticks s) (hinfo : c.playerInfo = true) :
    MapBuilt (ticks + 1) (s.tickWorldReadyWait c).1 := by
  unfold WorldPlayer.tickWorldReadyWait
  split_ifs with hready
  · have hnot : s.waits.awaitingWorldReadySignal = false := by simpa using hready
    exact { h with bounded := by simp [hnot] }
  · have hwait := (h.countWorldReadyWait (c := c) (by simpa using hready)).promoteServerpermReady
    dsimp only
    split_ifs with hreal
    · apply hwait.toContinued.consume hinfo hwait.unsent
      unfold hasRealReadySignal at hreal
      cases hpending : (s.countWorldReadyWait c).promoteServerpermReady.waits.pendingWorldReadySignal
      · simp [hpending] at hreal
      · rfl
    · exact hwait.primeWorldReadyWait.fallBackFromWorldReadyWait hinfo

/-- The rest of a tick, once the map is built. -/
private theorem MapBuilt.tickRest (h : MapBuilt ticks s) (hinfo : c.playerInfo = true) :
    MapBuilt (ticks + 1) (s.tickRest c) := by
  have hwaited := h.tickWorldReadyWait hinfo
  unfold WorldPlayer.tickRest
  dsimp only
  split_ifs
  · exact hwaited
  · exact hwaited.tickReady
  · exact hwaited.tickReady.endTick

/-- On its last tick the first wait ends by itself. -/
theorem Bootstrapping.tick (h : Bootstrapping ticks s) (hinfo : c.playerInfo = true) :
    Bootstrapping (ticks + 1) (s.tick c) := by
  unfold WorldPlayer.tick WorldPlayer.tickMapBuildWait
  obtain h | h := h
  · rw [if_neg (by simp [h.awaiting])]
    have hcounted := h.counted
    dsimp only
    split_ifs with hlast
    · have hstored : Stored
          { s with
            waits :=
              { s.waits with
                mapBuildWaitTicks := s.waits.mapBuildWaitTicks + 1
                forcedMapBuildFallbackPending := true } } := { h with }
      have hticks : ticks = 19 := by
        simp only [h.stored, Bool.and_true, decide_eq_true_eq] at hlast
        omega
      subst hticks
      exact .inr ((hstored.endMapBuildWait hinfo le_rfl).tickRest hinfo)
    · have hlt : ticks + 1 < 20 := by
        have := h.bounded
        simp only [h.stored, Bool.and_true, decide_eq_true_eq] at hlast
        omega
      have hidle : WorldPlayer.tickRest c
          { s with waits := { s.waits with mapBuildWaitTicks := s.waits.mapBuildWaitTicks + 1 } } =
            { s with waits := { s.waits with mapBuildWaitTicks := s.waits.mapBuildWaitTicks + 1 } } := by
        simp [WorldPlayer.tickRest, WorldPlayer.tickWorldReadyWait, WorldPlayer.tickReady,
          WorldPlayer.endTick, h.notReady, h.awaiting]
      rw [hidle]
      exact .inl { h with counted := congrArg (· + 1) hcounted, bounded := hlt }
  · rw [if_pos (by simp [h.built])]
    exact .inr (h.tickRest hinfo)

/-! ### Runs -/

end WorldPlayer

namespace WorldEvent

/-- How many ticks there were. -/
def ticks (events : List WorldEvent) : ℕ := events.countP fun event => event matches .tick

end WorldEvent

namespace WorldPlayer
variable {c : WorldConfig} {s : WorldPlayer} {ticks : ℕ}

private theorem Bootstrapping.queueVarps (h : Bootstrapping ticks s) (count : ℕ) :
    Bootstrapping ticks (s.queueVarps count) :=
  h.imp (fun h => { h with }) (fun h => { h with })

private theorem Bootstrapping.flush (h : Bootstrapping ticks s) :
    Bootstrapping ticks (s.flush c) := by
  unfold WorldPlayer.flush
  dsimp only
  split_ifs
  · exact h
  · exact h.imp (fun h => { h with }) (fun h => { h with })
  · exact h.imp (fun h => { h with }) (fun h => { h with })

private theorem stored_added : Stored (addedBeforeContinuation c) := by
  constructor <;> unfold addedBeforeContinuation <;> cases c.entryMode <;> dsimp only <;>
    split_ifs <;> simp

private theorem bootstrapping_added (hinfo : c.playerInfo = true) : Bootstrapping 0 (added c) := by
  have hstored := stored_added (c := c)
  unfold added
  dsimp only
  split_ifs with hmap
  · left
    refine { hstored with awaiting := hmap, counted := ?_, bounded := by decide, notReady := ?_ }
    all_goals
      unfold addedBeforeContinuation
      cases c.entryMode <;> dsimp only <;> split_ifs <;> rfl
  · right
    exact hstored.completeDeferredBootstrap hinfo (by simpa using hmap) (Nat.zero_le 19)

private theorem Bootstrapping.handle (h : Bootstrapping ticks s) (hinfo : c.playerInfo = true)
    (event : WorldEvent) :
    Bootstrapping (ticks + WorldEvent.ticks [event]) (s.handle c event) := by
  cases event with
  | clientBootstrapBlob28 => exact h
  | clientBootstrapControl50 value => exact h.handleClientBootstrapControl50 hinfo value
  | clientBootstrapControl82 => exact h
  | clientDisplayState106 => exact h.handleClientDisplayState106 hinfo
  | mapBuildComplete => exact h.endMapBuildWait hinfo
  | noTimeout => exact h.handleNoTimeout
  | unidentified opcode payloadLength => exact h.handleUnidentifiedPacket hinfo opcode payloadLength
  | tick => exact h.tick hinfo
  | queueVarps count => exact h.queueVarps count
  | flush => exact h.flush

theorem bootstrapping_run (hinfo : c.playerInfo = true) (events : List WorldEvent) :
    Bootstrapping (WorldEvent.ticks events) (run c events) := by
  induction events using List.reverseRecOn with
  | nil => exact bootstrapping_added hinfo
  | append_singleton events event ih =>
    have hrun : run c (events ++ [event]) = (run c events).handle c event := by
      simp [run]
    have hticks : WorldEvent.ticks (events ++ [event]) =
        WorldEvent.ticks events + WorldEvent.ticks [event] := List.countP_append
    rw [hrun, hticks]
    exact ih.handle hinfo event

/-- Whatever the client sends, both waits are timed, the continuation runs at most once, and the
first sync is not later than both timers. -/
theorem run_firstSync (hinfo : c.playerInfo = true) (events : List WorldEvent) :
    ((run c events).waits.awaitingMapBuildComplete = true →
      (run c events).waits.deferredBootstrap = true ∧
        (run c events).waits.mapBuildWaitTicks < 20) ∧
    ((run c events).waits.awaitingWorldReadySignal = true →
      .interfaces ∈ (run c events).completedBootstrapStages ∧
        (run c events).sync.initialWorldSyncSent = false ∧
        (run c events).waits.worldReadyWaitTicks < 8) ∧
    ((run c events).waits.awaitingMapBuildComplete &&
      (run c events).waits.awaitingWorldReadySignal) = false ∧
    (run c events).completedBootstrapStages.count .stats ≤ 1 ∧
    ((run c events).sync.initialWorldSyncSent = false → WorldEvent.ticks events ≤ 28) := by
  obtain h | h := bootstrapping_run hinfo events
  · have hcount := List.count_eq_zero.mpr h.notRun
    have hlt := h.bounded
    simp [h.awaiting, h.stored, h.counted, h.notReady, hcount]
    omega
  · have hsynced := h.synced
    refine ⟨?_, ?_, ?_, h.once.le, ?_⟩
    · simp [h.built]
    · intro hready
      exact ⟨h.run, by simpa [hready] using hsynced, (h.bounded hready).1⟩
    · simp [h.built]
    · intro hunsent
      have hready : (run c events).waits.awaitingWorldReadySignal = true := by
        simpa [hunsent] using hsynced
      obtain ⟨hlt, hle⟩ := h.bounded hready
      omega

/-- A client that sends nothing has its continuation stored for two ticks. -/
theorem run_firstSync_sample :
    (run {} [.tick, .tick]).waits.awaitingMapBuildComplete = true ∧
      (run {} [.tick, .tick]).waits.deferredBootstrap = true ∧
        (run {} [.tick, .tick]).waits.mapBuildWaitTicks < 20 := by
  have hawaiting : (run {} [.tick, .tick]).waits.awaitingMapBuildComplete = true := by rfl
  constructor
  · exact hawaiting
  · exact (run_firstSync (c := {}) rfl [.tick, .tick]).1 hawaiting

end WorldPlayer
end OpenNXT.Model
