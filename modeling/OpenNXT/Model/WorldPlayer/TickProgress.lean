import Mathlib.Data.List.Infix
import OpenNXT.Model.WorldPlayer.BundleFlags
import OpenNXT.Model.WorldPlayer.FirstSync

/-! Which ticks change nothing: all others send a frame or advance the bootstrap. -/
namespace OpenNXT.Model
namespace WorldPlayer

/-- The frames among what was written. -/
def syncFrames (s : WorldPlayer) : ℕ :=
  s.bundles.client.written.countP fun w => w = .npcInfo ∨ w = .playerInfo

/-- Everything but what was written. -/
def bootstrapState (s : WorldPlayer) : WorldPlayer := { s with bundles.client.written := [] }

/-- The tick neither sends a frame nor changes anything. -/
def Silent (c : WorldConfig) (s : WorldPlayer) : Prop :=
  (s.tick c).syncFrames = s.syncFrames ∧ (s.tick c).bootstrapState = s.bootstrapState

/-- With the forced fallback the first delta waits for a late ready signal that no timer replaces,
and nothing else is left to send. -/
structure Frozen (s : WorldPlayer) : Prop where
  forced : s.waits.forcedMapBuildFallbackActive = true
  late : s.sceneStart.awaitingLateSceneStartReadySignal = true
  noneAccepted : s.sceneStart.lateSceneStartReadySignalsAccepted = 0
  delta : s.bundles.flags.deferredSceneStartEventDeltaPending = true
  control50 : s.lastClientBootstrapControl50 = none ∨ s.lastClientBootstrapControl50 = some 3
  noBurst : s.sceneStart.sceneStartSyncBurstTicks = 0
  noTail : s.bundles.flags.deferredLateWorldCompletionTailPending = false
  noHold : s.postInitialWorldSyncHold.ticks = 0
  noDefaultVarps : s.deferredDefaultVarpsPending = false
  noVarps : s.pendingDeferredBootstrapVarps = 0

instance (s : WorldPlayer) : Decidable (Frozen s) :=
  decidable_of_iff
    (s.waits.forcedMapBuildFallbackActive = true ∧
      s.sceneStart.awaitingLateSceneStartReadySignal = true ∧
      s.sceneStart.lateSceneStartReadySignalsAccepted = 0 ∧
      s.bundles.flags.deferredSceneStartEventDeltaPending = true ∧
      (s.lastClientBootstrapControl50 = none ∨ s.lastClientBootstrapControl50 = some 3) ∧
      s.sceneStart.sceneStartSyncBurstTicks = 0 ∧
      s.bundles.flags.deferredLateWorldCompletionTailPending = false ∧
      s.postInitialWorldSyncHold.ticks = 0 ∧ s.deferredDefaultVarpsPending = false ∧
      s.pendingDeferredBootstrapVarps = 0)
    ⟨fun ⟨a, b, c, d, e, f, g, h, i, j⟩ => ⟨a, b, c, d, e, f, g, h, i, j⟩,
      fun h => ⟨h.forced, h.late, h.noneAccepted, h.delta, h.control50, h.noBurst, h.noTail,
        h.noHold, h.noDefaultVarps, h.noVarps⟩⟩

variable {c : WorldConfig} {s r : WorldPlayer} {ticks : ℕ}

private theorem bootstrapState_eq (h : r.bootstrapState = s.bootstrapState) :
    r.waits = s.waits ∧ r.sync = s.sync ∧ r.postInitialWorldSyncHold = s.postInitialWorldSyncHold ∧
      r.sceneStart = s.sceneStart ∧ r.bundles.flags = s.bundles.flags := by
  constructor
  · exact (congrArg WorldPlayer.waits h :)
  · constructor
    · exact (congrArg WorldPlayer.sync h :)
    · constructor
      · exact (congrArg WorldPlayer.postInitialWorldSyncHold h :)
      · constructor
        · exact (congrArg WorldPlayer.sceneStart h :)
        · exact (congrArg (fun s => s.bundles.flags) h :)

/-! ### The ticks of the two waits -/

private theorem not_silent_of_mapBuildWait (h : MapBuildWait ticks s) (hinfo : c.playerInfo = true) :
    ¬ Silent c s := by
  rintro ⟨-, hstate⟩
  obtain ⟨hwaits, -⟩ := bootstrapState_eq hstate
  obtain hnext | hnext := Bootstrapping.tick (.inl h) hinfo
  · have hcounted := hnext.counted
    rw [hwaits, h.counted] at hcounted
    omega
  · have hbuilt := hnext.built
    rw [hwaits, h.awaiting] at hbuilt
    contradiction

private theorem promoteServerpermReady_kept :
    s.promoteServerpermReady.waits.worldReadyWaitTicks = s.waits.worldReadyWaitTicks ∧
      s.promoteServerpermReady.sync = s.sync := by
  unfold promoteServerpermReady
  split
  · split_ifs
    · dsimp only [latchWorldReadySignal, WorldWaits.latchWorldReadySignal]
      split_ifs <;> exact ⟨rfl, rfl⟩
    · exact ⟨rfl, rfl⟩
  · exact ⟨rfl, rfl⟩

private theorem primeWorldReadyWait_kept :
    (s.primeWorldReadyWait c).waits = s.waits ∧
      (s.primeWorldReadyWait c).sync.initialWorldSyncSent = s.sync.initialWorldSyncSent := by
  unfold primeWorldReadyWait
  split_ifs
  · simp
  · exact ⟨rfl, rfl⟩

/-- A tick of the second wait ends it or advances its timer. -/
private theorem tickWorldReadyWait_advances (hinfo : c.playerInfo = true)
    (hready : s.waits.awaitingWorldReadySignal = true)
    (hunsent : s.sync.initialWorldSyncSent = false) :
    (s.tickWorldReadyWait c).1.waits.awaitingWorldReadySignal = false ∨
      (s.tickWorldReadyWait c).1.waits.worldReadyWaitTicks = s.waits.worldReadyWaitTicks + 1 := by
  have hpromoted := promoteServerpermReady_kept (s := s.countWorldReadyWait c)
  unfold tickWorldReadyWait
  rw [if_neg (by simp [hready])]
  dsimp only
  generalize (s.countWorldReadyWait c).promoteServerpermReady = t at hpromoted
  obtain ⟨hticks, hsync⟩ := hpromoted
  have htunsent : t.sync.initialWorldSyncSent = false := by
    rw [hsync]
    exact hunsent
  split_ifs with hreal
  · left
    have hpending : t.waits.pendingWorldReadySignal.isSome = true := by
      unfold hasRealReadySignal at hreal
      cases hpending : t.waits.pendingWorldReadySignal with
      | none => simp [hpending] at hreal
      | some signal => rfl
    dsimp only [consumePendingWorldReadySignalIfNeeded]
    rw [if_pos hpending, (acceptWorldReadySignal_of_unsent hinfo (by exact htunsent)).2]
  · obtain ⟨hprimed, hprimedSent⟩ := primeWorldReadyWait_kept (c := c) (s := t)
    dsimp only [fallBackFromWorldReadyWait]
    split_ifs with hlast
    · left
      rw [sendInitialWorldSyncIfNeeded_waits]
      exact hprimedSent.trans htunsent
    · right
      rw [hprimed, hticks]
      rfl

private theorem MapBuilt.tickReady_waits (h : MapBuilt ticks s) :
    (s.tickReady c).1.waits = s.waits := by
  unfold WorldPlayer.tickReady
  split_ifs with hwait hdelay hunsent
  · rfl
  · simp [h.noDelay] at hdelay
  · have hready : s.waits.awaitingWorldReadySignal = true := by
      simpa [h.synced] using hunsent
    simp [hready] at hwait
  · exact (SyncedStep.refl s).tickSynced.waits

@[simp] private theorem endTick_bootstrapState : (s.endTick c).bootstrapState = s.bootstrapState := by
  unfold endTick
  split_ifs
  · unfold bootstrapState
    dsimp only [mapBundles, WorldBundles.write, WorldClient.write, WorldClient.writeRaw]
    split_ifs <;> rfl
  · rfl

private theorem not_silent_of_worldReadyWait (h : MapBuilt ticks s) (hinfo : c.playerInfo = true)
    (hready : s.waits.awaitingWorldReadySignal = true) : ¬ Silent c s := by
  rintro ⟨-, hstate⟩
  have hunsent : s.sync.initialWorldSyncSent = false := by
    simpa [hready] using h.synced
  have hwaited := h.tickWorldReadyWait hinfo
  have hmap : s.tickMapBuildWait c = s := by
    unfold tickMapBuildWait
    rw [if_pos (by simp [h.built])]
  have hrest : (s.tick c).waits = (s.tickWorldReadyWait c).1.waits := by
    unfold tick tickRest
    rw [hmap]
    dsimp only
    split_ifs
    · rfl
    · exact hwaited.tickReady_waits
    · have hended := endTick_bootstrapState (c := c) (s := ((s.tickWorldReadyWait c).1.tickReady c).1)
      rw [(bootstrapState_eq hended).1]
      exact hwaited.tickReady_waits
  obtain ⟨hwaits, -⟩ := bootstrapState_eq hstate
  rw [hwaits] at hrest
  have hadvances := tickWorldReadyWait_advances hinfo hready hunsent
  rw [← hrest, hready] at hadvances
  simp at hadvances

/-! ### The ticks after the first sync -/

private theorem sendDeferredDefaultVarpsIfNeeded_advances (hinfo : c.playerInfo = true)
    (hsent : s.sync.initialWorldSyncSent = true) (hpending : s.deferredDefaultVarpsPending = true) :
    s.sync.worldSyncFramesSent <
      (s.sendDeferredDefaultVarpsIfNeeded c).sync.worldSyncFramesSent := by
  unfold sendDeferredDefaultVarpsIfNeeded
  rw [if_neg (by simp [hsent, hpending])]
  show s.sync.worldSyncFramesSent <
    (((s.queueLateDefaultVarps c).primeLateDefaultVarps c).sendWorldSyncFrame c
      ).sync.worldSyncFramesSent
  rw [sendWorldSyncFrame_frames _ hinfo]
  unfold primeLateDefaultVarps
  split_ifs <;> exact Nat.lt_succ_self _

private theorem sendDeferredDefaultVarpsIfNeeded_of_not (hpending : s.deferredDefaultVarpsPending = false) :
    s.sendDeferredDefaultVarpsIfNeeded c = s := by
  unfold sendDeferredDefaultVarpsIfNeeded
  rw [if_pos (by simp [hpending])]

/-- The first phase is released by a control value of at least 3, which is assumed when the client
sent none. -/
private theorem control50_of_releasesPhaseOne
    (hreleases : s.releasesPhaseOne s.effectiveSceneStartControl50 = true)
    (hdefer : s.shouldDeferForcedFallbackPhaseOneEventDeltaUntilLateReady
      s.effectiveSceneStartControl50 = true) :
    s.lastClientBootstrapControl50 = none ∨ s.lastClientBootstrapControl50 = some 3 := by
  cases hcontrol : s.lastClientBootstrapControl50 with
  | none => exact .inl rfl
  | some value =>
    right
    have himplicit : s.implicitForcedFallbackSceneStartPhaseOneReached value = false := by
      simp [implicitForcedFallbackSceneStartPhaseOneReached, hcontrol]
    simp only [releasesPhaseOne, effectiveSceneStartControl50, hcontrol, himplicit,
      sceneStartPhaseOneReached, Bool.or_false, Bool.and_eq_true, Bool.or_eq_true,
      decide_eq_true_eq] at hreleases
    simp only [shouldDeferForcedFallbackPhaseOneEventDeltaUntilLateReady,
      effectiveSceneStartControl50, hcontrol, sceneStartPhaseOneReleaseControl50, himplicit,
      Bool.and_eq_true, decide_eq_true_eq, if_neg Bool.false_ne_true] at hdefer
    have heq : value = 3 := by omega
    rw [heq]

/-- A phase that changes nothing waits for a late ready signal already. -/
private theorem releasePhaseOne_of_state
    (hreleases : s.releasesPhaseOne s.effectiveSceneStartControl50 = true)
    (hstate : (s.releasePhaseOne c s.effectiveSceneStartControl50).bootstrapState =
      s.bootstrapState) :
    s.waits.forcedMapBuildFallbackActive = true ∧
      s.sceneStart.awaitingLateSceneStartReadySignal = true ∧
      s.sceneStart.lateSceneStartReadySignalsAccepted = 0 ∧
      s.bundles.flags.deferredSceneStartEventDeltaPending = true ∧
      (s.lastClientBootstrapControl50 = none ∨ s.lastClientBootstrapControl50 = some 3) := by
  have hdelta : s.bundles.flags.deferredSceneStartEventDeltaPending = true := by
    unfold releasesPhaseOne at hreleases
    exact (Bool.and_eq_true_iff.mp hreleases).1
  unfold releasePhaseOne at hstate
  split_ifs at hstate with hdefer
  · have hcontrol := control50_of_releasesPhaseOne hreleases hdefer
    unfold shouldDeferForcedFallbackPhaseOneEventDeltaUntilLateReady at hdefer
    simp only [Bool.and_eq_true, decide_eq_true_eq] at hdefer
    obtain ⟨⟨hforced, hnone⟩, -⟩ := hdefer
    have hlate : s.sceneStart.awaitingLateSceneStartReadySignal = true := by
      by_contra hlate
      unfold deferForcedFallbackPhaseOneEventDeltaUntilLateReady at hstate
      rw [if_neg hlate] at hstate
      obtain ⟨-, -, -, hscene, -⟩ := bootstrapState_eq hstate
      rw [sendWorldSyncFrame_sceneStart] at hscene
      exact hlate (congrArg SceneStart.awaitingLateSceneStartReadySignal hscene).symm
    exact ⟨hforced, hlate, hnone, hdelta, hcontrol⟩
  · obtain ⟨-, -, -, -, hflags⟩ := bootstrapState_eq hstate
    have hcleared := congrArg WorldFlags.deferredSceneStartEventDeltaPending hflags
    rw [hdelta] at hcleared
    simp at hcleared

private theorem not_state_of_frames (h : s.sync.worldSyncFramesSent < r.sync.worldSyncFramesSent) :
    r.bootstrapState ≠ s.bootstrapState := by
  intro hstate
  obtain ⟨-, hsync, -⟩ := bootstrapState_eq hstate
  rw [hsync] at h
  exact lt_irrefl _ h

/-- The phases that change nothing: no burst is left and the first phase waits already. -/
private theorem tickSceneStartPhases_of_state (hinfo : c.playerInfo = true)
    (hstate : (s.tickSceneStartPhases c).1.bootstrapState = s.bootstrapState) :
    s.pendingDeferredBootstrapVarps = 0 ∧ s.sceneStart.sceneStartSyncBurstTicks = 0 ∧
      s.waits.forcedMapBuildFallbackActive = true ∧
      s.sceneStart.awaitingLateSceneStartReadySignal = true ∧
      s.sceneStart.lateSceneStartReadySignalsAccepted = 0 ∧
      s.bundles.flags.deferredSceneStartEventDeltaPending = true ∧
      (s.lastClientBootstrapControl50 = none ∨ s.lastClientBootstrapControl50 = some 3) := by
  have hframe (t : WorldPlayer) (ht : t.sync = s.sync) :
      s.sync.worldSyncFramesSent < (t.sendWorldSyncFrame c).sync.worldSyncFramesSent := by
    rw [sendWorldSyncFrame_frames t hinfo, ht]
    exact Nat.lt_succ_self _
  unfold tickSceneStartPhases at hstate
  dsimp only at hstate
  split_ifs at hstate with hvarps hburst hzero hone htwo hlight hfinal
  · exact absurd hstate (not_state_of_frames (hframe s rfl))
  · refine absurd hstate (not_state_of_frames ?_)
    apply (hframe _ ?_).trans_le ((SyncedStep.refl _).releasePhaseOne _).frames
    rfl
  · refine absurd hstate (not_state_of_frames (hframe _ ?_))
    rfl
  · obtain ⟨hforced, hlate, hnone, hdelta, hcontrol⟩ := releasePhaseOne_of_state hone hstate
    exact ⟨by omega, by omega, hforced, hlate, hnone, hdelta, hcontrol⟩
  · obtain ⟨-, -, -, -, hflags⟩ := bootstrapState_eq hstate
    have hcleared := congrArg WorldFlags.deferredSceneStartTabbedEventDeltaPending hflags
    simp only [Bool.and_eq_true] at htwo
    rw [htwo.1] at hcleared
    simp at hcleared
  · obtain ⟨-, -, -, -, hflags⟩ := bootstrapState_eq hstate
    have hcleared := congrArg WorldFlags.deferredSceneStartLightTailScriptsPending hflags
    simp only [Bool.and_eq_true] at hlight
    rw [hlight.1] at hcleared
    simp at hcleared
  · obtain ⟨-, -, -, hscene, -⟩ := bootstrapState_eq hstate
    have hraised := congrArg SceneStart.awaitingLateSceneStartReadySignal hscene
    simp only [Bool.and_eq_true, Bool.not_eq_true'] at hfinal
    rw [hfinal.1.2] at hraised
    simp at hraised
  · exact absurd hstate (not_state_of_frames (hframe s rfl))

/-! ### What stays as it is after the hold -/

@[simp] private theorem sendDeferredDefaultVarpsIfNeeded_flags :
    (s.sendDeferredDefaultVarpsIfNeeded c).bundles.flags = s.bundles.flags := by
  unfold sendDeferredDefaultVarpsIfNeeded primeLateDefaultVarps
  dsimp only [completeStage]
  split_ifs
  · rfl
  · rw [sendWorldSyncFrame_flags]
    rfl
  · rw [sendWorldSyncFrame_flags]
    rfl

@[simp] private theorem sendDeferredDefaultVarpsIfNeeded_postInitialWorldSyncHold :
    (s.sendDeferredDefaultVarpsIfNeeded c).postInitialWorldSyncHold =
      s.postInitialWorldSyncHold := by
  unfold sendDeferredDefaultVarpsIfNeeded primeLateDefaultVarps
  dsimp only [completeStage]
  split_ifs
  · rfl
  · rw [sendWorldSyncFrame_postInitialWorldSyncHold]
    rfl
  · rw [sendWorldSyncFrame_postInitialWorldSyncHold]
    rfl

@[simp] private theorem sendDeferredLateWorldCompletionTailIfNeeded_postInitialWorldSyncHold :
    (s.sendDeferredLateWorldCompletionTailIfNeeded c).postInitialWorldSyncHold =
      s.postInitialWorldSyncHold := by
  unfold sendDeferredLateWorldCompletionTailIfNeeded
  split_ifs
  · rfl
  · rw [sendDeferredDefaultVarpsIfNeeded_postInitialWorldSyncHold]
    rfl

@[simp] private theorem releasePhaseOne_postInitialWorldSyncHold (control50 : ℤ) :
    (s.releasePhaseOne c control50).postInitialWorldSyncHold = s.postInitialWorldSyncHold := by
  unfold releasePhaseOne deferForcedFallbackPhaseOneEventDeltaUntilLateReady
  split_ifs
  · rfl
  · rw [sendWorldSyncFrame_postInitialWorldSyncHold]
    rfl
  · rfl

@[simp] private theorem tickSceneStart_postInitialWorldSyncHold :
    (s.tickSceneStart c).1.postInitialWorldSyncHold = s.postInitialWorldSyncHold := by
  unfold tickSceneStart tickSceneStartPhases
  dsimp only
  split_ifs <;> simp

/-- Once the tail is sent it is not pending. -/
private theorem sendDeferredLateWorldCompletionTailIfNeeded_tail (hsends : s.sendsDeferredTail = true) :
    (s.sendDeferredLateWorldCompletionTailIfNeeded c
      ).bundles.flags.deferredLateWorldCompletionTailPending = false := by
  unfold sendDeferredLateWorldCompletionTailIfNeeded
  rw [if_neg (by simp [hsends])]
  simp [WorldBundles.sendDeferredLateWorldCompletionTail]

/-! ### Silent ticks -/

private theorem sendsDeferredTail_of_state
    (hstate : (s.tickSynced c).1.bootstrapState = s.bootstrapState) :
    s.sendsDeferredTail = false := by
  obtain ⟨-, -, -, -, hflags⟩ := bootstrapState_eq hstate
  by_contra hsends
  rw [Bool.not_eq_false] at hsends
  have hcleared := congrArg WorldFlags.deferredLateWorldCompletionTailPending hflags
  unfold tickSynced at hcleared
  rw [if_pos hsends, sendDeferredLateWorldCompletionTailIfNeeded_tail hsends] at hcleared
  unfold sendsDeferredTail at hsends
  simp [← hcleared] at hsends

/-- Every tick of the hold shortens it. -/
private theorem tickSynced_hold (hsends : s.sendsDeferredTail = false)
    (hhold : 0 < s.postInitialWorldSyncHold.ticks) :
    (s.tickSynced c).1.postInitialWorldSyncHold.ticks < s.postInitialWorldSyncHold.ticks := by
  have hheld : (s.holdPostInitialSync c).postInitialWorldSyncHold.ticks <
      s.postInitialWorldSyncHold.ticks := by
    unfold holdPostInitialSync
    dsimp only
    split_ifs
    · exact hhold
    · exact Nat.sub_lt hhold Nat.one_pos
  have hcleared : ((s.holdPostInitialSync c).clearPostInitialSyncHold c
      ).postInitialWorldSyncHold.ticks = 0 := rfl
  unfold tickSynced
  rw [if_neg (by simp [hsends]), if_pos hhold]
  dsimp only
  split_ifs
  · rwa [sendDeferredLateWorldCompletionTailIfNeeded_postInitialWorldSyncHold, hcleared]
  · rwa [tickSceneStart_postInitialWorldSyncHold, hcleared]
  · exact hheld

private theorem frozen_of_state (hinfo : c.playerInfo = true)
    (hsent : s.sync.initialWorldSyncSent = true)
    (hstate : (s.tickSynced c).1.bootstrapState = s.bootstrapState) : Frozen s := by
  have hsends := sendsDeferredTail_of_state hstate
  have hnoHold : s.postInitialWorldSyncHold.ticks = 0 := by
    by_contra hhold
    have hlt := tickSynced_hold (c := c) hsends (Nat.pos_of_ne_zero hhold)
    obtain ⟨-, -, hsame, -⟩ := bootstrapState_eq hstate
    rw [hsame] at hlt
    exact lt_irrefl _ hlt
  have hscene : s.tickSynced c = s.tickSceneStart c := by
    unfold tickSynced
    rw [if_neg (by simp [hsends]), if_neg (by omega)]
  rw [hscene] at hstate
  have hnoDefaultVarps : s.deferredDefaultVarpsPending = false := by
    by_contra hpending
    rw [Bool.not_eq_false] at hpending
    have hlt := sendDeferredDefaultVarpsIfNeeded_advances hinfo hsent hpending
    have hle := (SyncedStep.refl (s.sendDeferredDefaultVarpsIfNeeded c)).tickSceneStartPhases
      (c := c)
    exact not_state_of_frames (hlt.trans_le hle.frames) hstate
  unfold tickSceneStart at hstate
  rw [sendDeferredDefaultVarpsIfNeeded_of_not hnoDefaultVarps] at hstate
  obtain ⟨hvarps, hburst, hforced, hlate, hnone, hdelta, hcontrol⟩ :=
    tickSceneStartPhases_of_state hinfo hstate
  have hnoTail : s.bundles.flags.deferredLateWorldCompletionTailPending = false := by
    simpa [sendsDeferredTail, hsent, hnoHold] using hsends
  constructor <;> assumption

private theorem Frozen.tickSynced (h : Frozen s) : s.tickSynced c = (s, true) := by
  have hsends : s.sendsDeferredTail = false := by
    simp [sendsDeferredTail, h.noTail]
  have hcontrol : s.effectiveSceneStartControl50 = 3 := by
    unfold effectiveSceneStartControl50
    obtain hcontrol | hcontrol := h.control50 <;> simp [hcontrol, h.forced, h.delta]
  have hone : s.sceneStartPhaseOneReached 3 = true := by
    simp [sceneStartPhaseOneReached, h.forced]
  have hreleases : s.releasesPhaseOne 3 = true := by
    simp [releasesPhaseOne, h.delta, hone]
  have hdefer : s.shouldDeferForcedFallbackPhaseOneEventDeltaUntilLateReady 3 = true := by
    simp [shouldDeferForcedFallbackPhaseOneEventDeltaUntilLateReady, h.forced, h.noneAccepted,
      sceneStartPhaseOneReleaseControl50]
  have hphase : s.releasePhaseOne c 3 = s := by
    unfold releasePhaseOne deferForcedFallbackPhaseOneEventDeltaUntilLateReady
    rw [if_pos hdefer, if_pos h.late]
  unfold WorldPlayer.tickSynced tickSceneStart
  rw [if_neg (by simp [hsends]), if_neg (by simp [h.noHold]),
    sendDeferredDefaultVarpsIfNeeded_of_not h.noDefaultVarps]
  unfold tickSceneStartPhases
  dsimp only
  rw [hcontrol, if_neg (by simp [h.noVarps]), if_neg (by simp [h.noBurst]), if_pos hreleases,
    hphase]

private theorem tick_of_synced (h : MapBuilt ticks s) (hsent : s.sync.initialWorldSyncSent = true) :
    s.tick c = if (s.tickSynced c).2 then (s.tickSynced c).1 else (s.tickSynced c).1.endTick c := by
  have hready : s.waits.awaitingWorldReadySignal = false := by
    simpa [hsent] using h.synced
  have hmap : s.tickMapBuildWait c = s := by
    unfold tickMapBuildWait
    rw [if_pos (by simp [h.built])]
  have hwait : s.tickWorldReadyWait c = (s, false) := by
    unfold WorldPlayer.tickWorldReadyWait
    rw [if_pos (by simp [hready])]
  have htick : s.tickReady c = s.tickSynced c := by
    unfold WorldPlayer.tickReady
    rw [if_neg (by simp [h.built, hready]), if_neg (by simp [h.noDelay]),
      if_neg (by simp [hsent])]
  unfold tick tickRest
  rw [hmap, hwait]
  dsimp only
  rw [if_neg Bool.false_ne_true, htick]

/-- A frozen session stays as it is for as long as the client sends nothing. -/
private theorem Frozen.tick (hfrozen : Frozen s) (h : MapBuilt ticks s) : s.tick c = s := by
  rw [tick_of_synced h (h.late hfrozen.late), hfrozen.tickSynced, if_pos rfl]

private theorem silent_iff_frozen (h : Bootstrapping ticks s) (hinfo : c.playerInfo = true) :
    Silent c s ↔ Frozen s := by
  obtain h | h := h
  · apply iff_of_false (not_silent_of_mapBuildWait h hinfo)
    intro hfrozen
    have hlate := hfrozen.late
    rw [h.notLate] at hlate
    contradiction
  · constructor
    · intro hsilent
      cases hsent : s.sync.initialWorldSyncSent with
      | false =>
        have hready : s.waits.awaitingWorldReadySignal = true := by
          simpa [hsent] using h.synced
        exact absurd hsilent (not_silent_of_worldReadyWait h hinfo hready)
      | true =>
        obtain ⟨-, hstate⟩ := hsilent
        rw [tick_of_synced h hsent] at hstate
        apply frozen_of_state hinfo hsent
        split_ifs at hstate
        · exact hstate
        · rwa [endTick_bootstrapState] at hstate
    · intro hfrozen
      unfold Silent
      rw [hfrozen.tick h]
      exact ⟨rfl, rfl⟩

/-- No tick of a run is silent just when none meets a frozen session. -/
theorem run_not_silent_iff (hinfo : c.playerInfo = true) (events : List WorldEvent) :
    (∀ before, before <+: events → ¬ Silent c (run c before)) ↔
      ∀ before, before <+: events → ¬ Frozen (run c before) := by
  constructor
  · intro h before hbefore hfrozen
    exact h before hbefore ((silent_iff_frozen (bootstrapping_run hinfo before) hinfo).mpr hfrozen)
  · intro h before hbefore hsilent
    exact h before hbefore ((silent_iff_frozen (bootstrapping_run hinfo before) hinfo).mp hsilent)

/-- The third tick after the client said that the map is built is not silent. -/
theorem run_not_silent_iff_sample :
    ¬ Silent {} (run {} [.mapBuildComplete, .tick, .tick]) := by
  have hinits : ∀ before ∈ [.mapBuildComplete, .tick, .tick].inits, ¬ Frozen (run {} before) := by
    decide +kernel
  apply (run_not_silent_iff (c := {}) rfl [.mapBuildComplete, .tick, .tick]).mpr
  · intro before hbefore
    exact hinits before (List.mem_inits _ _ |>.mpr hbefore)
  · exact List.prefix_rfl

/-- After the fallback from the wait for the map, a client that sends nothing is sent nothing. -/
theorem run_silent : ¬ ∀ (c : WorldConfig) (events : List WorldEvent), c.playerInfo = true →
    ¬ Silent c (run c events) := by
  intro h
  let c : WorldConfig := { entryMode := .postLobbyAuth }
  have hfrozen : Frozen (run c (List.replicate 22 .tick)) := by
    decide +kernel
  apply h c (List.replicate 22 .tick) rfl
  exact (silent_iff_frozen (bootstrapping_run rfl (List.replicate 22 .tick)) rfl).mpr hfrozen

end WorldPlayer
end OpenNXT.Model
