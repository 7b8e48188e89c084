import OpenNXT.Model.WorldPlayer.WorldBundles

/-! The bootstrap of a player that entered the world: the waits for the client, the first sync and
what is sent after it, as the client's packets and the ticks drive them. -/
namespace OpenNXT.Model

inductive WorldReadySource
  | decodedEarly
  | liveEarly
  | serverpermAfterDisplay
  | serverpermAfterDisplayDelayed
  | syntheticForcedMapBuildFallback
  deriving DecidableEq

structure PendingWorldReadySignal where
  opcode : ℤ
  source : WorldReadySource
  deriving DecidableEq

inductive WorldStage
  | appearance
  | loginResponse
  | pipelineSwitch
  | rebuild
  | stats
  | defaultState
  | interfaces
  | lateDefaultVarps
  deriving DecidableEq

/-- The waits before the first sync, and the continuation that the first of them holds back. -/
structure WorldWaits where
  awaitingMapBuildComplete : Bool := false
  awaitingWorldReadySignal : Bool := false
  deferredBootstrap : Bool := false
  mapBuildWaitTicks : ℕ := 0
  worldReadyWaitTicks : ℕ := 0
  playerInfoDelayTicks : ℕ := 0
  pendingWorldReadySignal : Option PendingWorldReadySignal := none
  pendingServerpermDelayedReadySignal : Option PendingWorldReadySignal := none
  compatMapBuildReadyFallbackOpcode : Option ℤ := none
  forcedMapBuildFallbackPending : Bool := false
  forcedMapBuildFallbackActive : Bool := false
  pendingServerpermMapBuildCompat : Bool := false
  skipPostInitialSyncHoldForForcedFallback : Bool := false
  lastClientDisplayState106 : Bool := false

structure WorldSync where
  initialWorldSyncSent : Bool := false
  worldSyncFramesSent : ℕ := 0
  forcedLocalAppearanceRefreshFrames : ℕ := 0

structure PostInitialWorldSyncHold where
  ticks : ℕ := 0
  forcedFallback : Bool := false
  sendFrames : Bool := false

structure SceneStart where
  sceneStartSyncBurstTicks : ℕ := 0
  awaitingLateSceneStartReadySignal : Bool := false
  lateSceneStartReadySignalsAccepted : ℕ := 0

structure WorldPlayer where
  bundles : WorldBundles := {}
  waits : WorldWaits := {}
  sync : WorldSync := {}
  postInitialWorldSyncHold : PostInitialWorldSyncHold := {}
  sceneStart : SceneStart := {}
  deferredDefaultVarpsPending : Bool := false
  pendingDeferredBootstrapVarps : ℕ := 0
  lastClientBootstrapControl50 : Option ℤ := none
  completedBootstrapStages : List WorldStage := []
  noTimeouts : ℕ := 0

def worldReadyPriority (opcode : ℤ) : ℕ :=
  if opcode = 48 then 3 else if opcode = 50 then 2 else if opcode = 17 then 1 else 0

def mapBuildCompatOpcodes : List ℤ := [30, 50, 95, 113]

def worldReadyCompatOpcodes : List ℤ := [17, 48, 50]

def lateSceneStartReadyCompatOpcodes : List ℤ := [17, 27, 48, 66, 72, 83, 84, 106, 114]

namespace WorldWaits

/-- A later signal replaces an earlier one of lower priority. -/
def latchWorldReadySignal (signal : PendingWorldReadySignal) (w : WorldWaits) : WorldWaits :=
  let shouldReplace := w.pendingWorldReadySignal.all fun existing =>
    worldReadyPriority existing.opcode < worldReadyPriority signal.opcode
  if shouldReplace then { w with pendingWorldReadySignal := some signal } else w

end WorldWaits

namespace WorldPlayer
variable (c : WorldConfig)

@[simp] def mapBundles (f : WorldBundles → WorldBundles) (s : WorldPlayer) : WorldPlayer :=
  { s with bundles := f s.bundles }

@[simp] def completeStage (stage : WorldStage) (s : WorldPlayer) : WorldPlayer :=
  { s with completedBootstrapStages := s.completedBootstrapStages ++ [stage] }

/-! ### Sync frames -/

def sendWorldSyncFrame (s : WorldPlayer) : WorldPlayer :=
  let written := if c.npcInfo then s.bundles.writeRaw .npcInfo else s.bundles
  if c.playerInfo then
    { s with
      bundles := written.writeRaw .playerInfo
      sync :=
        { initialWorldSyncSent := true
          worldSyncFramesSent := s.sync.worldSyncFramesSent + 1
          forcedLocalAppearanceRefreshFrames := s.sync.forcedLocalAppearanceRefreshFrames - 1 } }
  else if c.npcInfo then
    { s with
      bundles := written
      sync :=
        { s.sync with
          initialWorldSyncSent := true
          worldSyncFramesSent := s.sync.worldSyncFramesSent + 1 } }
  else s

/-- A frame that does not count as the first. -/
def sendPreReadyWorldSyncPrimeFrame (s : WorldPlayer) : WorldPlayer :=
  let sent := s.sendWorldSyncFrame c
  { sent with sync := { sent.sync with initialWorldSyncSent := s.sync.initialWorldSyncSent } }

def armSceneStartSyncBurst (s : WorldPlayer) : WorldPlayer :=
  { s with
    sceneStart :=
      { s.sceneStart with
        sceneStartSyncBurstTicks := max s.sceneStart.sceneStartSyncBurstTicks 3 }
    sync :=
      { s.sync with
        forcedLocalAppearanceRefreshFrames := max s.sync.forcedLocalAppearanceRefreshFrames 3 } }

/-! ### The first sync -/

/-- With the forced fallback the tail is held back only as long as it is pending. -/
def primeForcedFallbackPostInitialSyncHold (s : WorldPlayer) : WorldPlayer :=
  let hold := s.postInitialWorldSyncHold
  if !hold.forcedFallback || hold.ticks = 0 || !hold.sendFrames then s
  else
    let s := s.mapBundles (WorldBundles.write c .noTimeout)
    let s :=
      if s.pendingDeferredBootstrapVarps = 0 then
        let synced :=
          if s.bundles.flags.deferredLateWorldCompletionTailPending then s else s.sendWorldSyncFrame c
        synced.mapBundles (WorldBundles.primeForcedFallbackPreDeferredFamilies hold.forcedFallback)
      else s
    { s with postInitialWorldSyncHold := { hold with ticks := hold.ticks - 1 } }

/-- The overlay is closed before the first sync, with the forced fallback after the hold. -/
def prepareLoadingOverlay (s : WorldPlayer) : WorldPlayer :=
  if !s.bundles.client.isOpened 1417 then
    s.mapBundles fun b => { b with flags.pendingForcedFallbackLoadingOverlayClose := false }
  else if s.waits.skipPostInitialSyncHoldForForcedFallback then
    s.mapBundles fun b => { b with flags.pendingForcedFallbackLoadingOverlayClose := true }
  else s.mapBundles (WorldBundles.closeLoadingOverlay c)

def postInitialWorldSyncHoldTicks (forcedFallbackBootstrap : Bool) : ℕ :=
  if forcedFallbackBootstrap then 4 else 3

/-- The second frame, right after the first, and the hold for a tail that is pending. -/
def sendImmediateFollowup (forcedFallbackBootstrap skipPostSyncHold : Bool) (s : WorldPlayer) :
    WorldPlayer :=
  let keepPostSyncHoldForDeferredTail := s.bundles.flags.deferredLateWorldCompletionTailPending
  let s := s.sendWorldSyncFrame c
  if keepPostSyncHoldForDeferredTail && !skipPostSyncHold then
    let s :=
      { s with
        postInitialWorldSyncHold :=
          { ticks := postInitialWorldSyncHoldTicks forcedFallbackBootstrap
            forcedFallback := forcedFallbackBootstrap && keepPostSyncHoldForDeferredTail
            sendFrames := keepPostSyncHoldForDeferredTail } }
    if forcedFallbackBootstrap then s.primeForcedFallbackPostInitialSyncHold c else s
  else
    let s :=
      { s with
        postInitialWorldSyncHold :=
          { ticks := 0
            forcedFallback := forcedFallbackBootstrap && keepPostSyncHoldForDeferredTail
            sendFrames := false } }
    s.mapBundles (WorldBundles.closeForcedFallbackLoadingOverlayIfPending c
      s.sceneStart.lateSceneStartReadySignalsAccepted)

def sendInitialWorldSyncIfNeeded (forceImmediateFollowup skipPostSyncHold : Bool)
    (s : WorldPlayer) : WorldPlayer :=
  if s.sync.initialWorldSyncSent then s
  else
    let forcedFallbackBootstrap := s.waits.skipPostInitialSyncHoldForForcedFallback
    let s := (s.prepareLoadingOverlay c).sendWorldSyncFrame c
    let s :=
      { s with
        waits :=
          { s.waits with
            pendingWorldReadySignal := none
            pendingServerpermDelayedReadySignal := none
            skipPostInitialSyncHoldForForcedFallback := false }
        postInitialWorldSyncHold := { s.postInitialWorldSyncHold with sendFrames := false } }
    if forceImmediateFollowup || c.bootstrap.sendImmediateFollowupWorldSync then
      s.sendImmediateFollowup c forcedFallbackBootstrap skipPostSyncHold
    else
      { s with
        postInitialWorldSyncHold :=
          { ticks := postInitialWorldSyncHoldTicks forcedFallbackBootstrap
            forcedFallback := forcedFallbackBootstrap
            sendFrames := s.bundles.flags.deferredLateWorldCompletionTailPending } }

/-! ### The ready signal -/

def acceptWorldReadySignal (s : WorldPlayer) : WorldPlayer :=
  if s.sync.initialWorldSyncSent && !s.waits.awaitingWorldReadySignal then s
  else
    let s' :=
      { s with
        waits :=
          { s.waits with
            pendingWorldReadySignal := none
            pendingServerpermDelayedReadySignal := none
            awaitingWorldReadySignal := false
            compatMapBuildReadyFallbackOpcode := none
            worldReadyWaitTicks := 0
            playerInfoDelayTicks := 0 } }
    if s.sync.initialWorldSyncSent then s'
    else
      let forceImmediateFollowup := s.bundles.flags.deferredLateWorldCompletionTailPending
      s'.sendInitialWorldSyncIfNeeded c forceImmediateFollowup
        (forceImmediateFollowup && !s.bundles.flags.deferredLateWorldCompletionTailPending)

def consumePendingWorldReadySignalIfNeeded (s : WorldPlayer) : WorldPlayer :=
  if s.waits.pendingWorldReadySignal.isSome then
    acceptWorldReadySignal c { s with waits := { s.waits with pendingWorldReadySignal := none } }
  else s

@[simp] def latchWorldReadySignal (signal : PendingWorldReadySignal) (s : WorldPlayer) : WorldPlayer :=
  { s with waits := s.waits.latchWorldReadySignal signal }

/-! ### The continuation of the bootstrap -/

def shouldQueueDeferredDefaultVarps (forcedMapBuildFallbackCompat : Bool) (s : WorldPlayer) :
    Bool :=
  if !c.bootstrap.sendDefaultVarps then false
  else if c.bootstrap.openRootInterface && !forcedMapBuildFallbackCompat then
    s.lastClientBootstrapControl50 = some 1
  else true

def queueMinimalWorldFollowupIfNeeded (forcedMapBuildFallbackCompat : Bool) (s : WorldPlayer) :
    WorldPlayer :=
  { s with
    deferredDefaultVarpsPending :=
      s.deferredDefaultVarpsPending ||
        s.shouldQueueDeferredDefaultVarps c forcedMapBuildFallbackCompat
    bundles := s.bundles.queueDeferredWorldCompletionTailIfNeeded }

/-- The stats themselves are left out. -/
def runStats (s : WorldPlayer) : WorldPlayer := s.completeStage .stats

def runDefaultState (s : WorldPlayer) : WorldPlayer :=
  let s :=
    if s.bundles.flags.forcedMinimalInterfaceBootstrap then
      let s := s.mapBundles (WorldBundles.write c .resetClientVarcache)
      { s with
        deferredDefaultVarpsPending := s.deferredDefaultVarpsPending || c.bootstrap.sendDefaultVarps }
    else if !c.bootstrap.sendWorldInitState then s
    else
      let s := s.mapBundles (WorldBundles.write c .resetClientVarcache)
      { s with
        deferredDefaultVarpsPending :=
          s.deferredDefaultVarpsPending || s.shouldQueueDeferredDefaultVarps c false }
  s.completeStage .defaultState

def openInterfaces (s : WorldPlayer) : WorldPlayer :=
  if !c.bootstrap.openRootInterface then s
  else
    let s := s.mapBundles fun b => { b with client := b.client.openTop c }
    if s.bundles.flags.forcedMinimalInterfaceBootstrap then
      (s.mapBundles fun b =>
        (((b.openPrimaryChild c).send c .minimalVarcs).send c
          .candidateDefaultVarps).deferForcedFallbackInterfaceTail).queueMinimalWorldFollowupIfNeeded
        c true
    else if !c.bootstrap.openSupplementalChildInterfaces then
      (s.mapBundles fun b =>
        (b.openPrimaryChild c).send c .minimalVarcs).queueMinimalWorldFollowupIfNeeded c false
    else s.mapBundles (WorldBundles.openFullInterfaces c)

def runInterfaces (s : WorldPlayer) : WorldPlayer :=
  (s.openInterfaces c).completeStage .interfaces

/-- The continuation that waits for the map. -/
def continuation (s : WorldPlayer) : WorldPlayer :=
  ((s.runStats).runDefaultState c).runInterfaces c

/-- What follows the continuation: the first sync, or the wait for a ready signal. -/
def awaitWorldReady (forcedMapBuildFallback : Bool) (s : WorldPlayer) : WorldPlayer :=
  if !c.bootstrap.openRootInterface then
    sendInitialWorldSyncIfNeeded c false false
      { s with waits := { s.waits with awaitingWorldReadySignal := false } }
  else if s.waits.compatMapBuildReadyFallbackOpcode.isSome then
    sendInitialWorldSyncIfNeeded c false false
      { s with
        waits :=
          { s.waits with
            awaitingWorldReadySignal := false
            compatMapBuildReadyFallbackOpcode := none } }
  else if forcedMapBuildFallback then
    let waits :=
      { s.waits with
        awaitingWorldReadySignal := true
        compatMapBuildReadyFallbackOpcode := none }
    let waits :=
      if waits.pendingWorldReadySignal.isNone then
        waits.latchWorldReadySignal ⟨48, .syntheticForcedMapBuildFallback⟩
      else waits
    consumePendingWorldReadySignalIfNeeded c { s with waits }
  else
    consumePendingWorldReadySignalIfNeeded c
      { s with waits := { s.waits with awaitingWorldReadySignal := true } }

/-- The continuation is taken, and the forced fallback holds for as long as it runs. -/
def takeDeferredBootstrap (s : WorldPlayer) : WorldPlayer :=
  let forcedMapBuildFallback := s.waits.forcedMapBuildFallbackPending
  { s with
    waits :=
      { s.waits with
        deferredBootstrap := false
        mapBuildWaitTicks := 0
        forcedMapBuildFallbackPending := false
        forcedMapBuildFallbackActive :=
          s.waits.forcedMapBuildFallbackActive || forcedMapBuildFallback
        skipPostInitialSyncHoldForForcedFallback := forcedMapBuildFallback }
    bundles :=
      { s.bundles with
        flags.forcedFallbackLateReadyInterfaceReplayArmed := forcedMapBuildFallback
        flags.forcedMinimalInterfaceBootstrap := forcedMapBuildFallback } }

def resetWorldReadyWait (s : WorldPlayer) : WorldPlayer :=
  { s with waits := { s.waits with worldReadyWaitTicks := 0, playerInfoDelayTicks := 0 } }

def completeDeferredBootstrap (s : WorldPlayer) : WorldPlayer :=
  if !s.waits.deferredBootstrap then s
  else
    let continued := (s.takeDeferredBootstrap.continuation c).resetWorldReadyWait
    (continued.awaitWorldReady c s.waits.forcedMapBuildFallbackPending).mapBundles fun b =>
      { b with flags.forcedMinimalInterfaceBootstrap := s.bundles.flags.forcedMinimalInterfaceBootstrap }

/-- The map is taken as built. -/
def endMapBuildWait (s : WorldPlayer) : WorldPlayer :=
  completeDeferredBootstrap c
    { s with waits := { s.waits with awaitingMapBuildComplete := false } }

/-- What is sent before the continuation, and whether that waits for the map. -/
def addedBeforeContinuation : WorldPlayer :=
  let s : WorldPlayer := completeStage .appearance {}
  let s :=
    match c.entryMode with
    | .fullLogin => (s.completeStage .loginResponse).completeStage .pipelineSwitch
    | .postLobbyAuth => s
  let s :=
    if c.registered .rebuildNormal then
      let s := s.mapBundles (WorldBundles.write c .rebuildNormal)
      { s with waits := { s.waits with awaitingMapBuildComplete := c.mapBuildComplete } }
    else { s with waits := { s.waits with awaitingMapBuildComplete := true } }
  let s := s.completeStage .rebuild
  { s with waits := { s.waits with deferredBootstrap := true } }

/-- The player enters the world. -/
def added : WorldPlayer :=
  let s := addedBeforeContinuation c
  if s.waits.awaitingMapBuildComplete then s else s.completeDeferredBootstrap c

/-! ### The scene start -/

/-- The lowest value of the client's integers. -/
def effectiveSceneStartControl50 (s : WorldPlayer) : ℤ :=
  match s.lastClientBootstrapControl50 with
  | some value => value
  | none =>
    if s.waits.forcedMapBuildFallbackActive &&
        (0 < s.sceneStart.sceneStartSyncBurstTicks ||
          s.bundles.flags.deferredSceneStartEventDeltaPending) then 3
    else -2 ^ 31

def sceneStartPhaseOneReached (control50 : ℤ) (s : WorldPlayer) : Bool :=
  28 ≤ control50 || s.waits.forcedMapBuildFallbackActive && 3 ≤ control50

def sceneStartPhaseTwoReached (control50 : ℤ) (s : WorldPlayer) : Bool :=
  41 ≤ control50 || s.waits.forcedMapBuildFallbackActive && 4 ≤ control50

def sceneStartPhaseThreeReached (control50 : ℤ) (s : WorldPlayer) : Bool :=
  125 ≤ control50 || s.waits.forcedMapBuildFallbackActive && 4 ≤ control50

def implicitForcedFallbackSceneStartPhaseOneReached (control50 : ℤ) (s : WorldPlayer) : Bool :=
  s.waits.forcedMapBuildFallbackActive && s.lastClientBootstrapControl50.isNone &&
    s.sceneStart.lateSceneStartReadySignalsAccepted = 0 && !s.sceneStartPhaseOneReached control50

def sceneStartPhaseOneReleaseControl50 (control50 : ℤ) (s : WorldPlayer) : ℤ :=
  if s.implicitForcedFallbackSceneStartPhaseOneReached control50 then 3 else control50

def shouldDeferForcedFallbackPhaseOneEventDeltaUntilLateReady (control50 : ℤ) (s : WorldPlayer) :
    Bool :=
  s.waits.forcedMapBuildFallbackActive && s.sceneStart.lateSceneStartReadySignalsAccepted = 0 &&
    s.sceneStartPhaseOneReleaseControl50 control50 ≤ 3

/-- Nothing is sent when the wait has already begun. -/
def deferForcedFallbackPhaseOneEventDeltaUntilLateReady (s : WorldPlayer) : WorldPlayer :=
  if s.sceneStart.awaitingLateSceneStartReadySignal then s
  else
    let s :=
      { s with
        sceneStart :=
          { s.sceneStart with
            awaitingLateSceneStartReadySignal := true
            lateSceneStartReadySignalsAccepted := 0 }
        sync :=
          { s.sync with
            forcedLocalAppearanceRefreshFrames :=
              max s.sync.forcedLocalAppearanceRefreshFrames 1 } }
    (s.mapBundles (WorldBundles.write c .noTimeout)).sendWorldSyncFrame c

def releasesPhaseOne (control50 : ℤ) (s : WorldPlayer) : Bool :=
  s.bundles.flags.deferredSceneStartEventDeltaPending &&
    (s.sceneStartPhaseOneReached control50 ||
      s.implicitForcedFallbackSceneStartPhaseOneReached control50)

def releasePhaseOne (control50 : ℤ) (s : WorldPlayer) : WorldPlayer :=
  if s.shouldDeferForcedFallbackPhaseOneEventDeltaUntilLateReady control50 then
    s.deferForcedFallbackPhaseOneEventDeltaUntilLateReady c
  else s.mapBundles (WorldBundles.releaseSceneStartEventDelta c)

def acceptLateSceneStartReadySignal (s : WorldPlayer) : WorldPlayer :=
  let accepted := s.sceneStart.lateSceneStartReadySignalsAccepted + 1
  let s :=
    { s with
      sceneStart :=
        { s.sceneStart with
          lateSceneStartReadySignalsAccepted := accepted
          awaitingLateSceneStartReadySignal := accepted < 4 } }
  let finalLateReadyAcceptance := !s.sceneStart.awaitingLateSceneStartReadySignal
  let s := s.mapBundles (WorldBundles.releaseLateReady c finalLateReadyAcceptance accepted)
  s.armSceneStartSyncBurst.sendWorldSyncFrame c

/-! ### The default varps -/

/-- How many of them are queued. -/
def lateDefaultVarps (s : WorldPlayer) : ℕ :=
  match c.entryMode with
  | .fullLogin => c.lateDefaultVarps s.waits.forcedMapBuildFallbackActive
  | .postLobbyAuth => 0

def queueLateDefaultVarps (s : WorldPlayer) : WorldPlayer :=
  { s with
    deferredDefaultVarpsPending := false
    pendingDeferredBootstrapVarps := s.pendingDeferredBootstrapVarps + s.lateDefaultVarps c }

def primeLateDefaultVarps (s : WorldPlayer) : WorldPlayer :=
  if 0 < s.pendingDeferredBootstrapVarps then
    s.armSceneStartSyncBurst.mapBundles (WorldBundles.write c .noTimeout)
  else s

def sendDeferredDefaultVarpsIfNeeded (s : WorldPlayer) : WorldPlayer :=
  if !s.deferredDefaultVarpsPending || !s.sync.initialWorldSyncSent then s
  else
    (((s.queueLateDefaultVarps c).primeLateDefaultVarps c).sendWorldSyncFrame c).completeStage
      .lateDefaultVarps

/-! ### The tick -/

/-- The tail is sent after the first sync and its hold. -/
def sendsDeferredTail (s : WorldPlayer) : Bool :=
  s.bundles.flags.deferredLateWorldCompletionTailPending && s.sync.initialWorldSyncSent &&
    s.postInitialWorldSyncHold.ticks = 0

def sendDeferredLateWorldCompletionTailIfNeeded (s : WorldPlayer) : WorldPlayer :=
  if !s.sendsDeferredTail then s
  else
    let s := s.mapBundles fun b =>
      let b := b.closeForcedFallbackLoadingOverlayIfPending c
        s.sceneStart.lateSceneStartReadySignalsAccepted
      WorldBundles.sendDeferredLateWorldCompletionTail c
        { b with flags.deferredLateWorldCompletionTailPending := false }
    s.sendDeferredDefaultVarpsIfNeeded c

def tickMapBuildWait (s : WorldPlayer) : WorldPlayer :=
  if !s.waits.awaitingMapBuildComplete then s
  else
    let s := { s with waits := { s.waits with mapBuildWaitTicks := s.waits.mapBuildWaitTicks + 1 } }
    if s.waits.mapBuildWaitTicks = 20 && s.waits.deferredBootstrap then
      endMapBuildWait c { s with waits := { s.waits with forcedMapBuildFallbackPending := true } }
    else s

/-- The ready signal of the server's permissions is taken once the display is known. -/
def promoteServerpermReady (s : WorldPlayer) : WorldPlayer :=
  match s.waits.pendingServerpermDelayedReadySignal with
  | some signal =>
    if s.waits.pendingWorldReadySignal.isNone && !s.sync.initialWorldSyncSent &&
        !s.waits.skipPostInitialSyncHoldForForcedFallback && s.waits.lastClientDisplayState106 then
      latchWorldReadySignal signal
        { s with waits := { s.waits with pendingServerpermDelayedReadySignal := none } }
    else s
  | none => s

def hasRealReadySignal (s : WorldPlayer) : Bool :=
  s.waits.pendingWorldReadySignal.any fun signal =>
    signal.source ≠ .syntheticForcedMapBuildFallback

def primeWorldReadyWait (s : WorldPlayer) : WorldPlayer :=
  if !s.sync.initialWorldSyncSent && !s.waits.skipPostInitialSyncHoldForForcedFallback &&
      s.bundles.flags.deferredLateWorldCompletionTailPending && s.waits.lastClientDisplayState106 &&
      s.waits.worldReadyWaitTicks ≤ 2 && s.pendingDeferredBootstrapVarps = 0 then
    s.sendPreReadyWorldSyncPrimeFrame c
  else s

def fallBackFromWorldReadyWait (s : WorldPlayer) : WorldPlayer :=
  if s.waits.worldReadyWaitTicks = 8 then
    sendInitialWorldSyncIfNeeded c true false
      { s with
        waits :=
          { s.waits with
            awaitingWorldReadySignal := false
            compatMapBuildReadyFallbackOpcode := none
            playerInfoDelayTicks := 0 } }
  else s

def countWorldReadyWait (s : WorldPlayer) : WorldPlayer :=
  let counted :=
    { s with waits := { s.waits with worldReadyWaitTicks := s.waits.worldReadyWaitTicks + 1 } }
  counted.mapBundles (WorldBundles.write c .noTimeout)

/-- What a tick does while the ready signal is awaited, and whether it ends there. -/
def tickWorldReadyWait (s : WorldPlayer) : WorldPlayer × Bool :=
  if !s.waits.awaitingWorldReadySignal then (s, false)
  else
    let s := (s.countWorldReadyWait c).promoteServerpermReady
    if s.hasRealReadySignal then (s.consumePendingWorldReadySignalIfNeeded c, true)
    else ((s.primeWorldReadyWait c).fallBackFromWorldReadyWait c, false)

/-- With the forced fallback no frame is sent while the tail is pending. -/
def suppressForcedFallbackHoldSync (s : WorldPlayer) : Bool :=
  s.postInitialWorldSyncHold.forcedFallback && s.bundles.flags.deferredLateWorldCompletionTailPending

def writeInPostInitialSyncHold (s : WorldPlayer) : WorldPlayer :=
  let hold := s.postInitialWorldSyncHold
  let s := s.mapBundles (WorldBundles.primeForcedFallbackPreDeferredFamilies hold.forcedFallback)
  let s := if hold.sendFrames then s.mapBundles (WorldBundles.write c .noTimeout) else s
  if hold.sendFrames && !s.suppressForcedFallbackHoldSync &&
      s.pendingDeferredBootstrapVarps = 0 then s.sendWorldSyncFrame c
  else s

/-- One tick of the hold, without what follows when it ends. -/
def holdPostInitialSync (s : WorldPlayer) : WorldPlayer :=
  let hold := s.postInitialWorldSyncHold
  { s.writeInPostInitialSyncHold c with
    postInitialWorldSyncHold :=
      { hold with ticks := if s.suppressForcedFallbackHoldSync then 0 else hold.ticks - 1 } }

def clearPostInitialSyncHold (s : WorldPlayer) : WorldPlayer :=
  { s with
    postInitialWorldSyncHold := { ticks := 0, forcedFallback := false, sendFrames := false }
    bundles := s.bundles.closeForcedFallbackLoadingOverlayIfPending c
      s.sceneStart.lateSceneStartReadySignalsAccepted }

/-- The phases of the scene start that the client reached, one a tick, else a frame. It says whether
the tick ends there. -/
def tickSceneStartPhases (s : WorldPlayer) : WorldPlayer × Bool :=
  let control50 := s.effectiveSceneStartControl50
  if 0 < s.pendingDeferredBootstrapVarps then (s.sendWorldSyncFrame c, false)
  else if 0 < s.sceneStart.sceneStartSyncBurstTicks then
    let s := sendWorldSyncFrame c
      { s with
        sceneStart :=
          { s.sceneStart with
            sceneStartSyncBurstTicks := s.sceneStart.sceneStartSyncBurstTicks - 1 } }
    if s.sceneStart.sceneStartSyncBurstTicks = 0 && s.releasesPhaseOne control50 then
      (s.releasePhaseOne c control50, true)
    else (s, true)
  else if s.releasesPhaseOne control50 then (s.releasePhaseOne c control50, true)
  else if s.bundles.flags.deferredSceneStartTabbedEventDeltaPending &&
      s.sceneStartPhaseTwoReached control50 then
    (s.mapBundles fun b => WorldBundles.send c .sceneStartTabbedEventDelta
      { b with flags.deferredSceneStartTabbedEventDeltaPending := false }, true)
  else if s.bundles.flags.deferredSceneStartLightTailScriptsPending &&
      s.sceneStartPhaseThreeReached control50 then
    (s.mapBundles fun b => WorldBundles.send c .sceneStartLightTailScripts
      { b with flags.deferredSceneStartLightTailScriptsPending := false }, true)
  else if s.bundles.flags.deferredSceneStartFinalEventDeltaPending &&
      !s.sceneStart.awaitingLateSceneStartReadySignal &&
      s.sceneStartPhaseThreeReached control50 then
    ({ s with
        sceneStart :=
          { s.sceneStart with
            awaitingLateSceneStartReadySignal := true
            lateSceneStartReadySignalsAccepted := 0 } }, true)
  else (s.sendWorldSyncFrame c, false)

def tickSceneStart (s : WorldPlayer) : WorldPlayer × Bool :=
  (s.sendDeferredDefaultVarpsIfNeeded c).tickSceneStartPhases c

/-- What a tick does after the first sync, and whether it ends there. -/
def tickSynced (s : WorldPlayer) : WorldPlayer × Bool :=
  if s.sendsDeferredTail then (s.sendDeferredLateWorldCompletionTailIfNeeded c, true)
  else if 0 < s.postInitialWorldSyncHold.ticks then
    let s := s.holdPostInitialSync c
    if s.postInitialWorldSyncHold.ticks = 0 then
      let s := s.clearPostInitialSyncHold c
      if s.sendsDeferredTail then (s.sendDeferredLateWorldCompletionTailIfNeeded c, true)
      else s.tickSceneStart c
    else (s, true)
  else s.tickSceneStart c

/-- What a tick does when nothing is awaited. -/
def tickReady (s : WorldPlayer) : WorldPlayer × Bool :=
  if s.waits.awaitingMapBuildComplete || s.waits.awaitingWorldReadySignal then (s, false)
  else if 0 < s.waits.playerInfoDelayTicks then
    ({ s with
        waits := { s.waits with playerInfoDelayTicks := s.waits.playerInfoDelayTicks - 1 } }, false)
  else if !s.sync.initialWorldSyncSent then (s.sendInitialWorldSyncIfNeeded c false false, false)
  else s.tickSynced c

def endTick (s : WorldPlayer) : WorldPlayer :=
  if s.sync.initialWorldSyncSent && s.postInitialWorldSyncHold.ticks = 0 &&
      !s.waits.awaitingMapBuildComplete && !s.waits.awaitingWorldReadySignal &&
      c.bootstrap.sendServerTickEnd then s.mapBundles (WorldBundles.write c .serverTickEnd)
  else s

/-- A tick without the wait for the map. -/
def tickRest (s : WorldPlayer) : WorldPlayer :=
  let waited := s.tickWorldReadyWait c
  if waited.2 then waited.1
  else
    let ticked := waited.1.tickReady c
    if ticked.2 then ticked.1 else ticked.1.endTick c

def tick (s : WorldPlayer) : WorldPlayer := (s.tickMapBuildWait c).tickRest c

/-! ### The client's packets -/

def handleMapBuildComplete (s : WorldPlayer) : WorldPlayer := s.endMapBuildWait c

/-- A compatible opcode that ends the wait for the map ends the wait for the ready signal too. -/
def handleCompatMapBuild (opcode : ℤ) (s : WorldPlayer) : WorldPlayer :=
  endMapBuildWait c
    { s with waits := { s.waits with compatMapBuildReadyFallbackOpcode := some opcode } }

def handleClientBootstrapControl50 (value : ℤ) (s : WorldPlayer) : WorldPlayer :=
  let s := { s with lastClientBootstrapControl50 := some value }
  if s.waits.awaitingMapBuildComplete then s.handleCompatMapBuild c 50
  else if s.waits.awaitingWorldReadySignal then s.acceptWorldReadySignal c
  else if !s.sync.initialWorldSyncSent then s.latchWorldReadySignal ⟨50, .decodedEarly⟩
  else if s.sceneStartPhaseOneReached value then s.armSceneStartSyncBurst
  else s

def handleClientDisplayState106 (s : WorldPlayer) : WorldPlayer :=
  let s := { s with waits := { s.waits with lastClientDisplayState106 := true } }
  let s :=
    if s.waits.awaitingMapBuildComplete && s.waits.pendingServerpermMapBuildCompat then
      endMapBuildWait c
        { s with
          waits :=
            { s.waits with
              pendingServerpermMapBuildCompat := false
              forcedMapBuildFallbackPending := true } }
    else s
  if s.sceneStart.awaitingLateSceneStartReadySignal then s.acceptLateSceneStartReadySignal c else s

def acknowledgeServerpermVarcs (s : WorldPlayer) : WorldPlayer :=
  if 0 ≤ c.bootstrap.compatServerpermAckOpcode then
    s.mapBundles (WorldBundles.writeRaw (.unidentified c.bootstrap.compatServerpermAckOpcode))
  else s

def deferServerpermReady (s : WorldPlayer) : WorldPlayer :=
  if s.waits.awaitingWorldReadySignal && !s.sync.initialWorldSyncSent &&
      s.waits.lastClientDisplayState106 &&
      !s.waits.skipPostInitialSyncHoldForForcedFallback then
    let source : WorldReadySource :=
      if s.bundles.flags.deferredLateWorldCompletionTailPending then .serverpermAfterDisplayDelayed
      else .serverpermAfterDisplay
    { s with waits := { s.waits with pendingServerpermDelayedReadySignal := some ⟨48, source⟩ } }
  else s

def handleServerpermVarcs (s : WorldPlayer) : WorldPlayer :=
  let s := (s.acknowledgeServerpermVarcs c).deferServerpermReady
  if s.waits.awaitingMapBuildComplete then
    if s.waits.lastClientDisplayState106 then
      endMapBuildWait c { s with waits := { s.waits with forcedMapBuildFallbackPending := true } }
    else { s with waits := { s.waits with pendingServerpermMapBuildCompat := true } }
  else s

def handleNoTimeout (s : WorldPlayer) : WorldPlayer :=
  let s' := { s with noTimeouts := s.noTimeouts + 1 }
  if s.noTimeouts % 5 = 0 then s'.mapBundles (WorldBundles.write c .noTimeout) else s'

def handleUnidentifiedPacket (opcode : ℤ) (payloadLength : ℕ) (s : WorldPlayer) : WorldPlayer :=
  if opcode = 0 then s.handleServerpermVarcs c
  else if opcode = 80 ∧ payloadLength = 0 then s.handleNoTimeout c
  else if opcode = 110 ∧ payloadLength = 4 then
    if 0 ≤ c.bootstrap.compatWorldlistFetchReplyOpcode then
      s.mapBundles (WorldBundles.writeRaw
        (.worldListReply c.bootstrap.compatWorldlistFetchReplyOpcode))
    else s
  else if s.waits.awaitingMapBuildComplete ∧ opcode ∈ mapBuildCompatOpcodes then
    s.handleCompatMapBuild c opcode
  else if s.waits.awaitingWorldReadySignal ∧ opcode ∈ worldReadyCompatOpcodes then
    s.acceptWorldReadySignal c
  else if !s.sync.initialWorldSyncSent ∧ opcode ∈ worldReadyCompatOpcodes then
    s.latchWorldReadySignal ⟨opcode, .liveEarly⟩
  else if s.sceneStart.awaitingLateSceneStartReadySignal ∧
      opcode ∈ lateSceneStartReadyCompatOpcodes then
    s.acceptLateSceneStartReadySignal c
  else s

/-! ### Runs -/

/-- Varps that others write after the late stage are queued as well. -/
def queueVarps (count : ℕ) (s : WorldPlayer) : WorldPlayer :=
  { s with pendingDeferredBootstrapVarps := s.pendingDeferredBootstrapVarps + count }

/-- A batch of the queued varps is written. -/
def flush (s : WorldPlayer) : WorldPlayer :=
  if s.pendingDeferredBootstrapVarps = 0 then s
  else
    let s :=
      { s with pendingDeferredBootstrapVarps := s.pendingDeferredBootstrapVarps - 8 }
    if 0 < s.pendingDeferredBootstrapVarps then s.mapBundles (WorldBundles.write c .noTimeout)
    else s

end WorldPlayer

/-- What happens to a player in the world. -/
inductive WorldEvent
  | clientBootstrapBlob28
  | clientBootstrapControl50 (value : ℤ)
  | clientBootstrapControl82
  | clientDisplayState106
  | mapBuildComplete
  | noTimeout
  | unidentified (opcode : ℤ) (payloadLength : ℕ)
  | tick
  | queueVarps (count : ℕ)
  | flush

namespace WorldPlayer

/-- The two packets without an effect here are only recorded. -/
def handle (c : WorldConfig) : WorldEvent → WorldPlayer → WorldPlayer
  | .clientBootstrapBlob28, s => s
  | .clientBootstrapControl50 value, s => s.handleClientBootstrapControl50 c value
  | .clientBootstrapControl82, s => s
  | .clientDisplayState106, s => s.handleClientDisplayState106 c
  | .mapBuildComplete, s => s.handleMapBuildComplete c
  | .noTimeout, s => s.handleNoTimeout c
  | .unidentified opcode payloadLength, s => s.handleUnidentifiedPacket c opcode payloadLength
  | .tick, s => s.tick c
  | .queueVarps count, s => s.queueVarps count
  | .flush, s => s.flush c

/-- What the player became after these events. -/
def run (c : WorldConfig) (events : List WorldEvent) : WorldPlayer :=
  events.foldl (fun s event => s.handle c event) (added c)

end WorldPlayer
end OpenNXT.Model
