import OpenNXT.Model.WorldPlayer.WorldClient

/-! The packets of the world bootstrap that are held back, and what releases them. -/
namespace OpenNXT.Model

/-- What is held back, what waits to be sent and what was sent. -/
structure WorldFlags where
  forcedMinimalInterfaceBootstrap : Bool := false
  deferredLateWorldCompletionTailPending : Bool := false
  deferredForcedFallbackSupplementalChildrenPending : Bool := false
  deferredForcedFallbackLightInterfaceTailPending : Bool := false
  deferredForcedFallbackCompletionCompanionsPending : Bool := false
  deferredForcedFallbackCompletionStructurePending : Bool := false
  deferredForcedFallbackRestoredWorldPanelsPending : Bool := false
  deferredForcedFallbackUtilityPanelDeckPending : Bool := false
  deferredForcedFallbackSceneBridgePending : Bool := false
  forcedFallbackPreDeferredFamiliesPrimed : Bool := false
  deferredForcedFallbackCompletionStructureSent : Bool := false
  deferredForcedFallbackDeferredScriptsSent : Bool := false
  deferredForcedFallbackCoreScriptsPending : Bool := false
  deferredForcedFallbackLiteTailPending : Bool := false
  pendingForcedFallbackLoadingOverlayClose : Bool := false
  forcedFallbackRestoredWorldPanelsSent : Bool := false
  forcedFallbackUtilityPanelDeckSent : Bool := false
  forcedFallbackSceneBridgeSent : Bool := false
  deferredSceneStartEventDeltaPending : Bool := false
  deferredSceneStartTabbedEventDeltaPending : Bool := false
  deferredSceneStartLightTailScriptsPending : Bool := false
  deferredSceneStartFinalEventDeltaPending : Bool := false
  deferredLateRootInterfaceEventsPending : Bool := false
  deferredAnnouncementScriptsPending : Bool := false
  deferredForcedFallback10623BatchPending : Bool := false
  forcedFallbackLateReadyInterfaceReplaySent : Bool := false
  forcedFallbackLateReadyInterfaceReplayArmed : Bool := false
  deferredForcedFallbackSelfModelBindPending : Bool := false

structure WorldBundles where
  client : WorldClient := {}
  flags : WorldFlags := {}

namespace WorldBundles
variable (c : WorldConfig)

def writeRaw (w : WorldWrite) (s : WorldBundles) : WorldBundles :=
  { s with client := s.client.writeRaw w }

def write (packet : WorldPacket) (s : WorldBundles) : WorldBundles :=
  { s with client := s.client.write c packet }

def send (b : WorldBundle) (s : WorldBundles) : WorldBundles :=
  { s with client := s.client.send c b }

/-! ### The loading overlay -/

def closeLoadingOverlay (s : WorldBundles) : WorldBundles :=
  { s with client := s.client.close c 508 }

def closeForcedFallbackLoadingOverlayIfPending (lateSceneStartReadySignalsAccepted : ℕ)
    (s : WorldBundles) : WorldBundles :=
  if !s.flags.pendingForcedFallbackLoadingOverlayClose then s
  else if lateSceneStartReadySignalsAccepted = 0 && s.flags.deferredLateWorldCompletionTailPending then s
  else if !s.client.isOpened 1417 then
    { s with
      flags.pendingForcedFallbackLoadingOverlayClose := false
      client := s.client.closeSub c 508 }
  else closeLoadingOverlay c { s with flags.pendingForcedFallbackLoadingOverlayClose := false }

/-! ### The bootstrap -/

def sendConfiguredWorldInterfaceBindings (s : WorldBundles) : WorldBundles :=
  let selfModelComponent := c.bootstrap.worldInterfaceSelfModelComponent
  let activePlayerEnabled :=
    c.bootstrap.sendExperimentalActivePlayerOpensub && !s.flags.forcedMinimalInterfaceBootstrap
  let bound :=
    if 0 ≤ selfModelComponent then
      let opened := if activePlayerEnabled then s.write c .ifOpensubActivePlayer else s
      if s.flags.forcedMinimalInterfaceBootstrap then
        { opened with flags.deferredForcedFallbackSelfModelBindPending := true }
      else opened.write c .ifSetplayermodelSelf
    else s
  if 0 ≤ c.bootstrap.worldInterfaceSelfHeadComponent then bound.write c .ifSetplayerhead else bound

def queueDeferredWorldCompletionTailIfNeeded (s : WorldBundles) : WorldBundles :=
  { s with flags.deferredLateWorldCompletionTailPending := true }

def deferForcedFallbackInterfaceTail (s : WorldBundles) : WorldBundles :=
  { s with
    flags.deferredForcedFallbackSupplementalChildrenPending := true
    flags.deferredForcedFallbackLightInterfaceTailPending := true
    flags.deferredForcedFallbackCompletionCompanionsPending := true }

/-- The first child of the root with its bindings. -/
def openPrimaryChild (s : WorldBundles) : WorldBundles :=
  (s.send c .primaryChild).sendConfiguredWorldInterfaceBindings c

/-- All children of the root, and the tail that waits for the first sync. The tail that is sent
here without a wait needs the root to be closed and is never reached. -/
def openFullInterfaces (s : WorldBundles) : WorldBundles :=
  (((s.openPrimaryChild c).send c .fullInterfaces).queueDeferredWorldCompletionTailIfNeeded).send c
    .lightTail

def primeForcedFallbackPreDeferredFamilies (holdForcedFallback : Bool) (s : WorldBundles) :
    WorldBundles :=
  if !holdForcedFallback || !s.flags.deferredLateWorldCompletionTailPending then s
  else if s.flags.forcedFallbackPreDeferredFamiliesPrimed then s
  else if !s.client.rootOpen then s
  else
    { s with
      flags.forcedFallbackPreDeferredFamiliesPrimed := true
      flags.deferredForcedFallbackRestoredWorldPanelsPending := true
      flags.deferredForcedFallbackUtilityPanelDeckPending := true
      flags.deferredForcedFallbackSceneBridgePending := true
      flags.deferredForcedFallbackCompletionStructurePending :=
        s.flags.deferredForcedFallbackCompletionStructurePending ||
          (s.flags.deferredForcedFallbackCompletionCompanionsPending ||
            !s.flags.deferredForcedFallbackCompletionStructureSent) }

/-! ### Interfaces that are opened once -/

def openForcedFallbackRestoredWorldPanels (s : WorldBundles) : WorldBundles :=
  if s.flags.forcedFallbackRestoredWorldPanelsSent then s
  else send c .restoredWorldPanels { s with flags.forcedFallbackRestoredWorldPanelsSent := true }

def openForcedFallbackUtilityPanelDeck (s : WorldBundles) : WorldBundles :=
  if s.flags.forcedFallbackUtilityPanelDeckSent then s
  else send c .utilityPanelDeck { s with flags.forcedFallbackUtilityPanelDeckSent := true }

def openForcedFallbackSceneStartBridge (s : WorldBundles) : WorldBundles :=
  if s.flags.forcedFallbackSceneBridgeSent then s
  else send c .sceneBridge { s with flags.forcedFallbackSceneBridgeSent := true }

def sendDeferredForcedFallbackCompletionCompanionsIfPending (s : WorldBundles) : WorldBundles :=
  if !s.flags.deferredForcedFallbackCompletionCompanionsPending then s
  else
    send c .completionCompanions
      { s with flags.deferredForcedFallbackCompletionCompanionsPending := false }

def sendDeferredForcedFallbackCompletionStructureIfNeeded (s : WorldBundles) : WorldBundles :=
  if s.flags.deferredForcedFallbackCompletionStructureSent then s
  else
    (send c .completionStructure { s with flags.deferredForcedFallbackCompletionStructureSent := true
      }).sendDeferredForcedFallbackCompletionCompanionsIfPending c

/-! ### The deferred tail -/

def sendDeferredCompletionLiteScripts (includeTail : Bool) (s : WorldBundles) : WorldBundles :=
  let core := s.send c .coreScripts
  if includeTail then core.send c .liteTail else core

def sendForcedFallbackDeferredCompletionScriptsIfNeeded (s : WorldBundles) : WorldBundles :=
  if s.flags.deferredForcedFallbackDeferredScriptsSent then s
  else if c.bootstrap.sendDeferredCompletionScripts then
    { s with
      flags.deferredForcedFallbackDeferredScriptsSent := true
      flags.deferredForcedFallbackCoreScriptsPending := true
      flags.deferredForcedFallbackLiteTailPending := true
      flags.deferredForcedFallback10623BatchPending := true }
  else if c.bootstrap.sendDeferredCompletionLiteScripts then
    { s with
      flags.deferredForcedFallbackDeferredScriptsSent := true
      flags.deferredForcedFallbackCoreScriptsPending := true
      flags.deferredForcedFallbackLiteTailPending := true }
  else { s with flags.deferredForcedFallbackDeferredScriptsSent := true }

def sendLateRootInterfaceEventsIfConfigured (s : WorldBundles) : WorldBundles :=
  if c.bootstrap.sendLateRootInterfaceEvents then s.send c .lateRootInterfaceEvents else s

def sendDeferredCompletionAnnouncementScripts (s : WorldBundles) : WorldBundles :=
  if c.bootstrap.sendInterfaceBootstrapAnnouncementScripts then s.send c .announcementScripts else s

/-- The interfaces of the tail, each unless it waits for the last late ready signal. -/
def sendTailInterfaces (s : WorldBundles) : WorldBundles :=
  let s :=
    if s.flags.deferredForcedFallbackRestoredWorldPanelsPending then s
    else s.openForcedFallbackRestoredWorldPanels c
  let s :=
    if s.flags.deferredForcedFallbackUtilityPanelDeckPending then s
    else s.openForcedFallbackUtilityPanelDeck c
  let s :=
    if s.flags.deferredForcedFallbackSceneBridgePending then s
    else s.openForcedFallbackSceneStartBridge c
  if s.flags.deferredForcedFallbackCompletionStructurePending then s
  else s.sendDeferredForcedFallbackCompletionStructureIfNeeded c

def sendTailScripts (forcedFallbackDeferredTail : Bool) (s : WorldBundles) : WorldBundles :=
  if forcedFallbackDeferredTail then s.sendForcedFallbackDeferredCompletionScriptsIfNeeded c
  else if c.bootstrap.sendDeferredCompletionScripts then
    (s.sendDeferredCompletionLiteScripts c true).send c .scripts10623
  else if c.bootstrap.sendDeferredCompletionLiteScripts then
    s.sendDeferredCompletionLiteScripts c true
  else if c.bootstrap.sendDeferredCompletion10623Batch then s.send c .scripts10623
  else if c.bootstrap.sendDeferredCompletionCoreScripts then s.send c .bootstrapCoreScripts
  else s

def sendTailRootInterfaceEvents (forcedFallbackDeferredTail : Bool) (s : WorldBundles) :
    WorldBundles :=
  if forcedFallbackDeferredTail && c.bootstrap.sendLateRootInterfaceEvents then
    { s with flags.deferredLateRootInterfaceEventsPending := true }
  else s.sendLateRootInterfaceEventsIfConfigured c

def sendTailAnnouncementScripts (forcedFallbackDeferredTail : Bool) (s : WorldBundles) :
    WorldBundles :=
  if forcedFallbackDeferredTail && c.bootstrap.sendInterfaceBootstrapAnnouncementScripts then
    { s with flags.deferredAnnouncementScriptsPending := true }
  else s.sendDeferredCompletionAnnouncementScripts c

def sendTailEventDelta (forcedFallbackDeferredTail : Bool) (s : WorldBundles) : WorldBundles :=
  if !c.bootstrap.sendSocialInitPackets then s
  else if forcedFallbackDeferredTail then
    { s with
      flags.deferredSceneStartEventDeltaPending := true
      flags.deferredSceneStartLightTailScriptsPending := true
      flags.deferredSceneStartFinalEventDeltaPending := true }
  else s.send c .completionEventDelta

def forcedFallbackDeferredTail (s : WorldBundles) : Bool :=
  s.flags.deferredForcedFallbackSupplementalChildrenPending ||
    s.flags.deferredForcedFallbackLightInterfaceTailPending

/-- With the forced fallback most of the tail waits once more. -/
def sendDeferredLateWorldCompletionTail (s : WorldBundles) : WorldBundles :=
  let forced := s.forcedFallbackDeferredTail
  ((((s.sendTailInterfaces c).sendTailScripts c forced).sendTailRootInterfaceEvents c
    forced).sendTailAnnouncementScripts c forced).sendTailEventDelta c forced

/-! ### The late ready signals -/

def sendForcedFallbackSelfModelBind (s : WorldBundles) : WorldBundles :=
  if s.flags.deferredForcedFallbackSelfModelBindPending then
    let s := { s with flags.deferredForcedFallbackSelfModelBindPending := false }
    if 0 ≤ c.bootstrap.worldInterfaceSelfModelComponent then s.write c .ifSetplayermodelSelf else s
  else s

def replaySupplementalChildren (s : WorldBundles) : WorldBundles :=
  if s.flags.deferredForcedFallbackSupplementalChildrenPending then
    send c .supplementalChildren { s with flags.deferredForcedFallbackSupplementalChildrenPending := false }
  else s

def replayCompletionStructure (s : WorldBundles) : WorldBundles :=
  if s.flags.deferredForcedFallbackCompletionStructurePending then
    sendDeferredForcedFallbackCompletionStructureIfNeeded c
      { s with
        flags.deferredForcedFallbackCompletionCompanionsPending := true
        flags.deferredForcedFallbackCompletionStructurePending := false }
  else s

def replayLightInterfaceTail (s : WorldBundles) : WorldBundles :=
  if s.flags.deferredForcedFallbackLightInterfaceTailPending then
    send c .lightTail { s with flags.deferredForcedFallbackLightInterfaceTailPending := false }
  else s

/-- The companions once more, if the structure was not sent with them. -/
def replayCompletionCompanions (s : WorldBundles) : WorldBundles :=
  if s.flags.deferredForcedFallbackCompletionStructurePending ||
      s.flags.deferredForcedFallbackCompletionCompanionsPending ||
        !s.flags.deferredForcedFallbackCompletionStructureSent then
    s.send c .completionCompanions
  else s

def sendForcedFallbackLateReadyInterfaceReplayIfNeeded (s : WorldBundles) : WorldBundles :=
  if !(s.flags.forcedMinimalInterfaceBootstrap || s.flags.forcedFallbackLateReadyInterfaceReplayArmed) ||
      s.flags.forcedFallbackLateReadyInterfaceReplaySent then s
  else
    let s :=
      { s with
        flags.forcedFallbackLateReadyInterfaceReplaySent := true
        flags.forcedFallbackLateReadyInterfaceReplayArmed := false }
    let s := (s.sendForcedFallbackSelfModelBind c).replaySupplementalChildren c
    let s := (s.replayCompletionStructure c).replayLightInterfaceTail c
    ((s.send c .supplementalEvents).send c .lightTailEvents).send c .structureEvents
      |>.replayCompletionCompanions c

/-- The first delta waits for the second when it is released. -/
def releaseSceneStartEventDelta (s : WorldBundles) : WorldBundles :=
  send c .sceneStartEventDelta
    { s with
      flags.deferredSceneStartEventDeltaPending := false
      flags.deferredSceneStartTabbedEventDeltaPending := true }

/-- What any late ready signal releases. -/
def releaseEventDeltas (s : WorldBundles) : WorldBundles :=
  let s := if s.flags.deferredSceneStartEventDeltaPending then s.releaseSceneStartEventDelta c else s
  if s.flags.deferredSceneStartFinalEventDeltaPending then
    send c .sceneStartFinalEventDelta { s with flags.deferredSceneStartFinalEventDeltaPending := false }
  else s

/-- What the last late ready signal releases before the replay. -/
def releaseFinalInterfaces (s : WorldBundles) : WorldBundles :=
  let s :=
    if s.flags.deferredLateRootInterfaceEventsPending then
      sendLateRootInterfaceEventsIfConfigured c
        { s with flags.deferredLateRootInterfaceEventsPending := false }
    else s
  let s :=
    if s.flags.deferredForcedFallbackSceneBridgePending then
      openForcedFallbackSceneStartBridge c
        { s with flags.deferredForcedFallbackSceneBridgePending := false }
    else s
  let s :=
    if s.flags.deferredForcedFallbackRestoredWorldPanelsPending then
      openForcedFallbackRestoredWorldPanels c
        { s with flags.deferredForcedFallbackRestoredWorldPanelsPending := false }
    else s
  if s.flags.deferredForcedFallbackUtilityPanelDeckPending then
    openForcedFallbackUtilityPanelDeck c
      { s with flags.deferredForcedFallbackUtilityPanelDeckPending := false }
  else s

/-- What it releases after the replay. -/
def releaseFinalScripts (s : WorldBundles) : WorldBundles :=
  let s :=
    if s.flags.deferredAnnouncementScriptsPending then
      sendDeferredCompletionAnnouncementScripts c
        { s with flags.deferredAnnouncementScriptsPending := false }
    else s
  let s :=
    if s.flags.deferredForcedFallbackCoreScriptsPending then
      sendDeferredCompletionLiteScripts c false
        { s with flags.deferredForcedFallbackCoreScriptsPending := false }
    else s
  let s :=
    if s.flags.deferredForcedFallback10623BatchPending then
      send c .scripts10623 { s with flags.deferredForcedFallback10623BatchPending := false }
    else s
  if s.flags.deferredForcedFallbackLiteTailPending then
    send c .liteTail { s with flags.deferredForcedFallbackLiteTailPending := false }
  else s

/-- What a late ready signal releases, the signals accepted so far counted with it. -/
def releaseLateReady (finalLateReadyAcceptance : Bool) (accepted : ℕ) (s : WorldBundles) :
    WorldBundles :=
  let s := (s.closeForcedFallbackLoadingOverlayIfPending c accepted).releaseEventDeltas c
  let s := if finalLateReadyAcceptance then s.releaseFinalInterfaces c else s
  let s := s.sendForcedFallbackLateReadyInterfaceReplayIfNeeded c
  if finalLateReadyAcceptance then s.releaseFinalScripts c else s

end WorldBundles
end OpenNXT.Model
