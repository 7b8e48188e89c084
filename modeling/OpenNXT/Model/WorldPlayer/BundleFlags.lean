import OpenNXT.Model.WorldPlayer.WorldBundles

/-! What each release of held back packets does to the flags. -/
namespace OpenNXT.Model
namespace WorldBundles
variable (c : WorldConfig) (s : WorldBundles)

@[simp] theorem writeRaw_flags (w : WorldWrite) : (s.writeRaw w).flags = s.flags := rfl

@[simp] theorem write_flags (packet : WorldPacket) : (s.write c packet).flags = s.flags := rfl

@[simp] theorem send_flags (b : WorldBundle) : (s.send c b).flags = s.flags := rfl

@[simp] theorem closeLoadingOverlay_flags : (s.closeLoadingOverlay c).flags = s.flags := rfl

/-- The overlay is closed once, when a late ready signal came or the tail is not pending. -/
theorem closeForcedFallbackLoadingOverlayIfPending_flags (accepted : ℕ) :
    (s.closeForcedFallbackLoadingOverlayIfPending c accepted).flags =
      { s.flags with
        pendingForcedFallbackLoadingOverlayClose :=
          s.flags.pendingForcedFallbackLoadingOverlayClose &&
            (accepted = 0 && s.flags.deferredLateWorldCompletionTailPending) } := by
  obtain ⟨client, flags⟩ := s
  cases flags
  unfold closeForcedFallbackLoadingOverlayIfPending
  dsimp only
  split_ifs <;> simp_all

@[simp] theorem sendConfiguredWorldInterfaceBindings_flags :
    (s.sendConfiguredWorldInterfaceBindings c).flags =
      { s.flags with
        deferredForcedFallbackSelfModelBindPending :=
          s.flags.deferredForcedFallbackSelfModelBindPending ||
            (s.flags.forcedMinimalInterfaceBootstrap &&
              0 ≤ c.bootstrap.worldInterfaceSelfModelComponent) } := by
  obtain ⟨client, flags⟩ := s
  cases flags
  unfold sendConfiguredWorldInterfaceBindings
  dsimp only
  split_ifs <;> simp_all

@[simp] theorem openForcedFallbackRestoredWorldPanels_flags :
    (s.openForcedFallbackRestoredWorldPanels c).flags =
      { s.flags with forcedFallbackRestoredWorldPanelsSent := true } := by
  obtain ⟨client, flags⟩ := s
  cases flags
  unfold openForcedFallbackRestoredWorldPanels
  split_ifs <;> simp_all

@[simp] theorem openForcedFallbackUtilityPanelDeck_flags :
    (s.openForcedFallbackUtilityPanelDeck c).flags =
      { s.flags with forcedFallbackUtilityPanelDeckSent := true } := by
  obtain ⟨client, flags⟩ := s
  cases flags
  unfold openForcedFallbackUtilityPanelDeck
  split_ifs <;> simp_all

@[simp] theorem openForcedFallbackSceneStartBridge_flags :
    (s.openForcedFallbackSceneStartBridge c).flags =
      { s.flags with forcedFallbackSceneBridgeSent := true } := by
  obtain ⟨client, flags⟩ := s
  cases flags
  unfold openForcedFallbackSceneStartBridge
  split_ifs <;> simp_all

@[simp] theorem sendDeferredForcedFallbackCompletionCompanionsIfPending_flags :
    (s.sendDeferredForcedFallbackCompletionCompanionsIfPending c).flags =
      { s.flags with deferredForcedFallbackCompletionCompanionsPending := false } := by
  obtain ⟨client, flags⟩ := s
  cases flags
  unfold sendDeferredForcedFallbackCompletionCompanionsIfPending
  split_ifs <;> simp_all

@[simp] theorem sendDeferredForcedFallbackCompletionStructureIfNeeded_flags :
    (s.sendDeferredForcedFallbackCompletionStructureIfNeeded c).flags =
      { s.flags with
        deferredForcedFallbackCompletionStructureSent := true
        deferredForcedFallbackCompletionCompanionsPending :=
          s.flags.deferredForcedFallbackCompletionStructureSent &&
            s.flags.deferredForcedFallbackCompletionCompanionsPending } := by
  obtain ⟨client, flags⟩ := s
  cases flags
  unfold sendDeferredForcedFallbackCompletionStructureIfNeeded
  split_ifs <;> simp_all

@[simp] theorem sendDeferredCompletionLiteScripts_flags (includeTail : Bool) :
    (s.sendDeferredCompletionLiteScripts c includeTail).flags = s.flags := by
  unfold sendDeferredCompletionLiteScripts
  dsimp only
  split_ifs <;> rfl

@[simp] theorem sendLateRootInterfaceEventsIfConfigured_flags :
    (s.sendLateRootInterfaceEventsIfConfigured c).flags = s.flags := by
  unfold sendLateRootInterfaceEventsIfConfigured
  split_ifs <;> rfl

@[simp] theorem sendDeferredCompletionAnnouncementScripts_flags :
    (s.sendDeferredCompletionAnnouncementScripts c).flags = s.flags := by
  unfold sendDeferredCompletionAnnouncementScripts
  split_ifs <;> rfl

/-! ### The deferred tail -/

@[simp] theorem sendTailInterfaces_flags :
    (s.sendTailInterfaces c).flags =
      { s.flags with
        forcedFallbackRestoredWorldPanelsSent :=
          s.flags.forcedFallbackRestoredWorldPanelsSent ||
            !s.flags.deferredForcedFallbackRestoredWorldPanelsPending
        forcedFallbackUtilityPanelDeckSent :=
          s.flags.forcedFallbackUtilityPanelDeckSent ||
            !s.flags.deferredForcedFallbackUtilityPanelDeckPending
        forcedFallbackSceneBridgeSent :=
          s.flags.forcedFallbackSceneBridgeSent ||
            !s.flags.deferredForcedFallbackSceneBridgePending
        deferredForcedFallbackCompletionStructureSent :=
          s.flags.deferredForcedFallbackCompletionStructureSent ||
            !s.flags.deferredForcedFallbackCompletionStructurePending
        deferredForcedFallbackCompletionCompanionsPending :=
          (s.flags.deferredForcedFallbackCompletionStructurePending ||
              s.flags.deferredForcedFallbackCompletionStructureSent) &&
            s.flags.deferredForcedFallbackCompletionCompanionsPending } := by
  obtain ⟨client, flags⟩ := s
  cases flags
  unfold sendTailInterfaces
  dsimp only
  split_ifs <;> simp_all

/-- With the forced fallback the scripts are held back once more, at most once. -/
@[simp] theorem sendTailScripts_flags (forced : Bool) :
    (s.sendTailScripts c forced).flags =
      { s.flags with
        deferredForcedFallbackDeferredScriptsSent :=
          s.flags.deferredForcedFallbackDeferredScriptsSent || forced
        deferredForcedFallbackCoreScriptsPending :=
          s.flags.deferredForcedFallbackCoreScriptsPending ||
            (forced && !s.flags.deferredForcedFallbackDeferredScriptsSent &&
              (c.bootstrap.sendDeferredCompletionScripts ||
                c.bootstrap.sendDeferredCompletionLiteScripts))
        deferredForcedFallbackLiteTailPending :=
          s.flags.deferredForcedFallbackLiteTailPending ||
            (forced && !s.flags.deferredForcedFallbackDeferredScriptsSent &&
              (c.bootstrap.sendDeferredCompletionScripts ||
                c.bootstrap.sendDeferredCompletionLiteScripts))
        deferredForcedFallback10623BatchPending :=
          s.flags.deferredForcedFallback10623BatchPending ||
            (forced && !s.flags.deferredForcedFallbackDeferredScriptsSent &&
              c.bootstrap.sendDeferredCompletionScripts) } := by
  obtain ⟨client, flags⟩ := s
  cases flags
  unfold sendTailScripts
  unfold sendForcedFallbackDeferredCompletionScriptsIfNeeded
  dsimp only
  split_ifs <;> simp_all

@[simp] theorem sendTailRootInterfaceEvents_flags (forced : Bool) :
    (s.sendTailRootInterfaceEvents c forced).flags =
      { s.flags with
        deferredLateRootInterfaceEventsPending :=
          s.flags.deferredLateRootInterfaceEventsPending ||
            (forced && c.bootstrap.sendLateRootInterfaceEvents) } := by
  obtain ⟨client, flags⟩ := s
  cases flags
  unfold sendTailRootInterfaceEvents
  dsimp only
  split_ifs <;> simp_all

@[simp] theorem sendTailAnnouncementScripts_flags (forced : Bool) :
    (s.sendTailAnnouncementScripts c forced).flags =
      { s.flags with
        deferredAnnouncementScriptsPending :=
          s.flags.deferredAnnouncementScriptsPending ||
            (forced && c.bootstrap.sendInterfaceBootstrapAnnouncementScripts) } := by
  obtain ⟨client, flags⟩ := s
  cases flags
  unfold sendTailAnnouncementScripts
  dsimp only
  split_ifs <;> simp_all

@[simp] theorem sendTailEventDelta_flags (forced : Bool) :
    (s.sendTailEventDelta c forced).flags =
      { s.flags with
        deferredSceneStartEventDeltaPending :=
          s.flags.deferredSceneStartEventDeltaPending ||
            (c.bootstrap.sendSocialInitPackets && forced)
        deferredSceneStartLightTailScriptsPending :=
          s.flags.deferredSceneStartLightTailScriptsPending ||
            (c.bootstrap.sendSocialInitPackets && forced)
        deferredSceneStartFinalEventDeltaPending :=
          s.flags.deferredSceneStartFinalEventDeltaPending ||
            (c.bootstrap.sendSocialInitPackets && forced) } := by
  obtain ⟨client, flags⟩ := s
  cases flags
  unfold sendTailEventDelta
  dsimp only
  split_ifs <;> simp_all

/-! ### The late ready signals -/

@[simp] theorem sendForcedFallbackSelfModelBind_flags :
    (s.sendForcedFallbackSelfModelBind c).flags =
      { s.flags with
        deferredForcedFallbackSelfModelBindPending := false } := by
  obtain ⟨client, flags⟩ := s
  cases flags
  unfold sendForcedFallbackSelfModelBind
  dsimp only
  split_ifs <;> simp_all

@[simp] theorem replaySupplementalChildren_flags :
    (s.replaySupplementalChildren c).flags =
      { s.flags with
        deferredForcedFallbackSupplementalChildrenPending := false } := by
  obtain ⟨client, flags⟩ := s
  cases flags
  unfold replaySupplementalChildren
  dsimp only
  split_ifs <;> simp_all

@[simp] theorem replayCompletionStructure_flags :
    (s.replayCompletionStructure c).flags =
      { s.flags with
        deferredForcedFallbackCompletionStructurePending := false
        deferredForcedFallbackCompletionStructureSent :=
          s.flags.deferredForcedFallbackCompletionStructureSent ||
            s.flags.deferredForcedFallbackCompletionStructurePending
        deferredForcedFallbackCompletionCompanionsPending :=
          if s.flags.deferredForcedFallbackCompletionStructurePending then
            s.flags.deferredForcedFallbackCompletionStructureSent
          else s.flags.deferredForcedFallbackCompletionCompanionsPending } := by
  obtain ⟨client, flags⟩ := s
  cases flags
  unfold replayCompletionStructure
  dsimp only
  split_ifs <;> simp_all

@[simp] theorem replayLightInterfaceTail_flags :
    (s.replayLightInterfaceTail c).flags =
      { s.flags with
        deferredForcedFallbackLightInterfaceTailPending := false } := by
  obtain ⟨client, flags⟩ := s
  cases flags
  unfold replayLightInterfaceTail
  dsimp only
  split_ifs <;> simp_all

@[simp] theorem replayCompletionCompanions_flags :
    (s.replayCompletionCompanions c).flags = s.flags := by
  unfold replayCompletionCompanions
  split_ifs <;> rfl

@[simp] theorem releaseSceneStartEventDelta_flags :
    (s.releaseSceneStartEventDelta c).flags =
      { s.flags with
        deferredSceneStartEventDeltaPending := false
        deferredSceneStartTabbedEventDeltaPending := true } := rfl

@[simp] theorem releaseEventDeltas_flags :
    (s.releaseEventDeltas c).flags =
      { s.flags with
        deferredSceneStartEventDeltaPending := false
        deferredSceneStartTabbedEventDeltaPending :=
          s.flags.deferredSceneStartTabbedEventDeltaPending ||
            s.flags.deferredSceneStartEventDeltaPending
        deferredSceneStartFinalEventDeltaPending := false } := by
  obtain ⟨client, flags⟩ := s
  cases flags
  unfold releaseEventDeltas
  dsimp only
  split_ifs <;> simp_all

@[simp] theorem releaseFinalInterfaces_flags :
    (s.releaseFinalInterfaces c).flags =
      { s.flags with
        deferredLateRootInterfaceEventsPending := false
        deferredForcedFallbackSceneBridgePending := false
        forcedFallbackSceneBridgeSent :=
          s.flags.forcedFallbackSceneBridgeSent ||
            s.flags.deferredForcedFallbackSceneBridgePending
        deferredForcedFallbackRestoredWorldPanelsPending := false
        forcedFallbackRestoredWorldPanelsSent :=
          s.flags.forcedFallbackRestoredWorldPanelsSent ||
            s.flags.deferredForcedFallbackRestoredWorldPanelsPending
        deferredForcedFallbackUtilityPanelDeckPending := false
        forcedFallbackUtilityPanelDeckSent :=
          s.flags.forcedFallbackUtilityPanelDeckSent ||
            s.flags.deferredForcedFallbackUtilityPanelDeckPending } := by
  obtain ⟨client, flags⟩ := s
  cases flags
  unfold releaseFinalInterfaces
  dsimp only
  split_ifs <;> simp_all

@[simp] theorem releaseFinalScripts_flags :
    (s.releaseFinalScripts c).flags =
      { s.flags with
        deferredAnnouncementScriptsPending := false
        deferredForcedFallbackCoreScriptsPending := false
        deferredForcedFallback10623BatchPending := false
        deferredForcedFallbackLiteTailPending := false } := by
  obtain ⟨client, flags⟩ := s
  cases flags
  unfold releaseFinalScripts
  dsimp only
  split_ifs <;> simp_all

end WorldBundles
end OpenNXT.Model
