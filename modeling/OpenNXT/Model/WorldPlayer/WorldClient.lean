import Mathlib.Algebra.Order.Ring.Int

/-! What a player in the world is sent, and the interfaces that are open for it. -/
namespace OpenNXT.Model

/-- The packets that a build may leave unmapped. -/
inductive WorldPacket
  | rebuildNormal
  | noTimeout
  | serverTickEnd
  | resetClientVarcache
  | ifOpenTop
  | ifOpenSub
  | ifCloseSub
  | ifSethide
  | ifOpensubActivePlayer
  | ifSetplayerhead
  | ifSetplayermodelSelf
  deriving DecidableEq

inductive EntryMode
  | fullLogin
  | postLobbyAuth
  deriving DecidableEq

/-- The part of the configuration that the bootstrap of the world reads. -/
structure LobbyBootstrap where
  sendWorldInitState : Bool := false
  sendDefaultVarps : Bool := true
  sendInterfaceBootstrapAnnouncementScripts : Bool := true
  sendImmediateFollowupWorldSync : Bool := false
  sendExperimentalActivePlayerOpensub : Bool := true
  worldInterfaceSelfModelComponent : ℤ := 1
  worldInterfaceSelfHeadComponent : ℤ := -1
  sendServerTickEnd : Bool := false
  compatServerpermAckOpcode : ℤ := 206
  compatWorldlistFetchReplyOpcode : ℤ := -1
  openRootInterface : Bool := true
  openSupplementalChildInterfaces : Bool := false
  trimWorldInterfaceTail : Bool := false
  sendDeferredCompletionScripts : Bool := true
  sendDeferredCompletionLiteScripts : Bool := false
  sendDeferredCompletion10623Batch : Bool := false
  sendDeferredCompletionCoreScripts : Bool := false
  sendLateRootInterfaceEvents : Bool := true
  sendSocialInitPackets : Bool := true

/-- The configuration, the packets that are mapped, and how many of the default varps are queued,
with and without the forced fallback. -/
structure WorldConfig where
  bootstrap : LobbyBootstrap := {}
  npcInfo : Bool := true
  playerInfo : Bool := true
  mapBuildComplete : Bool := true
  registered : WorldPacket → Bool := fun _ => true
  entryMode : EntryMode := .fullLogin
  lateDefaultVarps : Bool → ℕ := fun _ => 0

/-- Packets that are sent together. -/
inductive WorldBundle
  | primaryChild
  | minimalVarcs
  | candidateDefaultVarps
  | fullInterfaces
  | supplementalChildren
  | lightTail
  | restoredWorldPanels
  | utilityPanelDeck
  | sceneBridge
  | completionStructure
  | completionCompanions
  | coreScripts
  | liteTail
  | scripts10623
  | bootstrapCoreScripts
  | lateRootInterfaceEvents
  | announcementScripts
  | completionEventDelta
  | sceneStartEventDelta
  | sceneStartTabbedEventDelta
  | sceneStartLightTailScripts
  | sceneStartFinalEventDelta
  | supplementalEvents
  | lightTailEvents
  | structureEvents
  deriving DecidableEq

namespace WorldBundle

/-- The components of the root interface 1477 on which a bundle opens interfaces, and their ids. -/
def opens (c : WorldConfig) : WorldBundle → List (ℕ × ℕ)
  | primaryChild => [(27, 1482)]
  | fullInterfaces =>
    [(284, 1466), (98, 1473), (109, 1464), (131, 1458), (186, 1461), (197, 1884), (208, 1885),
      (219, 1887), (230, 1886), (142, 1460), (153, 1881), (164, 1888), (241, 1883), (252, 1449),
      (263, 1882), (175, 1452), (475, 550), (519, 1427), (486, 1110), (393, 590), (295, 1416)] ++
    (if c.registered .ifSethide then [(508, 1417)] else []) ++
    [(497, 1519), (327, 1588), (338, 1678), (360, 190), (371, 1854), (382, 1894), (59, 1431),
      (638, 568), (90, 1465), (91, 1919)]
  | supplementalChildren => [(284, 1466), (98, 1473)]
  | lightTail => [(739, 634), (744, 653), (65, 1430), (70, 1670), (75, 1671), (85, 1673)]
  | restoredWorldPanels =>
    [(109, 1464), (131, 1458), (186, 1461), (197, 1884), (208, 1885), (219, 1887), (230, 1886),
      (142, 1460), (153, 1881), (164, 1888), (241, 1883), (252, 1449), (263, 1882), (175, 1452)]
  | utilityPanelDeck =>
    [(475, 550), (519, 1427), (486, 1110), (393, 590), (295, 1416), (497, 1519), (327, 1588),
      (338, 1678), (360, 190), (371, 1854), (382, 1894)]
  | sceneBridge => [(59, 1431), (638, 568), (90, 1465), (91, 1919)]
  | completionStructure =>
    [(751, 1433), (404, 137), (415, 1467), (425, 1472), (435, 1471), (445, 1470), (455, 464),
      (465, 1529)]
  | completionCompanions =>
    [(767, 1484), (576, 1483), (589, 745), (572, 284), (619, 1213), (662, 1448), (568, 291),
      (760, 1488), (39, 1680), (856, 1847), (615, 635), (627, 1639)]
  | _ => []

end WorldBundle

inductive WorldWrite
  | npcInfo
  | playerInfo
  | packet (packet : WorldPacket)
  /-- Written with its opcode, mapped or not. -/
  | unidentified (opcode : ℤ)
  /-- The chunks of the world list, written with this opcode. -/
  | worldListReply (opcode : ℤ)
  | closeSub (component : ℕ)
  | bundle (bundle : WorldBundle)
  deriving DecidableEq

/-- What was written, and the interface manager: whether the root is open, its children by their
components, and whether an interface was opened without a root, which is an exception. -/
structure WorldClient where
  written : List WorldWrite := []
  rootOpen : Bool := false
  children : List (ℕ × ℕ) := []
  thrown : Bool := false

namespace WorldClient
variable (c : WorldConfig)

def writeRaw (w : WorldWrite) (s : WorldClient) : WorldClient := { s with written := s.written ++ [w] }

/-- A packet that is not mapped is dropped. -/
def write (packet : WorldPacket) (s : WorldClient) : WorldClient :=
  if c.registered packet then s.writeRaw (.packet packet) else s

def openTop (s : WorldClient) : WorldClient :=
  { s with rootOpen := true, children := [] }.write c .ifOpenTop

def isOpened (id : ℕ) (s : WorldClient) : Bool := s.children.any fun child => child.2 = id

def openSub (s : WorldClient) (child : ℕ × ℕ) : WorldClient :=
  { s with children := s.children.filter (fun other => other.1 ≠ child.1) ++ [child] }

def closeSub (component : ℕ) (s : WorldClient) : WorldClient :=
  if c.registered .ifCloseSub then s.writeRaw (.closeSub component) else s

/-- Closes the component if an interface is open on it. -/
def close (component : ℕ) (s : WorldClient) : WorldClient :=
  if s.children.any fun child => child.1 = component then
    { s with children := s.children.filter fun child => child.1 ≠ component }.closeSub c component
  else s

/-- Interfaces are opened on the root. -/
def send (b : WorldBundle) (s : WorldClient) : WorldClient :=
  if (b.opens c).isEmpty then s.writeRaw (.bundle b)
  else if s.rootOpen then ((b.opens c).foldl openSub s).writeRaw (.bundle b)
  else { s with thrown := true }

end WorldClient
end OpenNXT.Model
