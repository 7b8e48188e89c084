import Mathlib.Logic.Function.Basic
import OpenNXT.Buffer.Bits
import OpenNXT.Model.Entity.PlayerEntity
import OpenNXT.Transition.Loop

/-! What a player is told of the others: the viewport it keeps, and the four passes over it. -/
namespace OpenNXT.Model
open Buffer Transition

structure Viewport (Ref : Type) where
  localPlayers : ℕ → Option Ref := fun _ => none
  localPlayerIndices : List ℕ := []
  outPlayerIndices : List ℕ := []
  regionHashes : ℕ → Word := fun _ => 0
  slotFlags : ℕ → Byte := fun _ => 0
  movementTypes : ℕ → Byte := fun _ => 0
  localAddedPlayers : ℤ := 0
  cachedAppearanceHashes : ℕ → Option (List Byte) := fun _ => none
  playerViewingDistance : Word := 14

inductive PlayerInfoError
  /-- "Player index must be between 1 and 2047". -/
  | playerIndex
  /-- "Player disappeared from local players". -/
  | playerDisappeared (id : ℕ)
  /-- `viewport.localPlayers[p2Index]!!`. -/
  | nullPointer (id : ℕ)
  /-- A walk and a run step of which one is diagonal end next to the start. -/
  | help
  /-- "Hmm idk". -/
  | noFirstStep
  /-- "No walk opcode for delta". -/
  | noWalkOpcode (dx dy : Word)
  /-- "No run opcode for delta". -/
  | noRunOpcode (dx dy : Word)
  /-- "Invalid delta value for region hash!". -/
  | invalidDelta
  deriving DecidableEq

variable {Ref : Type}

namespace Viewport

/-- The slots of the other players. -/
def slots : List ℕ := List.range' 1 2047

def initSlot (w : WorldView Ref) (entityIndex : ℕ) (s : Viewport Ref × List Bool) (index : ℕ) :
    Viewport Ref × List Bool :=
  if index = entityIndex then s
  else
    let other := (w.getPlayer index).map w.entity
    let speed := (other.map (·.movement.currentSpeed)).getD .stationary
    let hash := (other.map (·.location.regionHash)).getD 0 ||| speed.id <<< 18
    let v := { s.1 with
      regionHashes := Function.update s.1.regionHashes index hash
      outPlayerIndices := s.1.outPlayerIndices ++ [index] }
    (if speed ≠ .stationary then v
      else { v with slotFlags := Function.update v.slotFlags index (v.slotFlags index ||| 1) },
      s.2 ++ putBits 20 hash)

def init (w : WorldView Ref) (player : Ref) (v : Viewport Ref) :
    Except PlayerInfoError (Viewport Ref × List Byte) :=
  let entity := w.entity player
  if entity.index < 1 then .error .playerIndex
  else
    let index := entity.index.toNat
    let v := { v with
      localPlayers := Function.update v.localPlayers index (some player)
      localPlayerIndices := [index]
      outPlayerIndices := [] }
    let s := slots.foldl (initSlot w index) (v, putBits 30 entity.location.tileHash)
    .ok (s.1, packBits s.2)

def resetSlot (v : Viewport Ref) (idx : ℕ) : Viewport Ref :=
  let v := { v with
    slotFlags := Function.update v.slotFlags idx ((v.slotFlags idx).sshiftRight 1) }
  match v.localPlayers idx with
  | none => { v with outPlayerIndices := v.outPlayerIndices ++ [idx] }
  | some _ => { v with localPlayerIndices := v.localPlayerIndices ++ [idx] }

def resetForNextTransmit (v : Viewport Ref) : Viewport Ref :=
  slots.foldl resetSlot
    { v with localPlayerIndices := [], outPlayerIndices := [], localAddedPlayers := 0 }

/-- `slotFlags[id] or 0x2`. -/
def flagNext (v : Viewport Ref) (id : ℕ) : Viewport Ref :=
  { v with slotFlags := Function.update v.slotFlags id (v.slotFlags id ||| 2) }

end Viewport

namespace PlayerInfoEncoder

def MAX_PLAYERS_PER_ADD : ℤ := 25

def getWalkOpcode (dx dy : Word) : Except PlayerInfoError Word :=
  if dx = -1 ∧ dy = -1 then .ok 0
  else if dx = 0 ∧ dy = -1 then .ok 1
  else if dx = 1 ∧ dy = -1 then .ok 2
  else if dx = -1 ∧ dy = 0 then .ok 3
  else if dx = 1 ∧ dy = 0 then .ok 4
  else if dx = -1 ∧ dy = 1 then .ok 5
  else if dx = 0 ∧ dy = 1 then .ok 6
  else if dx = 1 ∧ dy = 1 then .ok 7
  else .error (.noWalkOpcode dx dy)

def getRunOpcode (dx dy : Word) : Except PlayerInfoError Word :=
  if dx = -2 ∧ dy = -2 then .ok 0
  else if dx = -1 ∧ dy = -2 then .ok 1
  else if dx = 0 ∧ dy = -2 then .ok 2
  else if dx = 1 ∧ dy = -2 then .ok 3
  else if dx = 2 ∧ dy = -2 then .ok 4
  else if dx = -2 ∧ dy = -1 then .ok 5
  else if dx = 2 ∧ dy = -1 then .ok 6
  else if dx = -2 ∧ dy = 0 then .ok 7
  else if dx = 2 ∧ dy = 0 then .ok 8
  else if dx = -2 ∧ dy = 1 then .ok 9
  else if dx = 2 ∧ dy = 1 then .ok 10
  else if dx = -2 ∧ dy = 2 then .ok 11
  else if dx = -1 ∧ dy = 2 then .ok 12
  else if dx = 0 ∧ dy = 2 then .ok 13
  else if dx = 1 ∧ dy = 2 then .ok 14
  else if dx = 2 ∧ dy = 2 then .ok 15
  else .error (.noRunOpcode dx dy)

/-- The first of two steps around a corner. -/
def firstStep : CompassPoint → Except PlayerInfoError Word
  | .north => .ok 0
  | .west => .ok 1
  | .east => .ok 2
  | .south => .ok 3
  | _ => .error .noFirstStep

def putSkip (skipCount : ℕ) : List Bool :=
  let type : Word :=
    if skipCount = 0 then 0 else if skipCount > 255 then 3 else if skipCount > 31 then 2 else 1
  let bits := if skipCount > 255 then 11 else if skipCount > 31 then 8 else 5
  putBits 2 type ++ if skipCount > 0 then putBits bits (BitVec.ofNat 32 skipCount) else []

/-- The step to a neighbouring region. -/
def regionOpcode (dx dy : Word) : Except PlayerInfoError Word :=
  if dx = -1 ∧ dy = -1 then .ok 0
  else if dx = 1 ∧ dy = -1 then .ok 2
  else if dx = -1 ∧ dy = 1 then .ok 5
  else if dx = 1 ∧ dy = 1 then .ok 7
  else if dy = -1 then .ok 1
  else if dx = -1 then .ok 3
  else if dx = 1 then .ok 4
  else if dy = 1 then .ok 6
  else .error .invalidDelta

def hashRegionX (hash : Word) : Word := hash.sshiftRight 8 &&& 0xff
def hashRegionY (hash : Word) : Word := 0xff &&& hash
def hashPlane (hash : Word) : Word := hash.sshiftRight 16 &&& 0x3

def appendRegionHash (entity : PlayerEntity) (lastHash currentHash : Word) :
    Except PlayerInfoError (List Bool) :=
  let dx := hashRegionX currentHash - hashRegionX lastHash
  let dy := hashRegionY currentHash - hashRegionY lastHash
  let planeOffset := hashPlane currentHash - hashPlane lastHash
  if hashRegionX lastHash = hashRegionX currentHash ∧
      hashRegionY lastHash = hashRegionY currentHash then
    .ok (putBits 2 1 ++ putBits 2 (planeOffset &&& 0x3))
  else if dx.abs.sle 1 ∧ dy.abs.sle 1 then do
    let opcode ← regionOpcode dx dy
    return putBits 2 2 ++ putBits 5 ((planeOffset &&& 0x3) <<< 3 + (opcode &&& 0x7))
  else
    .ok (putBits 2 3 ++ putBits 20 ((dy &&& 0xff) + (dx &&& 0xff) <<< 8 +
      (planeOffset &&& 0x3) <<< 16 + (entity.movement.speed.id + 1) <<< 18))

/-- Whether the region changed, and how. -/
def putRegion (entity : PlayerEntity) (lastHash : Word) : Except PlayerInfoError (List Bool) :=
  if entity.location.regionHash = lastHash then .ok (putBits 1 0)
  else do
    let bits ← appendRegionHash entity lastHash entity.location.regionHash
    return putBits 1 1 ++ bits

section
variable (w : WorldView Ref) (player : Ref)

def needsRemove (v : Viewport Ref) (target : PlayerEntity) : Bool :=
  target.index ≤ 0 ||
    !(w.entity player).location.withinDistance target.location v.playerViewingDistance

def needsAdd (v : Viewport Ref) (target : PlayerEntity) : Bool :=
  !(target.index ≤ 0) && !(v.localAddedPlayers > MAX_PLAYERS_PER_ADD) &&
    (w.entity player).location.withinDistance target.location v.playerViewingDistance

end

def needsAppearanceUpdate (v : Viewport Ref) (target : PlayerEntity) (blockSize : ℕ) : Bool :=
  if blockSize > (7500 - 500) / 2 || target.model.hash.isEmpty then false
  else v.cachedAppearanceHashes target.index.toNat != some target.model.hash

def needsMaskUpdate (v : Viewport Ref) (target : PlayerEntity) (blockSize : ℕ) : Bool :=
  needsAppearanceUpdate v target blockSize || target.needsUpdate

def putMask (maskData : Word) : List Byte :=
  let maskData := if (0xff : Word).sle maskData then maskData ||| 0x40 else maskData
  let maskData := if (0xffff : Word).sle maskData then maskData ||| 0x400 else maskData
  maskData.setWidth 8 ::
    ((if (0xff : Word).sle maskData then [(maskData.sshiftRight 8).setWidth 8] else []) ++
    (if (0xffff : Word).sle maskData then [(maskData.sshiftRight 16).setWidth 8] else []) ++
    (if (0xffffff : Word).sle maskData then [(maskData.sshiftRight 24).setWidth 8] else []))

/-- The new appearance goes where the renderer would have it. -/
def putBlocks (model : PlayerModel) (appearance : Bool) (blocks : List (Option UpdateBlock)) :
    List Byte :=
  blocks.zipIdx.flatMap fun b =>
    match b.1 with
    | some current => current.encode model
    | none =>
      if appearance && b.2 == UpdateBlock.appearance.playerPos then
        UpdateBlock.appearance.encode model
      else []

def packUpdateBlock (v : Viewport Ref) (target : PlayerEntity) (block : List Byte) :
    Viewport Ref × List Byte :=
  let appearance := needsAppearanceUpdate v target block.length
  let maskData : Word := if appearance then UpdateBlock.appearance.playerMask else 0
  let maskData := (target.blocks.filterMap fun b => b.map UpdateBlock.playerMask).foldl
    (· ||| ·) maskData
  (if appearance then { v with
      cachedAppearanceHashes :=
        Function.update v.cachedAppearanceHashes target.index.toNat (some target.model.hash) }
    else v,
    block ++ putMask maskData ++ putBlocks target.model appearance target.blocks)

/-- An offset in five bits. -/
def fiveBits (offset : Word) : Word := if offset.slt 0 then offset + 32 else offset

/-- What is put for the steps of a player, and the movement type after them. -/
def putSteps (movementType : Byte) (speed : MovementSpeed) (walkDirection : CompassPoint)
    (runDirection : Option CompassPoint) : Except PlayerInfoError (List Bool × Byte) :=
  let dx := walkDirection.dx + (runDirection.map CompassPoint.dx).getD 0
  let dy := walkDirection.dy + (runDirection.map CompassPoint.dy).getD 0
  if speed.idByte ≠ movementType ∧ ¬(absLt dx 2 ∧ absLt dy 2 ∧ runDirection.isSome) then
    .ok (putBits 2 3 ++ putBits 1 0 ++ putBits 15 (fiveBits dy + fiveBits dx <<< 5 +
      (0 : Word) <<< 10 + (speed.id + 1) <<< 12), speed.idByte)
  else if dx = 0 ∧ dy = 0 then .ok (putBits 2 0, movementType)
  else
    match runDirection with
    | none => do
      let opcode ← getWalkOpcode walkDirection.dx walkDirection.dy
      return (putBits 2 1 ++ putBits 3 opcode ++ putBits 1 0, movementType)
    | some runDirection =>
      if absLt dx 2 ∧ absLt dy 2 then
        if runDirection.diagonal || walkDirection.diagonal then .error .help
        else do
          let opcode ← getWalkOpcode (runDirection.dx + walkDirection.dx)
            (runDirection.dy + walkDirection.dy)
          let first ← firstStep walkDirection
          return (putBits 2 1 ++ putBits 3 opcode ++ putBits 1 1 ++ putBits 2 first, movementType)
      else do
        let opcode ← getRunOpcode dx dy
        return (putBits 2 2 ++ putBits 4 opcode, movementType)

/-- What is put for a player at a location that it did not walk to. -/
def putInstant (location previousLocation : TileLocation) : List Bool :=
  let xOffset := location.x - previousLocation.x
  let yOffset := location.y - previousLocation.y
  let planeOffset := location.plane - previousLocation.plane
  putBits 2 3 ++
    if absLt xOffset 16 ∧ absLt yOffset 16 then
      putBits 1 0 ++ putBits 15 (fiveBits yOffset + fiveBits xOffset <<< 5 +
        (planeOffset &&& 0x3) <<< 10 + (4 : Word) <<< 12)
    else
      putBits 1 1 ++ putBits 3 4 ++ putBits 30 ((yOffset &&& 0x3fff) +
        (xOffset &&& 0x3fff) <<< 14 + (planeOffset &&& 0x3) <<< 28)

/-- What is put for a movement, and the movement type after it; nothing where the player does
not move. -/
def putMovement (movementType : Byte) (target : PlayerEntity) (needsUpdate : Bool) :
    Except PlayerInfoError (Option (List Bool × Byte)) :=
  let movement := target.movement
  let updates := putBits 1 1 ++ putBits 1 (if needsUpdate then 1 else 0)
  match movement.nextWalkDirection with
  | some walkDirection => do
    let (bits, movementType) ← putSteps movementType movement.currentSpeed walkDirection
      movement.nextRunDirection
    return some (updates ++ bits, movementType)
  | none =>
    if movement.currentSpeed = .instant then
      .ok (some (updates ++ putInstant target.location target.previousLocation,
        MovementSpeed.instant.idByte))
    else if needsUpdate then .ok (some (updates ++ putBits 2 0, movementType))
    else .ok none

/-- One pass on its way: the counter, the bits put so far and the update blocks. -/
structure Pass (Ref : Type) where
  viewport : Viewport Ref
  skipCount : ℕ := 0
  bits : List Bool := []
  block : List Byte := []

/-- Whether a pass over the local players leaves a slot to the other one. -/
def otherLocalPass (nsn0 : Bool) (flags : Byte) : Bool :=
  if nsn0 then flags &&& 0x1 != 0 else flags &&& 0x1 == 0

/-- Whether a pass over the outside players leaves a slot to the other one. -/
def otherOutsidePass (nsn2 : Bool) (flags : Byte) : Bool :=
  if nsn2 then flags &&& 0x1 == 0 else flags &&& 0x1 != 0

/-- One slot of a pass: left to the other pass, skipped, or put. -/
def turn (other : Byte → Bool)
    (put : Pass Ref → ℕ → List ℕ → Except PlayerInfoError (Pass Ref)) (s : Pass Ref) (id : ℕ)
    (rest : List ℕ) : Except PlayerInfoError (Pass Ref) :=
  if other (s.viewport.slotFlags id) then .ok s
  else if 0 < s.skipCount then
    .ok { s with viewport := s.viewport.flagNext id, skipCount := s.skipCount - 1 }
  else put s id rest

section
variable (w : WorldView Ref) (player : Ref)

/-- How many of the players that follow need nothing. -/
def localSkips (nsn0 : Bool) (v : Viewport Ref) (blockSize : ℕ) :
    List ℕ → Except PlayerInfoError ℕ
  | [] => .ok 0
  | p2Index :: rest =>
    if otherLocalPass nsn0 (v.slotFlags p2Index) then localSkips nsn0 v blockSize rest
    else
      match v.localPlayers p2Index with
      | none => .error (.nullPointer p2Index)
      | some ref =>
        let p2 := w.entity ref
        if needsRemove w player v p2 || needsMaskUpdate v p2 blockSize ||
            p2.movement.nextWalkDirection.isSome || p2.movement.currentSpeed == .instant then
          .ok 0
        else do
          let skipCount ← localSkips nsn0 v blockSize rest
          return skipCount + 1

/-- The entry of a player that is not skipped, in front of `rest`. -/
def putLocalPlayer (nsn0 : Bool) (s : Pass Ref) (id : ℕ) (rest : List ℕ) :
    Except PlayerInfoError (Pass Ref) :=
  match s.viewport.localPlayers id with
  | none => .error (.playerDisappeared id)
  | some ref =>
    let target := w.entity ref
    let v := { s.viewport with
      regionHashes := Function.update s.viewport.regionHashes id target.location.regionHash }
    if needsRemove w player s.viewport target then do
      let region ← putRegion target (s.viewport.regionHashes id)
      return { s with
        viewport := { v with localPlayers := Function.update v.localPlayers id none }
        bits := s.bits ++ (putBits 1 1 ++ putBits 1 0 ++ putBits 2 0 ++ region) }
    else
      let needsUpdate := needsMaskUpdate v target s.block.length
      let (v, block) := if needsUpdate then packUpdateBlock v target s.block else (v, s.block)
      match putMovement (v.movementTypes id) target needsUpdate with
      | .error e => .error e
      | .ok (some (bits, movementType)) => .ok { s with
          viewport := { v with movementTypes := Function.update v.movementTypes id movementType }
          bits := s.bits ++ bits
          block := block }
      | .ok none => do
        let skipCount ← localSkips w player nsn0 v block.length rest
        return {
          viewport := v.flagNext id
          skipCount := skipCount
          bits := s.bits ++ (putBits 1 0 ++ putSkip skipCount)
          block := block }

def localTurn (nsn0 : Bool) : Pass Ref → ℕ → List ℕ → Except PlayerInfoError (Pass Ref) :=
  turn (otherLocalPass nsn0) (putLocalPlayer w player nsn0)

def processLocalPlayers (nsn0 : Bool) (v : Viewport Ref) (block : List Byte) :
    Except PlayerInfoError (Pass Ref) :=
  loopOver (localTurn w player nsn0) { viewport := v, block := block } v.localPlayerIndices []

/-- How many of the players that follow neither appear nor change their region. -/
def outsideSkips (nsn2 : Bool) (v : Viewport Ref) : List ℕ → ℕ
  | [] => 0
  | p2Index :: rest =>
    if otherOutsidePass nsn2 (v.slotFlags p2Index) then outsideSkips nsn2 v rest
    else
      match (w.getPlayer p2Index).map w.entity with
      | none => outsideSkips nsn2 v rest + 1
      | some p2 =>
        if needsAdd w player v p2 || p2.location.regionHash != v.regionHashes p2Index then 0
        else outsideSkips nsn2 v rest + 1

/-- No change of a player that is not added, in front of `rest`. -/
def putNothing (nsn2 : Bool) (s : Pass Ref) (id : ℕ) (rest : List ℕ) : Pass Ref :=
  let skipCount := outsideSkips w player nsn2 s.viewport rest
  { s with
    viewport := s.viewport.flagNext id
    skipCount := skipCount
    bits := s.bits ++ (putBits 1 0 ++ putSkip skipCount) }

/-- The entry of an outside player that is not skipped, in front of `rest`. -/
def putOutsidePlayer (nsn2 : Bool) (s : Pass Ref) (id : ℕ) (rest : List ℕ) :
    Except PlayerInfoError (Pass Ref) :=
  match w.getPlayer id with
  | none => .ok (putNothing w player nsn2 s id rest)
  | some ref =>
    let target := w.entity ref
    let hash := target.location.regionHash
    let v := { s.viewport with regionHashes := Function.update s.viewport.regionHashes id hash }
    if needsAdd w player s.viewport target then do
      let region ← putRegion target (s.viewport.regionHashes id)
      let (v, block) := packUpdateBlock v target s.block
      return { s with
        viewport := { v with localPlayers := Function.update v.localPlayers id (some ref) }.flagNext id
        bits := s.bits ++ (putBits 1 1 ++ putBits 2 0 ++ region ++
          putBits 6 target.location.xInRegion ++ putBits 6 target.location.yInRegion ++ putBits 1 1)
        block := block }
    else if hash ≠ s.viewport.regionHashes id then do
      let bits ← appendRegionHash target (s.viewport.regionHashes id) hash
      return { s with viewport := v, bits := s.bits ++ (putBits 1 1 ++ bits) }
    else .ok (putNothing w player nsn2 s id rest)

def outsideTurn (nsn2 : Bool) : Pass Ref → ℕ → List ℕ → Except PlayerInfoError (Pass Ref) :=
  turn (otherOutsidePass nsn2) (putOutsidePlayer w player nsn2)

def processOutsidePlayers (nsn2 : Bool) (v : Viewport Ref) (block : List Byte) :
    Except PlayerInfoError (Pass Ref) :=
  loopOver (outsideTurn w player nsn2) { viewport := v, block := block } v.outPlayerIndices []

/-- The viewport after the four passes, and the bytes for the client. -/
def createBufferFor (v : Viewport Ref) : Except PlayerInfoError (Viewport Ref × List Byte) := do
  let s₁ ← processLocalPlayers w player true v []
  let s₂ ← processLocalPlayers w player false s₁.viewport s₁.block
  let s₃ ← processOutsidePlayers w player true s₂.viewport s₂.block
  let s₄ ← processOutsidePlayers w player false s₃.viewport s₃.block
  return (s₄.viewport, packBits s₁.bits ++ packBits s₂.bits ++ packBits s₃.bits ++
    packBits s₄.bits ++ s₄.block)

end
end PlayerInfoEncoder
end OpenNXT.Model
