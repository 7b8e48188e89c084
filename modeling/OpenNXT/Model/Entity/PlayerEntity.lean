import OpenNXT.Buffer.BigEndian

/-! Where a player is, how it moves, and what others are shown of it. -/
namespace OpenNXT.Model
open Buffer

inductive CompassPoint
  | north | northeast | east | southeast | south | southwest | west | northwest
  deriving DecidableEq

namespace CompassPoint

def dx : CompassPoint → Word
  | north => 0
  | northeast => 1
  | east => 1
  | southeast => 1
  | south => 0
  | southwest => -1
  | west => -1
  | northwest => -1

def dy : CompassPoint → Word
  | north => 1
  | northeast => 1
  | east => 0
  | southeast => -1
  | south => -1
  | southwest => -1
  | west => 0
  | northwest => 1

def diagonal : CompassPoint → Bool
  | north | east | south | west => false
  | northeast | southeast | southwest | northwest => true

end CompassPoint

inductive MovementSpeed
  | stationary | crawl | walk | run | instant
  deriving DecidableEq

namespace MovementSpeed

def id : MovementSpeed → Word
  | stationary => -1
  | crawl => 0
  | walk => 1
  | run => 2
  | instant => 3

/-- `speed.id.toByte()`. -/
def idByte (speed : MovementSpeed) : Byte := speed.id.setWidth 8

end MovementSpeed

/-- `abs(x) < bound`; the absolute value of the least `Int` is itself. -/
def absLt (x bound : Word) : Bool := x.abs.slt bound

structure TileLocation where
  x : Word
  y : Word
  plane : Word := 0
  deriving DecidableEq

namespace TileLocation

def regionX (l : TileLocation) : Word := l.x.sshiftRight 6
def regionY (l : TileLocation) : Word := l.y.sshiftRight 6
def xInRegion (l : TileLocation) : Word := l.x &&& 0x3f
def yInRegion (l : TileLocation) : Word := l.y &&& 0x3f
def tileHash (l : TileLocation) : Word := l.y + l.x <<< 14 + l.plane <<< 28
def regionHash (l : TileLocation) : Word := l.regionY + l.regionX <<< 8 + l.plane <<< 16

def withinDistance (l other : TileLocation) (distance : Word) : Bool :=
  other.plane == l.plane &&
    ((other.x - l.x).abs.sle distance && (other.y - l.y).abs.sle distance)

end TileLocation

structure Movement where
  speed : MovementSpeed := .run
  currentSpeed : MovementSpeed := .stationary
  nextWalkDirection : Option CompassPoint := none
  nextRunDirection : Option CompassPoint := none

structure PlayerModel where
  data : List Byte := []
  hash : List Byte := []

inductive UpdateBlock
  | appearance
  deriving DecidableEq

namespace UpdateBlock

def playerMask : UpdateBlock → Word
  | appearance => 0x1

def playerPos : UpdateBlock → ℕ
  | appearance => 3

/-- The data goes out backwards, behind its negated size. -/
def encode : UpdateBlock → PlayerModel → List Byte
  | appearance, model => -BitVec.ofNat 8 model.data.length :: model.data.reverse

end UpdateBlock

/-- The slots of the players are 1 to 2047; the index of an entity outside of the world
is -1. -/
structure PlayerEntity where
  location : TileLocation
  previousLocation : TileLocation := location
  index : ℤ := -1
  index_lt : index < 2048 := by decide
  movement : Movement := {}
  model : PlayerModel := {}
  blocks : List (Option UpdateBlock) := List.replicate 30 none

theorem PlayerEntity.natCast_mod_lt (i : ℕ) : ((i % 2048 : ℕ) : ℤ) < 2048 :=
  Int.ofNat_lt.mpr (Nat.mod_lt i (Nat.zero_lt_succ 2047))

/-- A block that is set needs an update, whoever looks. -/
def PlayerEntity.needsUpdate (e : PlayerEntity) : Bool := e.blocks.any Option.isSome

/-- The entities in memory and the slots of the world. -/
structure WorldView (Ref : Type) where
  entity : Ref → PlayerEntity
  getPlayer : ℕ → Option Ref

end OpenNXT.Model
