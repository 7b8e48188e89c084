import Mathlib.Data.Finmap
import Mathlib.Data.List.Lex
import Mathlib.Data.Multiset.Sort
import OpenNXT.Buffer.Utf16
import OpenNXT.Data.Decimal
import OpenNXT.Data.Split

/-! The configuration that a client and the cache downloader are started with. -/
namespace OpenNXT.Model.Files
open Buffer Data

/-- Keys and their values, in no order. -/
structure ClientConfig where
  entries : Finmap fun _ : Text => Text := ∅

namespace ClientConfig

/-- The text of a literal. -/
def literal (s : String) : Text := Text.units s.toList

def lineFeed : CodeUnit := .ofNat 0x0a

def carriageReturn : CodeUnit := .ofNat 0x0d

def equalsSign : CodeUnit := .ofNat 0x3d

/-- White space and the separators of Unicode. -/
def isWhitespace (c : CodeUnit) : Bool :=
  (0x09 ≤ c.val ∧ c.val ≤ 0x0d) ∨ (0x1c ≤ c.val ∧ c.val ≤ 0x20) ∨ c.val = 0xa0 ∨ c.val = 0x1680 ∨
    (0x2000 ≤ c.val ∧ c.val ≤ 0x200a) ∨ c.val = 0x2028 ∨ c.val = 0x2029 ∨ c.val = 0x202f ∨
    c.val = 0x205f ∨ c.val = 0x3000

def isBlank (line : Text) : Bool := line.all isWhitespace

/-- `none` is a line with too few pieces, which is an exception. -/
def readLine (config : ClientConfig) (line : Text) : Option ClientConfig :=
  if isBlank line then some config
  else do
    let bits := cuts equalsSign 1 line
    let first ← bits[0]?
    let value ← bits[1]?
    if first = literal "msg" ∨ first = literal "param" then
      let bits := cuts equalsSign 2 line
      let first ← bits[0]?
      let second ← bits[1]?
      let value ← bits[2]?
      return ⟨config.entries.insert (first ++ equalsSign :: second) value⟩
    else return ⟨config.entries.insert first value⟩

def parse (text : Text) : Option ClientConfig :=
  (text.splitOn lineFeed).foldlM readLine {}

/-- The pieces between line terminators: a line feed, a carriage return, or both in a row. -/
def terminated : Text → List Text
  | [] => [[]]
  | [c] => if c = carriageReturn ∨ c = lineFeed then [[], []] else [[c]]
  | c :: d :: s =>
    if c = carriageReturn ∧ d = lineFeed then [] :: terminated s
    else if c = carriageReturn ∨ c = lineFeed then [] :: terminated (d :: s)
    else (terminated (d :: s)).modifyHead (c :: ·)

/-- What follows the last terminator is a line if it is not empty. -/
def readAllLines (s : Text) : List Text :=
  let pieces := terminated s
  if pieces.getLast? = some [] then pieces.dropLast else pieces

/-- The lines of the entries, sorted by code units. -/
def toText (config : ClientConfig) : Text :=
  let lines := config.entries.entries.map fun e => e.1 ++ equalsSign :: e.2
  [lineFeed].intercalate (lines.sort (· ≤ ·))

/-- The file that is written. -/
def save (config : ClientConfig) : ByteArray := (String.ofList (Text.scalars config.toText)).toUTF8

/-- There may be no file, and what is in it may be no text. -/
def load (file : Option ByteArray) : Option ClientConfig := do
  let bytes ← file
  let characters ← bytes.utf8Decode?
  (readAllLines (Text.units characters.toList)).foldlM readLine {}

/-- `param=$id`. -/
def paramKey (id : ℤ) : Text := literal "param=" ++ Text.units (Decimal.print id)

/-- The loop that looks for the highest parameter, for as many turns as there is fuel. -/
def countDown (config : ClientConfig) : ℕ → BitVec 32 → Option (BitVec 32)
  | 0, _ => none
  | fuel + 1, max =>
    if paramKey max.toInt ∈ config.entries then some max else countDown config fuel (max - 1)

def highestParam (config : ClientConfig) (fuel : ℕ) : Option (BitVec 32) :=
  config.countDown fuel 100

def getParam (config : ClientConfig) (id : ℤ) : Option Text := config.entries.lookup (paramKey id)

/-- The first parameter below a bound with a value of 32 characters. -/
def tokenBelow (config : ClientConfig) (bound : ℤ) : Except String Text :=
  match (List.range bound.toNat).findSome? fun i : ℕ =>
    (config.getParam i).filter fun test => test.length = 32 with
  | some test => .ok test
  | none => .error "no js5 token found"

/-- `none` is a run that takes more turns than there is fuel. -/
def getJs5Token (config : ClientConfig) (fuel : ℕ) : Option (Except String Text) := do
  let highest ← config.highestParam fuel
  return config.tokenBelow highest.toInt

end ClientConfig

end OpenNXT.Model.Files
