import OpenNXT.Data.Latin1

/-! The query of an address, and the values of its fields. -/
namespace OpenNXT.Data.UrlQuery
open Buffer

section Percent

def hexValue (c : Char) : Option ℕ :=
  if '0' ≤ c ∧ c ≤ '9' then some (c.toNat - '0'.toNat)
  else if 'a' ≤ c ∧ c ≤ 'f' then some (c.toNat - 'a'.toNat + 10)
  else if 'A' ≤ c ∧ c ≤ 'F' then some (c.toNat - 'A'.toNat + 10)
  else none

/-- A sign without two digits behind it stands for itself. -/
def unquoteToBytes : List Char → List Byte
  | '%' :: a :: b :: s =>
    match hexValue a, hexValue b with
    | some high, some low => BitVec.ofNat 8 (16 * high + low) :: unquoteToBytes s
    | _, _ => 0x25 :: unquoteToBytes (a :: b :: s)
  | c :: s => BitVec.ofNat 8 c.toNat :: unquoteToBytes s
  | [] => []

def replacement : Char := '\uFFFD'

/-- How many bytes follow the first one, and the bounds of the one behind it. -/
def continuation (b : ℕ) : Option (ℕ × ℕ × ℕ) :=
  if 0xc2 ≤ b ∧ b ≤ 0xdf then some (1, 0x80, 0xbf)
  else if b = 0xe0 then some (2, 0xa0, 0xbf)
  else if b = 0xed then some (2, 0x80, 0x9f)
  else if 0xe1 ≤ b ∧ b ≤ 0xef then some (2, 0x80, 0xbf)
  else if b = 0xf0 then some (3, 0x90, 0xbf)
  else if 0xf1 ≤ b ∧ b ≤ 0xf3 then some (3, 0x80, 0xbf)
  else if b = 0xf4 then some (3, 0x80, 0x8f)
  else none

/-- The bytes of a sequence as far as they are valid. -/
def validTail : ℕ → ℕ → ℕ → List Byte → List Byte
  | n + 1, low, high, b :: bs =>
    if low ≤ b.toNat ∧ b.toNat ≤ high then b :: validTail n 0x80 0xbf bs else []
  | _, _, _, _ => []

/-- The first character, and the bytes that it takes; what is not valid becomes one replacement. -/
def decodeFirst (b : Byte) (bs : List Byte) : Char × ℕ :=
  if b.toNat < 0x80 then (Char.ofNat b.toNat, 1)
  else
    match continuation b.toNat with
    | none => (replacement, 1)
    | some (n, low, high) =>
      let tail := validTail n low high bs
      if tail.length = n then
        (Char.ofNat (tail.foldl (fun v c => v * 64 + c.toNat % 64) (b.toNat % 2 ^ (6 - n))), n + 1)
      else (replacement, tail.length + 1)

/-- The bound is on the number of characters. -/
def decodeUtf8 : ℕ → List Byte → List Char
  | _, [] => []
  | 0, _ => []
  | n + 1, b :: bs =>
    let (c, taken) := decodeFirst b bs
    c :: decodeUtf8 n ((b :: bs).drop taken)

def isAscii (c : Char) : Bool := c.toNat < 128

/-- Only the runs of ASCII are unquoted. -/
def unquote (s : List Char) : List Char :=
  if '%' ∉ s then s
  else
    (s.splitBy fun a b => isAscii a == isAscii b).flatMap fun run =>
      if run.all isAscii then
        let bytes := unquoteToBytes run
        decodeUtf8 bytes.length bytes
      else run

end Percent

/-- The pieces at a separator, of which there is one at least. -/
def splitAtAll (sep : Char) : List Char → List (List Char)
  | [] => [[]]
  | c :: s =>
    if c = sep then [] :: splitAtAll sep s
    else
      match splitAtAll sep s with
      | [] => [[c]]
      | l :: ls => (c :: l) :: ls

/-- What is in front of the first separator, and what is behind it if there is one. -/
def partition (sep : Char) (s : List Char) : List Char × Option (List Char) :=
  match s.dropWhile (· ≠ sep) with
  | [] => (s, none)
  | _ :: rest => (s.takeWhile (· ≠ sep), some rest)

theorem partition_subset {sep : Char} {s front : List Char} {back : Option (List Char)}
    (h : partition sep s = (front, back)) : front ⊆ s := by
  unfold partition at h
  split at h
  · cases h
    exact List.Subset.refl s
  · cases h
    exact (List.takeWhile_prefix _).subset

def plusToSpace (s : List Char) : List Char := s.map fun c => if c = '+' then ' ' else c

/-- The fields of a query in order; one that is blank is left out. -/
def parseQsl (qs : List Char) : List (List Char × List Char) :=
  (splitAtAll '&' qs).filterMap fun nameValue =>
    match partition '=' nameValue with
    | (name, some value) =>
      if value = [] then none else some (unquote (plusToSpace name), unquote (plusToSpace value))
    | (_, none) => none

def isSchemeChar (c : Char) : Bool := c.isAlphanum || c = '+' || c = '-' || c = '.'

/-- The address behind its scheme. -/
def dropScheme (url : List Char) : List Char :=
  match url, partition ':' url with
  | first :: _, (scheme, some rest) =>
    if scheme ≠ [] ∧ first.isAlpha ∧ scheme.all isSchemeChar then rest else url
  | _, _ => url

/-- The query of an address; a host in brackets that is not an address itself is an exception. -/
def urlQuery (bracketed : List Char → Bool) (url : List Char) : Option (List Char) :=
  let url := (url.dropWhile fun c => c.toNat ≤ 0x20).filter fun c => c ≠ '\t' ∧ c ≠ '\r' ∧ c ≠ '\n'
  let url := dropScheme url
  let isEnd : Char → Bool := fun c => c = '/' || c = '?' || c = '#'
  let authority := if ['/', '/'].isPrefixOf url then (url.drop 2).takeWhile (! isEnd ·) else []
  let url := if ['/', '/'].isPrefixOf url then (url.drop 2).dropWhile (! isEnd ·) else url
  if ¬ ('[' ∈ authority ↔ ']' ∈ authority) ∨ ('[' ∈ authority ∧ ¬ bracketed authority) then none
  else
    let url := (partition '#' url).1
    some ((partition '?' url).2.getD [])

/-- The values of a field, in order. -/
def queryValues (bracketed : List Char → Bool) (name url : List Char) : Option (List (List Char)) :=
  (urlQuery bracketed url).map fun query =>
    ((parseQsl query).filter fun field => field.1 = name).map Prod.snd

end OpenNXT.Data.UrlQuery
