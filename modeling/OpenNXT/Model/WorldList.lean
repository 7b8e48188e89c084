import OpenNXT.Model.WorldListEntry
import Mathlib.Data.List.Nodup
import Mathlib.Data.List.Perm.Basic

/-! The world list: requests are answered with what changed, and the reply is taken over. -/
namespace OpenNXT.Model
open Buffer Ext

/-- A chunk of a reply. -/
structure WorldListFetchReply where
  lastChunk : Bool
  chunk : List Byte

structure WorldList where
  entries : List WorldListEntry := []
  previousPartialHash : Word := 0
  buffer : Option (List Byte) := none
  lowestEntry : ℕ := 0
  highestEntry : ℕ := 0
  entryCount : ℕ := 0
  unsortedEntries : List (Option WorldListEntry) := []
  checksum : Word := 0
  deriving DecidableEq

namespace WorldList

def contentHashCode (entries : List WorldListEntry) : Word :=
  combine 1 (entries.map WorldListEntry.hashCode)

def hashCode (w : WorldList) : Word := contentHashCode w.entries

def partialHash (entries : List WorldListEntry) : Word :=
  combine 1 (entries.map WorldListEntry.partialHash)

/-- The previous hash is updated if this returns true. -/
def requiresFullUpdate (w : WorldList) : Bool × WorldList :=
  if partialHash w.entries = w.previousPartialHash then (false, w)
  else (true, { w with previousPartialHash := partialHash w.entries })

/-- Every location once, where it first occurs. -/
def uniqueLocations (entries : List WorldListEntry) : List WorldListLocation :=
  entries.foldl (fun locations e =>
    if e.location ∈ locations then locations else locations ++ [e.location]) []

def minId (entries : List WorldListEntry) : ℤ :=
  min 0 (if entries = [] then 0
    else entries.foldl (fun low e => if e.id.toInt < low then e.id.toInt else low) 0x7fffffff)

def maxId (entries : List WorldListEntry) : ℤ :=
  if entries = [] then 0
  else entries.foldl (fun high e => if high < e.id.toInt then e.id.toInt else high) (-0x80000000)

/-- The body of a full reply. `none` is an exception. -/
def writeBody (entries : List WorldListEntry) (checksum : Word) : Option (List Byte) := do
  let count ← writeSmartShort (uniqueLocations entries).length
  let locations ← (uniqueLocations entries).mapM writeLocation
  let low ← writeSmartShort (minId entries)
  let high ← writeSmartShort (maxId entries)
  let size ← writeSmartShort entries.length
  let worlds ← entries.mapM (writeEntry (uniqueLocations entries))
  return count ++ (locations.flatten ++ (low ++ (high ++ (size ++ (worlds.flatten ++
    writeInt checksum)))))

def writePlayercounts (entries : List WorldListEntry) : Option (List Byte) := do
  let counts ← entries.mapM writePlayercount
  return counts.flatten

/-- A reply that is not empty. -/
def writeReply (entries : List WorldListEntry) (checksum : Word) (full : Bool) :
    Option (List Byte) := do
  let body ← if full then writeBody entries checksum else some []
  let counts ← writePlayercounts entries
  return 2 :: (if full then 1 else 0) :: (body ++ counts)

/-- At most so many chunks of at most 2999 bytes. -/
def chunksFrom : ℕ → List Byte → List WorldListFetchReply
  | 0, _ => []
  | n + 1, bytes =>
    if bytes = [] then []
    else ⟨(bytes.drop 2999).isEmpty, bytes.take 2999⟩ :: chunksFrom n (bytes.drop 2999)

/-- The chunks of a buffer: each takes a byte at least. -/
def chunks (bytes : List Byte) : List WorldListFetchReply := chunksFrom bytes.length bytes

/-- The chunks that are sent; `none` is an exception. -/
def handleRequest (w : WorldList) (oldChecksum : Word) :
    WorldList × Option (List WorldListFetchReply) :=
  let checksum := w.hashCode
  if checksum = oldChecksum then (w, some [⟨true, [0]⟩])
  else
    let (full, w) := w.requiresFullUpdate
    (w, (writeReply w.entries checksum full).map chunks)

/-- `arrayOfNulls(highestEntry - lowestEntry + 1)`; a negative size is an exception. -/
def arrayOfNulls (lowestEntry highestEntry : ℕ) : Option (List (Option WorldListEntry)) :=
  if highestEntry + 1 < lowestEntry then none
  else some (List.replicate (highestEntry + 1 - lowestEntry) none)

/-- An index exception is `none`. -/
def storeEntry (unsorted : List (Option WorldListEntry)) (read : ℕ × WorldListEntry) :
    Option (List (Option WorldListEntry)) :=
  if read.1 < unsorted.length then some (unsorted.set read.1 (some read.2)) else none

def storePlayercount (unsorted : List (Option WorldListEntry)) (read : ℕ × Word) :
    Option (List (Option WorldListEntry)) :=
  if read.1 < unsorted.length then
    some (unsorted.modify read.1 (Option.map fun e => { e with playercount := read.2 }))
  else none

def decodeBody (w : WorldList) : Reader WorldList := do
  let count ← readSmartShort
  let locations ← Reader.times count readLocation
  let lowestEntry ← readSmartShort
  let highestEntry ← readSmartShort
  let entryCount ← readSmartShort
  let nulls ← Reader.ofOption (arrayOfNulls lowestEntry highestEntry)
  let read ← Reader.times entryCount (readEntry locations lowestEntry)
  let unsorted ← Reader.ofOption (read.foldlM storeEntry nulls)
  let checksum ← readInt
  return { w with
    lowestEntry := lowestEntry, highestEntry := highestEntry, entryCount := entryCount
    unsortedEntries := unsorted, checksum := checksum }

def updateBody (w : WorldList) : Reader WorldList := do
  let read ← Reader.times w.entryCount readPlayercount
  let unsorted ← Reader.ofOption (read.foldlM storePlayercount w.unsortedEntries)
  return { w with unsortedEntries := unsorted }

/-- The entries from the lowest to the highest; a place without an entry is skipped. `none` is an
exception: a place outside the array, or a count that is not the number of entries. -/
def collect (w : WorldList) : Option (List WorldListEntry) :=
  let places := w.highestEntry + 1 - w.lowestEntry
  if w.unsortedEntries.length < places then none
  else
    let found := (w.unsortedEntries.take places).reduceOption
    if found.length = w.entryCount then some found else none

/-- A full body, or none. -/
def decodeUpdate (w : WorldList) (full : Word) : Reader WorldList :=
  if full = 1 then (do let w ← w.decodeBody; w.updateBody) else w.updateBody

def decode (w : WorldList) (data : List Byte) : Option WorldList := do
  let (kind, data) ← readUnsignedByte data
  if kind ≠ 2 then some w
  else do
    let (full, data) ← readUnsignedByte data
    let (w, data) ← w.decodeUpdate full data
    -- Bytes that are left over are only warned about.
    if data ≠ [] then some w
    else do
      let entries ← w.collect
      return { w with entries := entries }

/-- `none` is an exception. -/
def handle (w : WorldList) (reply : WorldListFetchReply) : Option WorldList :=
  let buffer := w.buffer.getD [] ++ reply.chunk
  if reply.lastChunk then do
    let w ← decode { w with buffer := some buffer } buffer
    return { w with buffer := none }
  else some { w with buffer := some buffer }

section Chunks

private theorem foldlM_handle_chunksFrom (n : ℕ) (w : WorldList) (bytes : List Byte)
    (hne : bytes ≠ []) (hn : bytes.length ≤ n) :
    (chunksFrom n bytes).foldlM handle w = (do
      let data := w.buffer.getD [] ++ bytes
      let w ← decode { w with buffer := some data } data
      return { w with buffer := none }) := by
  induction n generalizing w bytes with
  | zero =>
    have hnil := List.length_eq_zero_iff.mp (Nat.le_zero.mp hn)
    exact absurd hnil hne
  | succ n ih =>
    rw [chunksFrom, if_neg hne, List.foldlM_cons]
    have hpos := List.length_pos_iff.mpr hne
    have hsplit : bytes.take 2999 ++ bytes.drop 2999 = bytes := List.take_append_drop 2999 bytes
    by_cases hlast : bytes.drop 2999 = []
    · rw [hlast, List.append_nil] at hsplit
      have hempty : chunksFrom n [] = [] := by
        cases n <;> rfl
      rw [hlast, hsplit, hempty]
      unfold handle
      simp only [List.isEmpty_nil, if_true]
      cases decode { w with buffer := some (w.buffer.getD [] ++ bytes) }
        (w.buffer.getD [] ++ bytes) <;> rfl
    · have hshorter : (bytes.drop 2999).length ≤ n := by
        rw [List.length_drop]
        omega
      have hmore : (bytes.drop 2999).isEmpty = false := by
        rw [List.isEmpty_eq_false_iff]
        exact hlast
      unfold handle at ih ⊢
      rw [hmore]
      simp only [Bool.false_eq_true, if_false, Option.bind_eq_bind, Option.bind_some]
      have hrest := ih { w with buffer := some (w.buffer.getD [] ++ bytes.take 2999) }
        (bytes.drop 2999) hlast hshorter
      simp only [Option.getD_some, List.append_assoc, hsplit] at hrest
      exact hrest

/-- The client puts the chunks of a reply together, and decodes them once. -/
theorem foldlM_handle_chunks (w : WorldList) (hbuffer : w.buffer = none) {bytes : List Byte}
    (hne : bytes ≠ []) :
    (chunks bytes).foldlM handle w = (do
      let w ← decode { w with buffer := some bytes } bytes
      return { w with buffer := none }) := by
  have h := foldlM_handle_chunksFrom bytes.length w bytes hne le_rfl
  rw [hbuffer] at h
  exact h

end Chunks

end WorldList

end OpenNXT.Model
