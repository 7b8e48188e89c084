import OpenNXT.Net.Js5Encoder
import OpenNXT.Transition.Halts
import Mathlib.Data.Finset.Basic

/-! The server's side of a JS5 connection: requests in, blocks out. -/
namespace OpenNXT.Net
open Buffer Filesystem Transition

/-- `index` is read as an unsigned byte. -/
structure RequestFile where
  priority : Bool
  index : Byte
  archive : Word
  build : Word := 0
  deriving DecidableEq

structure ArchiveKey where
  index : Byte
  archive : Word
  deriving DecidableEq

def RequestFile.archiveKey (r : RequestFile) : ArchiveKey := ⟨r.index, r.archive⟩

namespace Js5Session

/-- What a session reads beside its own state. A fetch or a read that throws is `none`; a file
that is not there is `some none`. -/
structure Environment where
  codecs : Codecs
  build : Word
  checksumTable : List Byte
  readReferenceTable : Word → Option (Option (List Byte))
  read : Byte → Word → Option (Option (List Byte))
  fetchRetailLoggedOutArchive : Word → Byte → Word → Bool → Option (Option (List Byte))
  preferRetailLoggedOutArchives : Word → Bool

structure PendingResponse where
  priority : Bool
  index : Byte
  archive : Word
  data : List Byte
  remaining : ℤ
  totalLength : ℤ
  deriving DecidableEq

/-- The queues of one priority. -/
structure Lane where
  requests : List RequestFile := []
  responses : List PendingResponse := []
  inFlight : Finset ArchiveKey := ∅

structure Session where
  high : Lane := {}
  low : Lane := {}
  loggedIn : Bool := false
  xorKey : Word := 0
  written : List Byte := []

namespace Session

def lane (s : Session) (priority : Bool) : Lane := if priority then s.high else s.low

def setLane (s : Session) (priority : Bool) (l : Lane) : Session :=
  if priority then { s with high := l } else { s with low := l }

def write (s : Session) (bytes : List Byte) : Session := { s with written := s.written ++ bytes }

@[simp] theorem lane_setLane (s : Session) (p q : Bool) (l : Lane) :
    (s.setLane p l).lane q = if p = q then l else s.lane q := by
  cases p <;> cases q <;> rfl

@[simp] theorem setLane_loggedIn (s : Session) (p : Bool) (l : Lane) :
    (s.setLane p l).loggedIn = s.loggedIn := by
  cases p <;> rfl

@[simp] theorem setLane_xorKey (s : Session) (p : Bool) (l : Lane) :
    (s.setLane p l).xorKey = s.xorKey := by
  cases p <;> rfl

@[simp] theorem setLane_written (s : Session) (p : Bool) (l : Lane) :
    (s.setLane p l).written = s.written := by
  cases p <;> rfl

@[simp] theorem lane_write (s : Session) (bytes : List Byte) (p : Bool) :
    (s.write bytes).lane p = s.lane p := rfl

@[simp] theorem write_loggedIn (s : Session) (bytes : List Byte) :
    (s.write bytes).loggedIn = s.loggedIn := rfl

@[simp] theorem write_xorKey (s : Session) (bytes : List Byte) :
    (s.write bytes).xorKey = s.xorKey := rfl

end Session

/-- Serve an archive without its version trailer. `none` is an exception. -/
def stripVersionTrailer (codecs : Codecs) (bytes : List Byte) : Option (List Byte) := do
  let container ← Container.decode codecs bytes
  if container.version = -1 ∨ bytes.length < 2 then return bytes
  else return bytes.take (bytes.length - 2)

def formatArchivePayload (codecs : Codecs) (index : Byte) (raw : List Byte) : Option (List Byte) :=
  if index = 255 then some raw else stripVersionTrailer codecs raw

/-- The local copy; `none` is an exception, `some none` a file that is not there. -/
def localData (env : Environment) (r : RequestFile) : Option (Option (List Byte)) :=
  if r.index = 255 ∧ r.archive = 255 then some (some env.checksumTable)
  else do
    let raw ← if r.index = 255 then env.readReferenceTable r.archive else env.read r.index r.archive
    match raw with
    | none => return none
    | some raw =>
      let bytes ← formatArchivePayload env.codecs r.index raw
      return some bytes

/-- Exceptions of a retail fetch count as a miss. -/
def retailData (env : Environment) (r : RequestFile) : Option (List Byte) :=
  (env.fetchRetailLoggedOutArchive env.build r.index r.archive r.priority).join

def loadFileData (env : Environment) (loggedIn : Bool) (r : RequestFile) : Option (List Byte) :=
  let retailFirstLoggedOutRequest := !loggedIn && env.preferRetailLoggedOutArchives r.build &&
    !(r.index = 255 && r.archive = 255)
  let first := if retailFirstLoggedOutRequest then retailData env r else none
  match first with
  | some bytes => some bytes
  | none =>
    match localData env r with
    | some (some bytes) => some bytes
    | _ => if loggedIn || retailFirstLoggedOutRequest then none else retailData env r

/-- What became of a request that was taken from its queue. -/
inductive Load
  | missing
  | thrown
  | loaded (response : PendingResponse)
  deriving DecidableEq

def load (env : Environment) (loggedIn : Bool) (r : RequestFile) : Load :=
  match loadFileData env loggedIn r with
  | none => .missing
  | some data =>
    match js5ResponseLength data with
    | none => .thrown
    | some totalLength => .loaded
      { priority := r.priority, index := r.index, archive := r.archive, data := data,
        remaining := totalLength.toInt, totalLength := totalLength.toInt }

def removeInFlight (s : Session) (priority : Bool) (key : ArchiveKey) : Session :=
  s.setLane priority { s.lane priority with inFlight := (s.lane priority).inFlight.erase key }

def setRequests (s : Session) (priority : Bool) (requests : List RequestFile) : Session :=
  s.setLane priority { s.lane priority with requests := requests }

def setResponses (s : Session) (priority : Bool) (responses : List PendingResponse) : Session :=
  s.setLane priority { s.lane priority with responses := responses }

/-- The response a lane goes on with. -/
inductive Next
  | none
  | thrown
  | response (r : PendingResponse)

/-- Take requests until one has a file, else the response that waits longest. -/
def pollRequests (env : Environment) (priority : Bool) : List RequestFile → Session → Session × Next
  | [], s =>
    match (s.lane priority).responses with
    | [] => (setRequests s priority [], .none)
    | r :: rest => (setResponses (setRequests s priority []) priority rest, .response r)
  | q :: qs, s =>
    match load env s.loggedIn q with
    | .missing => pollRequests env priority qs (removeInFlight s q.priority q.archiveKey)
    | .thrown => (setRequests s priority qs, .thrown)
    | .loaded r => (setRequests s priority qs, .response r)

def nextPendingResponse (env : Environment) (s : Session) (priority : Bool) : Session × Next :=
  pollRequests env priority (s.lane priority).requests s

/-- A block as far as the budget goes: what was sent, the response after it, and the bytes.
`none` is an exception, a response with less data than its length. -/
def writeResponseBlock (xor : Word) (response : PendingResponse) (budget : ℤ) :
    Option (ℤ × PendingResponse × List Byte) :=
  let payloadBudget := budget - 5
  let payloadBytes := min (min (maxResponseBlockPayloadBytes : ℤ) response.remaining) payloadBudget
  if payloadBytes ≤ 0 then some (0, response, [])
  else if (response.data.length : ℤ) < payloadBytes then none
  else some (payloadBytes + 5,
    { response with
      data := response.data.drop payloadBytes.toNat, remaining := response.remaining - payloadBytes },
    blockHeader xor response.priority response.index response.archive ++
      (response.data.take payloadBytes.toNat).map (xorByte xor))

def recyclePendingResponse (s : Session) (response : PendingResponse) : Session :=
  if 0 < response.remaining then
    setResponses s response.priority ((s.lane response.priority).responses ++ [response])
  else removeInFlight s response.priority ⟨response.index, response.archive⟩

def isInlineCriticalRequest (r : RequestFile) : Bool :=
  r.priority && r.index = 255 && r.archive = 255

def shouldAllowDuplicateWhileLoggedOut (loggedIn : Bool) (r : RequestFile) : Bool :=
  !loggedIn && r.index = 255 && r.archive ≠ 255

def addInFlight (s : Session) (priority : Bool) (key : ArchiveKey) : Session :=
  s.setLane priority { s.lane priority with inFlight := insert key (s.lane priority).inFlight }

def addRequest (s : Session) (r : RequestFile) : Session :=
  setRequests s r.priority ((s.lane r.priority).requests ++ [r])

/-- A duplicate is dropped, the master table is answered at once, and anything else waits in its
queue. A response the encoder rejects is not written. -/
def enqueueRequest (env : Environment) (s : Session) (r : RequestFile) : Session :=
  if r.archiveKey ∈ (s.lane r.priority).inFlight ∧
      ¬ shouldAllowDuplicateWhileLoggedOut s.loggedIn r then s
  else
    let s := addInFlight s r.priority r.archiveKey
    if isInlineCriticalRequest r then
      match loadFileData env s.loggedIn r with
      | some data =>
        let bytes := (Js5Encoder.encode s.xorKey true r.index r.archive data).getD []
        removeInFlight (s.write bytes) r.priority r.archiveKey
      | none => addRequest (removeInFlight s r.priority r.archiveKey) r
    else addRequest s r

/-- Where the thread is in a call of `process`. -/
inductive Thread
  | idle
  | loop (priority : Bool) (limit bytesSent : ℤ)
  | write (priority : Bool) (limit bytesSent : ℤ) (response : PendingResponse)
  | recycle (priority : Bool) (limit bytesSent : ℤ) (response : PendingResponse)

/-- After the loop over one priority. -/
def leaveLoop (priority : Bool) (limit bytesSent : ℤ) : Thread :=
  if priority then .loop false limit bytesSent else .idle

/-- One step of `process`; there is none where it has returned or thrown. -/
def processStep (env : Environment) : Session × Thread → Option (Session × Thread)
  | (_, .idle) => none
  | (s, .loop priority limit bytesSent) =>
    if bytesSent < limit then
      match nextPendingResponse env s priority with
      | (s, .none) => some (s, leaveLoop priority limit bytesSent)
      | (s, .thrown) => some (s, .idle)
      | (s, .response r) => some (s, .write priority limit bytesSent r)
    else some (s, leaveLoop priority limit bytesSent)
  | (s, .write priority limit bytesSent r) =>
    match writeResponseBlock s.xorKey r (limit - bytesSent) with
    | none => some (s, .idle)
    | some (sent, r, bytes) => some (s.write bytes, .recycle priority limit (bytesSent + sent) r)
  | (s, .recycle priority limit bytesSent r) =>
    some (recyclePendingResponse s r, .loop priority limit bytesSent)

/-- `process(limit)` is called. -/
def process (limit : ℤ) : Thread := .loop true limit 0

/-- The steps of a session: its channel's events at any moment, and the thread's own. -/
inductive Step (env : Environment) : Session × Thread → Session × Thread → Prop
  | enqueue (s : Session) (t : Thread) (r : RequestFile) : Step env (s, t) (enqueueRequest env s r, t)
  | updateLoggedInState (s : Session) (t : Thread) (loggedIn : Bool) :
      Step env (s, t) ({ s with loggedIn := loggedIn }, t)
  | xorRequest (s : Session) (t : Thread) (xor : Word) : Step env (s, t) ({ s with xorKey := xor }, t)
  | call (s : Session) (limit : ℤ) : Step env (s, .idle) (s, process limit)
  | process (c d : Session × Thread) (h : processStep env c = some d) : Step env c d

def Reachable (env : Environment) : Session × Thread → Prop :=
  Relation.ReflTransGen (Step env) ({}, .idle)

end Js5Session

end OpenNXT.Net
