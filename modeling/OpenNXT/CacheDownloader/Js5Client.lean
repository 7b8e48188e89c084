import OpenNXT.Data.SortedMap
import OpenNXT.Decoding.Decoder
import OpenNXT.Net.Js5Session
import Mathlib.Logic.Function.Basic

/-! The client's side of a JS5 connection: outstanding requests, and the decoder that completes
them. -/
namespace OpenNXT.CacheDownloader
open Buffer Data Decoding Net

/-- A buffer that is filled from its start. -/
structure ByteBuffer where
  capacity : ℕ
  written : List Byte
  fits : written.length ≤ capacity
  deriving DecidableEq

namespace ByteBuffer

/-- `none` is an exception, a negative size. -/
def allocate (size : Word) : Option ByteBuffer :=
  if size.toInt < 0 then none else some ⟨size.toNat, [], Nat.zero_le _⟩

/-- `none` is an overflow. -/
def put (b : ByteBuffer) (bytes : List Byte) : Option ByteBuffer :=
  if h : (b.written ++ bytes).length ≤ b.capacity then some ⟨b.capacity, b.written ++ bytes, h⟩
  else none

def position (b : ByteBuffer) : ℕ := b.written.length

theorem put_eq {b : ByteBuffer} {bytes : List Byte} (h : b.position + bytes.length ≤ b.capacity) :
    b.put bytes = some ⟨b.capacity, b.written ++ bytes, by rwa [List.length_append]⟩ := by
  unfold put
  rw [dif_pos]

theorem put_some {b b' : ByteBuffer} {bytes : List Byte} (h : b.put bytes = some b') :
    b'.capacity = b.capacity ∧ b'.written = b.written ++ bytes := by
  unfold put at h
  split_ifs at h
  cases h
  exact ⟨rfl, rfl⟩

theorem put_put {b b' : ByteBuffer} {xs ys : List Byte} (h : b.put xs = some b') :
    b'.put ys = b.put (xs ++ ys) := by
  unfold put at *
  split_ifs at h
  cases h
  simp only [List.append_assoc]

end ByteBuffer

/-- `completed` is the latch, and `offset` counts in blocks of 102400 bytes. -/
structure ArchiveRequest where
  index : Byte
  archive : Word
  priority : Bool := false
  size : Word := 0
  crc : Word := 0
  version : Word := 0
  completed : Bool := false
  crashed : Bool := false
  httpAttempts : ℕ := 0
  offset : ℕ := 0
  buffer : Option ByteBuffer := none
  deriving DecidableEq

/-- `(index.toLong() shl 32) or archive.toLong()` -/
def longKey (index : Byte) (archive : Word) : ℕ :=
  (index.setWidth 64 <<< 32 ||| archive.signExtend 64).toNat

/-- An archive that is not negative has a key of its own. -/
theorem longKey_eq {index : Byte} {archive : Word} (h : archive.msb = false) :
    longKey index archive = index.toNat * 2 ^ 32 + archive.toNat := by
  have hlt := archive.isLt
  have hindex := index.isLt
  have hshift : (index.setWidth 64 <<< 32).toNat = index.toNat <<< 32 := by
    rw [BitVec.toNat_shiftLeft, BitVec.toNat_setWidth, Nat.shiftLeft_eq, Nat.shiftLeft_eq]
    omega
  have hext : (archive.signExtend 64).toNat = archive.toNat := by
    rw [BitVec.signExtend_eq_setWidth_of_msb_false h, BitVec.toNat_setWidth,
      Nat.mod_eq_of_lt (by omega)]
  rw [longKey, BitVec.toNat_or, hshift, hext, ← Nat.shiftLeft_add_eq_or_of_lt hlt, Nat.shiftLeft_eq]

theorem longKey_injective {index index' : Byte} {archive archive' : Word}
    (h : archive.msb = false) (h' : archive'.msb = false)
    (hkey : longKey index archive = longKey index' archive') :
    index = index' ∧ archive = archive' := by
  rw [longKey_eq h, longKey_eq h'] at hkey
  have hlt := archive.isLt
  have hlt' := archive'.isLt
  constructor <;> apply BitVec.eq_of_toNat_eq <;> omega

namespace ArchiveRequest

def key (q : ArchiveRequest) : ℕ := longKey q.index q.archive

/-- The bytes of the buffer that the server does not send. -/
def trailer (q : ArchiveRequest) : ℕ := if q.index = 255 then 0 else 2

/-- After the next `n` bytes of a block. -/
def received (buffer : ByteBuffer) (n : ℕ) (q : ArchiveRequest) : ArchiveRequest :=
  { q with buffer := some buffer, offset := q.offset + n }

end ArchiveRequest

/-- Requests are shared objects, and outlive the clients they are assigned to. -/
abbrev Ref := ℕ

/-- `completions` records the calls of `notifyCompleted`. -/
structure Heap where
  requests : Ref → ArchiveRequest
  completions : List Ref := []

namespace Heap

def modify (h : Heap) (r : Ref) (f : ArchiveRequest → ArchiveRequest) : Heap :=
  { h with requests := Function.update h.requests r (f (h.requests r)) }

def notifyCompleted (h : Heap) (r : Ref) : Heap :=
  { h.modify r (fun q => { q with completed := true }) with completions := h.completions ++ [r] }

@[simp] theorem requests_modify_self (h : Heap) (r : Ref) (f : ArchiveRequest → ArchiveRequest) :
    (h.modify r f).requests r = f (h.requests r) := by
  simp [modify]

theorem requests_modify_of_ne (h : Heap) {r p : Ref} (f : ArchiveRequest → ArchiveRequest)
    (hne : p ≠ r) : (h.modify r f).requests p = h.requests p := by
  simp [modify, hne]

@[simp] theorem completions_modify (h : Heap) (r : Ref) (f : ArchiveRequest → ArchiveRequest) :
    (h.modify r f).completions = h.completions := rfl

@[simp] theorem modify_modify (h : Heap) (r : Ref) (f g : ArchiveRequest → ArchiveRequest) :
    (h.modify r f).modify r g = h.modify r (fun q => g (f q)) := by
  simp [modify]

@[simp] theorem completions_notifyCompleted (h : Heap) (r : Ref) :
    (h.notifyCompleted r).completions = h.completions ++ [r] := rfl

@[simp] theorem requests_notifyCompleted_self (h : Heap) (r : Ref) :
    (h.notifyCompleted r).requests r = { h.requests r with completed := true } := by
  simp [notifyCompleted, modify]

theorem requests_notifyCompleted_of_ne (h : Heap) {r p : Ref} (hne : p ≠ r) :
    (h.notifyCompleted r).requests p = h.requests p := by
  simp [notifyCompleted, modify, hne]

end Heap

inductive Js5ClientState
  | handshake
  | prefetches
  | active
  | crashed
  | disconnected
  deriving DecidableEq

def Js5ClientState.canRead : Js5ClientState → Bool
  | .handshake | .prefetches | .active => true
  | .crashed | .disconnected => false

inductive Js5Packet
  | handshakeResponse (code : Byte)
  | prefetches (prefetches : List Word)
  | requestFile (request : RequestFile)
  | connectionInitialized (value build : Word)
  | loggedIn (build : Word)
  | loggedOut (build : Word)
  deriving DecidableEq

/-- A client and its channel; `sent` is what was written to that. -/
structure Js5Client where
  version : Word := 0
  bootstrapLoggedIn : Bool := false
  state : Js5ClientState := .handshake
  isOpen : Bool := true
  downloadingHighPriority : SortedMap ℕ Ref := .empty
  downloadingLowPriority : SortedMap ℕ Ref := .empty
  current : Option Ref := none
  connected : Bool := false
  prefetches : Option (List Word) := none
  sent : List Js5Packet := []

namespace Js5Client

def downloading (client : Js5Client) (priority : Bool) : SortedMap ℕ Ref :=
  if priority then client.downloadingHighPriority else client.downloadingLowPriority

def setDownloading (client : Js5Client) (priority : Bool) (m : SortedMap ℕ Ref) : Js5Client :=
  if priority then { client with downloadingHighPriority := m }
  else { client with downloadingLowPriority := m }

def getRequest (client : Js5Client) (priority : Bool) (index : Byte) (archive : Word) : Option Ref :=
  (client.downloading priority).get? (longKey index archive)

def withoutRequest (client : Js5Client) (q : ArchiveRequest) : Js5Client :=
  client.setDownloading q.priority ((client.downloading q.priority).erase q.key)

/-- `none` where the request was not there. -/
def removeRequest (client : Js5Client) (q : ArchiveRequest) : Option Js5Client :=
  if (client.downloading q.priority).get? q.key = none then none else some (client.withoutRequest q)

/-- One turn of the loop of `addAllUnchecked`. -/
def assign (client : Js5Client) (r : Ref) (q : ArchiveRequest) : Js5Client :=
  let client := client.setDownloading q.priority ((client.downloading q.priority).insert q.key r)
  { client with sent := client.sent ++
      [.requestFile ⟨q.priority, q.index, q.archive, client.version⟩] }

def addAllUnchecked (client : Js5Client) (h : Heap) (requests : List Ref) : Js5Client :=
  if client.state ≠ .active ∨ ¬ client.isOpen then client
  else requests.foldl (fun client r => client.assign r (h.requests r)) client

def countAllowedRequests (client : Js5Client) : ℕ :=
  if client.state ≠ .active ∨ ¬ client.isOpen then 0
  else 500 - max client.downloadingLowPriority.size client.downloadingHighPriority.size

/-- Everything a client has outstanding. -/
def outstanding (client : Js5Client) : List Ref :=
  client.downloadingHighPriority.values ++ client.downloadingLowPriority.values

def markAsCrashed (client : Js5Client) (h : Heap) : Heap :=
  client.outstanding.foldl (fun h r => h.modify r fun q => { q with crashed := true }) h

def notifyPrefetches (client : Js5Client) (prefetches : List Word) : Js5Client :=
  { client with prefetches := some prefetches }

/-- No request is outstanding, and none is being received. -/
def isIdle (client : Js5Client) : Bool :=
  client.current.isNone && client.downloadingHighPriority.isEmpty &&
    client.downloadingLowPriority.isEmpty

@[simp] theorem downloading_setDownloading (client : Js5Client) (p q : Bool) (m : SortedMap ℕ Ref) :
    (client.setDownloading p m).downloading q = if p = q then m else client.downloading q := by
  cases p <;> cases q <;> rfl

@[simp] theorem setDownloading_state (client : Js5Client) (p : Bool) (m : SortedMap ℕ Ref) :
    (client.setDownloading p m).state = client.state := by
  cases p <;> rfl

@[simp] theorem setDownloading_isOpen (client : Js5Client) (p : Bool) (m : SortedMap ℕ Ref) :
    (client.setDownloading p m).isOpen = client.isOpen := by
  cases p <;> rfl

@[simp] theorem setDownloading_current (client : Js5Client) (p : Bool) (m : SortedMap ℕ Ref) :
    (client.setDownloading p m).current = client.current := by
  cases p <;> rfl

@[simp] theorem setDownloading_prefetches (client : Js5Client) (p : Bool) (m : SortedMap ℕ Ref) :
    (client.setDownloading p m).prefetches = client.prefetches := by
  cases p <;> rfl

theorem get?_withoutRequest (client : Js5Client) (q : ArchiveRequest) (p : Bool) (k : ℕ) :
    ((client.withoutRequest q).downloading p).get? k =
      if q.priority = p ∧ k = q.key then none else (client.downloading p).get? k := by
  unfold withoutRequest
  rw [downloading_setDownloading]
  by_cases hp : q.priority = p
  · subst hp
    simp
  · simp [hp]

theorem isIdle_iff {client : Js5Client} : client.isIdle ↔
    client.current = none ∧ ∀ p k, (client.downloading p).get? k = none := by
  unfold isIdle
  simp only [Bool.and_eq_true, Option.isNone_iff_eq_none, SortedMap.isEmpty_iff]
  constructor
  · rintro ⟨⟨hcur, hhigh⟩, hlow⟩
    refine ⟨hcur, fun p k => ?_⟩
    cases p
    · exact hlow k
    · exact hhigh k
  · rintro ⟨hcur, hall⟩
    exact ⟨⟨hcur, hall true⟩, hall false⟩

section Assign
variable (client : Js5Client) (h : Heap)

theorem get?_assign (r : Ref) (q : ArchiveRequest) (p : Bool) (k : ℕ) :
    ((client.assign r q).downloading p).get? k =
      if q.priority = p ∧ k = q.key then some r else (client.downloading p).get? k := by
  change ((client.setDownloading q.priority _).downloading p).get? k = _
  rw [downloading_setDownloading]
  by_cases hp : q.priority = p
  · subst hp
    simp
  · simp [hp]

private theorem fold_assign (requests : List Ref) :
    let after := requests.foldl (fun client r => client.assign r (h.requests r)) client
    after.state = client.state ∧ after.isOpen = client.isOpen ∧ after.current = client.current ∧
      after.prefetches = client.prefetches := by
  induction requests generalizing client with
  | nil => exact ⟨rfl, rfl, rfl, rfl⟩
  | cons r requests ih =>
    rw [List.foldl_cons]
    obtain ⟨hstate, hopen, hcur, hpre⟩ := ih (client.assign r (h.requests r))
    exact ⟨hstate.trans (setDownloading_state _ _ _), hopen.trans (setDownloading_isOpen _ _ _),
      hcur.trans (setDownloading_current _ _ _), hpre.trans (setDownloading_prefetches _ _ _)⟩

private theorem get?_fold_assign_of_ne (requests : List Ref) {p : Bool} {k : ℕ}
    (hne : ∀ r ∈ requests, ¬ ((h.requests r).priority = p ∧ k = (h.requests r).key)) :
    ((requests.foldl (fun client r => client.assign r (h.requests r)) client).downloading p).get? k =
      (client.downloading p).get? k := by
  induction requests generalizing client with
  | nil => rfl
  | cons r requests ih =>
    rw [List.foldl_cons, ih _ fun s hs => hne s (List.mem_cons_of_mem r hs), get?_assign,
      if_neg (hne r List.mem_cons_self)]

/-- Every request is filed, and nothing but the requests and what was there before. -/
private theorem get?_fold_assign (requests : List Ref)
    (hdistinct : requests.Pairwise fun r s =>
      ¬ ((h.requests r).priority = (h.requests s).priority ∧ (h.requests r).key = (h.requests s).key)) :
    (∀ r ∈ requests, ((requests.foldl (fun client r => client.assign r (h.requests r))
      client).downloading (h.requests r).priority).get? (h.requests r).key = some r) ∧
    (∀ p k r, ((requests.foldl (fun client r => client.assign r (h.requests r))
      client).downloading p).get? k = some r →
      (client.downloading p).get? k = some r ∨
        (r ∈ requests ∧ (h.requests r).priority = p ∧ (h.requests r).key = k)) := by
  induction requests generalizing client with
  | nil => exact ⟨fun r hr => (List.not_mem_nil hr).elim, fun p k r hget => Or.inl hget⟩
  | cons r requests ih =>
    obtain ⟨hfirst, hrest⟩ := List.pairwise_cons.mp hdistinct
    obtain ⟨hfiled, honly⟩ := ih (client.assign r (h.requests r)) hrest
    refine ⟨fun s hs => ?_, fun p k s hget => ?_⟩
    · rw [List.foldl_cons]
      rcases List.mem_cons.mp hs with rfl | hs
      · rw [get?_fold_assign_of_ne _ h requests fun u hu hsame =>
          hfirst u hu ⟨hsame.1.symm, hsame.2⟩, get?_assign, if_pos ⟨rfl, rfl⟩]
      · exact hfiled s hs
    · rw [List.foldl_cons] at hget
      rcases honly p k s hget with hold | ⟨hs, hp, hk⟩
      · rw [get?_assign] at hold
        split_ifs at hold with hsame
        · cases hold
          exact Or.inr ⟨List.mem_cons_self, hsame.1, hsame.2.symm⟩
        · exact Or.inl hold
      · exact Or.inr ⟨List.mem_cons_of_mem r hs, hp, hk⟩

end Assign

/-- An active client to which nothing was assigned yet. -/
structure Fresh (client : Js5Client) : Prop where
  active : client.state = .active
  isOpen : client.isOpen = true
  outstanding : ∀ p k, (client.downloading p).get? k = none
  current : client.current = none

section Fresh
variable {client : Js5Client} {h : Heap} {requests : List Ref}

theorem addAllUnchecked_of_active (hactive : client.state = .active) (hopen : client.isOpen = true) :
    client.addAllUnchecked h requests =
      requests.foldl (fun client r => client.assign r (h.requests r)) client := by
  unfold addAllUnchecked
  rw [if_neg (by simp [hactive, hopen])]

theorem Fresh.addAllUnchecked (hfresh : Fresh client) (h : Heap) (requests : List Ref) :
    (client.addAllUnchecked h requests).state = .active ∧
      (client.addAllUnchecked h requests).isOpen = true ∧
      (client.addAllUnchecked h requests).current = none ∧
      (client.addAllUnchecked h requests).prefetches = client.prefetches := by
  rw [addAllUnchecked_of_active hfresh.active hfresh.isOpen]
  obtain ⟨hstate, hopen, hcur, hpre⟩ := fold_assign client h requests
  exact ⟨hstate.trans hfresh.active, hopen.trans hfresh.isOpen, hcur.trans hfresh.current,
    hpre⟩

theorem Fresh.get?_addAllUnchecked (hfresh : Fresh client)
    (hdistinct : requests.Pairwise fun r s =>
      ¬ ((h.requests r).priority = (h.requests s).priority ∧ (h.requests r).key = (h.requests s).key)) :
    (∀ r ∈ requests, ((client.addAllUnchecked h requests).downloading (h.requests r).priority).get?
      (h.requests r).key = some r) ∧
    (∀ p k r, ((client.addAllUnchecked h requests).downloading p).get? k = some r →
      r ∈ requests ∧ (h.requests r).priority = p ∧ (h.requests r).key = k) := by
  rw [addAllUnchecked_of_active hfresh.active hfresh.isOpen]
  obtain ⟨hfiled, honly⟩ := get?_fold_assign client h requests hdistinct
  refine ⟨hfiled, fun p k r hget => ?_⟩
  rcases honly p k r hget with hold | hnew
  · rw [hfresh.outstanding] at hold
    cases hold
  · exact hnew

end Fresh

end Js5Client

/-- What the decoder of a client works on. -/
structure Connection where
  client : Js5Client
  heap : Heap

/-- `n` ints in a row. -/
def readInts : ℕ → Reader (List Word)
  | 0 => pure []
  | n + 1 => do
    let w ← Reader.int
    let ws ← readInts n
    return w :: ws

namespace Js5ClientDecoder

abbrev Outcome := Decoded Connection Byte Js5Packet

def modifyRequest (c : Connection) (r : Ref) (f : ArchiveRequest → ArchiveRequest) : Connection :=
  { c with heap := c.heap.modify r f }

/-- The position at which the buffer of a request is complete. -/
def totalSize (q : ArchiveRequest) (buffer : ByteBuffer) : ℤ := (buffer.capacity : ℤ) - q.trailer

/-- The last byte of a request has arrived. -/
def complete (c : Connection) (r : Ref) (rest : List Byte) : Outcome :=
  match c.client.removeRequest (c.heap.requests r) with
  | none => { state := c, unread := rest, thrown := true }
  | some client =>
    { state := ⟨{ client with current := none }, c.heap.notifyCompleted r⟩, unread := rest }

/-- `readUnsignedByte()`, then `readInt()`; `none` where fewer than five bytes are there. -/
def readByteInt : List Byte → Option (Byte × Word × List Byte)
  | b :: b₁ :: b₂ :: b₃ :: b₄ :: rest =>
    some (b, BitVec.ofNat 32 (ofBytes [b₁, b₂, b₃, b₄]), rest)
  | _ => none

/-- `none` waits for more input. -/
def readHeader (c : Connection) (buf : List Byte) : Option Outcome :=
  match readByteInt buf with
  | none => none
  | some (index, hash, rest) =>
    let archive := hash &&& 0x7fffffff
    let priority := hash &&& 0x80000000 = 0
    match c.client.getRequest priority index archive with
    | none => some { state := c, unread := rest, thrown := true }
    | some r => some
      { state := modifyRequest { c with client := { c.client with current := some r } } r
          fun q => { q with offset := 5 },
        unread := rest }

/-- The size of the buffer a container's header asks for. -/
def bufferSize (q : ArchiveRequest) (compression : Byte) (fileSize : Word) : Word :=
  fileSize + (if compression = 0 then 5 else 9) + if q.index = 255 then 0 else 2

/-- `none` waits for more input. -/
def readContainerHeader (c : Connection) (r : Ref) (buf : List Byte) : Option Outcome :=
  match readByteInt buf with
  | none => none
  | some (compression, fileSize, rest) =>
    let size := bufferSize (c.heap.requests r) compression fileSize
    match ByteBuffer.allocate size with
    | none => some
      { state := modifyRequest c r fun q => { q with size := size }, unread := rest, thrown := true }
    | some fresh =>
      match (fresh.put [compression]).bind (fun b => b.put (putInt fileSize)) with
      | none => some
        { state := modifyRequest c r fun q =>
            { q with size := size, buffer := some ((fresh.put [compression]).getD fresh) },
          unread := rest, thrown := true }
      | some buffer =>
        let c := modifyRequest c r fun q =>
          { q with size := size, buffer := some buffer, offset := 10 }
        if (buffer.position : ℤ) = totalSize (c.heap.requests r) buffer then
          some (complete c r rest)
        else some { state := c, unread := rest }

/-- `block` was read, and goes into the buffer. -/
def receive (c : Connection) (r : Ref) (buffer : ByteBuffer) (block rest : List Byte) : Outcome :=
  match buffer.put block with
  | none => { state := c, unread := rest, thrown := true }
  | some buffer =>
    let c := modifyRequest c r (.received buffer block.length)
    if (buffer.position : ℤ) = totalSize (c.heap.requests r) buffer then complete c r rest
    else if (c.heap.requests r).offset = 102400 then
      { state := modifyRequest { c with client := { c.client with current := none } } r
          fun q => { q with offset := 0 },
        unread := rest }
    else { state := c, unread := rest }

/-- A block of negative size is an exception. -/
def readBlock (c : Connection) (r : Ref) (buffer : ByteBuffer) (buf : List Byte) : Outcome :=
  let q := c.heap.requests r
  let remaining := totalSize q buffer - buffer.position
  let blockSize := min (min ((102400 : ℤ) - q.offset) remaining) buf.length
  if blockSize < 0 then { state := c, unread := buf, thrown := true }
  else receive c r buffer (buf.take blockSize.toNat) (buf.drop blockSize.toNat)

def decodeActive (c : Connection) (buf : List Byte) : Outcome :=
  let wait : Outcome := { state := c, unread := buf }
  if c.client.isIdle ∧ 31 * 4 ≤ buf.length then
    match readInts 31 buf with
    | none => { wait with thrown := true }
    | some (prefetches, rest) =>
      { state := { c with client := c.client.notifyPrefetches prefetches }, unread := rest }
  else match c.client.current with
    | none => (readHeader c buf).getD wait
    | some r =>
      match (c.heap.requests r).buffer with
      | none => (readContainerHeader c r buf).getD wait
      | some buffer => readBlock c r buffer buf

/-- The length check of the prefetches is one int short: with 120 to 123 bytes the read throws. -/
def decode (c : Connection) (buf : List Byte) : Outcome :=
  if ¬ c.client.isOpen ∨ ¬ c.client.state.canRead then { state := c, unread := [] }
  else match c.client.state with
    | .handshake =>
      match buf with
      | [] => { state := c, unread := [] }
      | code :: rest => { state := c, unread := rest, out := [.handshakeResponse code] }
    | .prefetches =>
      if buf.length < 30 * 4 then { state := c, unread := buf }
      else match readInts 31 buf with
        | none => { state := c, unread := buf.drop (30 * 4), thrown := true }
        | some (prefetches, rest) => { state := c, unread := rest, out := [.prefetches prefetches] }
    | .active => decodeActive c buf
    | .crashed | .disconnected => { state := c, unread := buf }

end Js5ClientDecoder

namespace Js5ClientHandler

def exceptionCaught (c : Connection) : Connection :=
  { c with client := { c.client with state := .crashed, isOpen := false } }

def channelRead0 (c : Connection) : Js5Packet → Connection
  | .handshakeResponse code =>
    if code ≠ 0 then exceptionCaught c
    else
      let version := c.client.version
      { c with client := { c.client with
          state := .active, connected := true,
          sent := c.client.sent ++ [.connectionInitialized 5 version,
            if c.client.bootstrapLoggedIn then .loggedIn version else .loggedOut version] } }
  | .prefetches prefetches => { c with client := c.client.notifyPrefetches prefetches }
  | _ => exceptionCaught c

end Js5ClientHandler

end OpenNXT.CacheDownloader
