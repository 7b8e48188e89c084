import OpenNXT.CacheDownloader.Js5Assigning
import OpenNXT.CacheDownloader.Js5Connection

/-! A client from its handshake on: the prefetch table and the responses arrive in pieces, and
requests are added between any two calls of the decoder. -/
namespace OpenNXT.CacheDownloader
open Buffer Data Decoding Net Js5ClientDecoder

/-- A client's end of a connection, and what the server sent or has still to send to it. -/
structure Download where
  connection : Connection
  unread : List Byte := []
  /-- The decoder is in its loop. -/
  decoding : Bool := false
  arriving : List Byte
  arrived : ℕ := 0
  left : Target → List Byte := fun _ => []
  added : List Ref := []

namespace Download

inductive Event
  | add (requests : List Ref)
  | send (t : Target)
  | arrive (n : ℕ)
  | turn
  deriving DecidableEq

/-- The server answers what it was asked for once. -/
def enqueue (file : Target → List Byte) (h : Heap) (left : Target → List Byte) (r : Ref) :
    Target → List Byte :=
  let t := (h.requests r).target
  if left t = [] then Function.update left t (file t) else left

def add (file : Target → List Byte) (s : Download) (requests : List Ref) : Download :=
  let client := s.connection.client
  let heap := s.connection.heap
  { s with
    connection := ⟨client.addAllUnchecked heap requests, heap⟩
    added := s.added ++ requests
    left := if client.state ≠ .active ∨ ¬ client.isOpen then s.left
      else requests.foldl (enqueue file heap) s.left }

/-- The next block of a response. -/
def send (s : Download) (t : Target) : Download :=
  { s with
    arriving := s.arriving ++ (t.header ++ (s.left t).take maxResponseBlockPayloadBytes)
    left := Function.update s.left t ((s.left t).drop maxResponseBlockPayloadBytes) }

def arrive (s : Download) (n : ℕ) : Download :=
  { s with
    unread := s.unread ++ s.arriving.take n
    decoding := true
    arriving := s.arriving.drop n
    arrived := s.arrived + (s.arriving.take n).length }

def turn (s : Download) : Download :=
  let d := decoder.turn s.connection s.unread
  { s with connection := d.1.state, unread := d.1.unread, decoding := d.2 }

/-- `none` where an event cannot happen. -/
def next (file : Target → List Byte) (s : Download) : Event → Option Download
  | .add requests => some (s.add file requests)
  | .send t => if s.left t = [] then none else some (s.send t)
  | .arrive n => if s.decoding ∨ ¬ s.connection.client.isOpen then none else some (s.arrive n)
  | .turn => if s.decoding then some s.turn else none

/-- The handshake is accepted, and the table follows. -/
def tableStream (table : List Word) : List Byte := table.flatMap putInt

def start (client : Js5Client) (heap : Heap) (table : List Word) : Download where
  connection := ⟨client, heap⟩
  arriving := 0 :: tableStream table

/-- A client that waits for the handshake. -/
structure Connecting (client : Js5Client) : Prop where
  state : client.state = .handshake
  isOpen : client.isOpen = true
  idle : client.isIdle = true
  prefetches : client.prefetches = none

/-- New requests, for archives that the server has. -/
def Requestable (file : Target → List Byte) (h : Heap) (r : Ref) : Prop :=
  (h.requests r).buffer = none ∧ (h.requests r).archive.msb = false ∧
    Served (file (h.requests r).target)

def Valid (file : Target → List Byte) (s : Download) : Event → Prop
  | .add requests => ∀ r ∈ requests, Requestable file s.connection.heap r
  | _ => True

/-- The runs of a connection, with the events that are admitted. -/
inductive Run (file : Target → List Byte) (table : List Word)
    (admits : Download → Event → Prop) : Download → Prop
  | start {client : Js5Client} {heap : Heap} (hclient : Connecting client)
      (hheap : heap.completions = []) : Run file table admits (start client heap table)
  | next {s s' : Download} {e : Event} (h : Run file table admits s) (hvalid : s.Valid file e)
      (hs : admits s e) (hnext : s.next file e = some s') : Run file table admits s'

/-- No piece ends between the fifth and the last byte of the table, and requests are added once the
table was delivered, for archives that are not outstanding. -/
def Sound (s : Download) : Event → Prop
  | .add requests => requests = [] ∨
      s.connection.client.prefetches ≠ none ∧
        (requests.map fun r => (s.connection.heap.requests r).target).Nodup ∧
        ∀ r ∈ requests, s.connection.client.getRequest (s.connection.heap.requests r).priority
          (s.connection.heap.requests r).index (s.connection.heap.requests r).archive = none
  | .arrive n =>
    s.arrived + (s.arriving.take n).length < 1 + 5 ∨
      1 + 31 * 4 ≤ s.arrived + (s.arriving.take n).length
  | _ => True

instance (s : Download) (e : Event) : Decidable (s.Sound e) := by
  cases e <;> unfold Sound <;> infer_instance

/-- Everything was sent, arrived and decoded. -/
def Quiet (s : Download) : Prop := s.arriving = [] ∧ s.decoding = false ∧ ∀ t, s.left t = []

/-- Before the table: `stream` is what is not decoded of the handshake and the table. -/
structure Waiting (s : Download) (state : Js5ClientState) (stream : List Byte) : Prop where
  state : s.connection.client.state = state
  isOpen : s.connection.client.isOpen = true
  idle : s.connection.client.isIdle = true
  prefetches : s.connection.client.prefetches = none
  completions : s.connection.heap.completions = []
  added : s.added = []
  left : s.left = fun _ => []
  stream : s.unread ++ s.arriving = stream

/-- After the table. The requests of `past` are complete, and those of `A` since then or still
outstanding. -/
structure Receiving (file : Target → List Byte) (table : List Word) (s : Download)
    (A : Assignment) (j : Target → ℕ) (c : Connection) (past : List Ref) : Prop where
  connection : s.connection = c.withPast past
  prefetches : c.client.prefetches = some table
  holding : Holding A j c
  ahead : Ahead A j c (s.unread ++ s.arriving) s.left
  short : s.decoding = false → Short c s.unread
  file_eq : ∀ t ∈ A.requested, A.file t = file t
  past_written : ∀ r ∈ past, ∃ b, (c.heap.requests r).buffer = some b ∧
    b.written = file (c.heap.requests r).target
  past_nodup : past.Nodup
  ref_notMem : ∀ t ∈ A.requested, A.ref t ∉ past
  added_nodup : s.added.Nodup
  mem_added : ∀ r, r ∈ s.added ↔ r ∈ past ∨ ∃ t ∈ A.requested, r = A.ref t

section Receiving
variable {file : Target → List Byte} {table : List Word} {s : Download} {A : Assignment}
  {j : Target → ℕ} {c : Connection} {past : List Ref}

/-- What was completed since the last request has its bytes, too. -/
private theorem Receiving.written (h : Receiving file table s A j c past) {r : Ref}
    (hr : r ∈ c.heap.completions) : ∃ b, (c.heap.requests r).buffer = some b ∧
      b.written = file (c.heap.requests r).target := by
  obtain ⟨t, ht, rfl, hfull⟩ := (h.holding.completions r).mp hr
  have hfive := Assignment.five_le ht
  rcases h.holding.buffer t ht with ⟨hzero, -⟩ | ⟨b, hb, -, hwritten, -⟩
  · omega
  · refine ⟨b, hb, ?_⟩
    rw [hwritten, hfull, List.take_length, h.holding.target t ht, h.file_eq t ht]

private theorem Receiving.live (h : Receiving file table s A j c past) : Live s.connection := by
  rw [h.connection]
  have hlive := h.holding.live
  exact ⟨hlive.active, hlive.isOpen, hlive.filed, hlive.unfinished, hlive.current⟩

private theorem Receiving.send (h : Receiving file table s A j c past) {t : Target}
    (ht : s.left t ≠ []) : Receiving file table (s.send t) A j c past := by
  refine { h with ahead := ?_ }
  have hone := Blocks.single t ht
  have ha := h.ahead
  unfold Ahead at ha ⊢
  cases hcur : c.client.current with
  | none =>
    rw [hcur] at ha
    change Blocks _ (s.unread ++ (s.arriving ++ _)) _
    rw [← List.append_assoc]
    exact Blocks.append ha hone
  | some r =>
    rw [hcur] at ha
    obtain ⟨u, hu, hr, hopened, more, hstream, hmore⟩ := ha
    refine ⟨u, hu, hr, hopened, more ++ _, ?_, Blocks.append hmore hone⟩
    change s.unread ++ (s.arriving ++ _) = _
    rw [← List.append_assoc, hstream, List.append_assoc]

private theorem Receiving.arrive (h : Receiving file table s A j c past) (n : ℕ) :
    Receiving file table (s.arrive n) A j c past := by
  refine { h with ahead := ?_, short := fun hdecoding => by cases hdecoding }
  change Ahead A j c (s.unread ++ s.arriving.take n ++ s.arriving.drop n) s.left
  rw [List.append_assoc, List.take_append_drop]
  exact h.ahead

/-- A turn of the decoder. -/
private theorem Receiving.turn (h : Receiving file table s A j c past) :
    ∃ j' c', Receiving file table s.turn A j' c' past := by
  by_cases hnil : s.unread = []
  · refine ⟨j, c, ?_⟩
    have hturn : decoder.turn s.connection s.unread =
        ({ state := s.connection, unread := [] }, false) := if_pos hnil
    have hsame : s.turn = { s with decoding := false } := by
      unfold Download.turn
      rw [hturn, ← hnil]
    rw [hsame]
    exact { h with short := fun _ => Or.inl hnil }
  · have hcall := call_decodeActive h.holding.live hnil (h.holding.not_stuck h.ahead)
    generalize hd : decodeActive c s.unread = d at hcall
    obtain ⟨j', hkeep, hahead⟩ := h.holding.call hcall h.ahead
    have hdecode : decoder.decode s.connection s.unread =
        { d with state := d.state.withPast past } := by
      have hactive : decodeActive s.connection s.unread =
          { d with state := d.state.withPast past } := by
        rw [h.connection, decodeActive_withPast, hd]
      rw [decoder_decode_of_live h.live _ (by rw [hactive]; exact hcall.out_eq), hactive]
    have hout : ∀ r ∈ past, ∀ p k, (c.client.downloading p).get? k ≠ some r := by
      intro r hr p k hget
      obtain ⟨t, ht, rfl, -⟩ := h.holding.outstanding p k r hget
      exact h.ref_notMem t ht hr
    have hturn : s.turn = { s with
        connection := d.state.withPast past
        unread := d.unread
        decoding := !decide (d.unread.length = s.unread.length) } := by
      unfold Download.turn Decoder.turn
      rw [if_neg hnil]
      simp only [hdecode, hcall.returns, hcall.out_eq, Bool.false_eq_true, if_false, List.isEmpty_nil,
        if_true]
      split_ifs with hlen <;> simp [hlen]
    refine ⟨j', d.state, ?_⟩
    rw [hturn]
    exact {
      connection := rfl
      prefetches := hcall.prefetches_eq.trans h.prefetches
      holding := hkeep
      ahead := hahead
      short := fun hdecoding => by
        have hlen : d.unread.length = s.unread.length := by simpa using hdecoding
        obtain ⟨hsame, hshort⟩ := hcall.short hlen
        rw [hsame]
        exact hshort
      file_eq := h.file_eq
      past_written := fun r hr => by
        rw [hcall.requests_eq h.holding.live (hout r hr)]
        exact h.past_written r hr
      past_nodup := h.past_nodup
      ref_notMem := h.ref_notMem
      added_nodup := h.added_nodup
      mem_added := h.mem_added }

/-- One request of those that are added. -/
private def addOne (file : Target → List Byte) (s : Download) (r : Ref) : Download :=
  { s with
    connection :=
      ⟨s.connection.client.assign r (s.connection.heap.requests r), s.connection.heap⟩
    added := s.added ++ [r]
    left := enqueue file s.connection.heap s.left r }

private theorem add_eq (hactive : s.connection.client.state = .active)
    (hopen : s.connection.client.isOpen = true) (requests : List Ref) :
    s.add file requests = requests.foldl (addOne file) s := by
  have hfold : ∀ s : Download, requests.foldl (addOne file) s = { s with
      connection := ⟨requests.foldl
        (fun client r => client.assign r (s.connection.heap.requests r)) s.connection.client,
        s.connection.heap⟩
      added := s.added ++ requests
      left := requests.foldl (enqueue file s.connection.heap) s.left } := by
    induction requests with
    | nil =>
      intro s
      simp only [List.foldl_nil, List.append_nil]
    | cons r requests ih =>
      intro s
      rw [List.foldl_cons, ih]
      unfold addOne
      simp only [List.foldl_cons, List.append_assoc, List.singleton_append]
  unfold add
  simp only [Js5Client.addAllUnchecked_of_active hactive hopen]
  rw [if_neg (by simp [hactive, hopen]), hfold]

private theorem Receiving.addOne (h : Receiving file table s A j c past) {r : Ref}
    (hr : Assignable c r (file (c.heap.requests r).target)) :
    Receiving file table (addOne file s r) (h.holding.insert hr)
      (A.progress j (c.heap.requests r).target) (c.assign r) (past ++ c.heap.completions) := by
  obtain ⟨hfile, href, -⟩ := h.holding.insert_self hr
  obtain ⟨hlast, hahead⟩ := h.holding.ahead_assign hr h.ahead
  have hunfinished : ∀ t ∈ A.requested, A.Unfinished j t ∨ A.ref t ∈ c.heap.completions := by
    intro t ht
    by_cases hlt : j t < (A.file t).length
    · exact Or.inl ⟨ht, hlt⟩
    · have hbound := h.holding.bound t
      exact Or.inr ((h.holding.completions _).mpr ⟨t, ht, rfl, by omega⟩)
  have hcomplete : ∀ t, A.Unfinished j t → A.ref t ∉ c.heap.completions := by
    intro t ht hmem
    obtain ⟨u, hu, heq, hfull⟩ := (h.holding.completions _).mp hmem
    have hlt := ht.2
    rw [A.injective t ht.1 u hu heq] at hlt
    omega
  have hdone : ∀ s ∈ past ++ c.heap.completions, ∃ b, (c.heap.requests s).buffer = some b ∧
      b.written = file (c.heap.requests s).target := by
    intro s hs
    rcases List.mem_append.mp hs with hs | hs
    · exact h.past_written s hs
    · exact h.written hs
  -- Nothing of the request was received.
  have hnew : r ∉ past ++ c.heap.completions := by
    intro hmem
    obtain ⟨b, hb, -⟩ := hdone r hmem
    rw [hr.buffer] at hb
    cases hb
  have hnotAdded : r ∉ s.added := by
    rw [h.mem_added]
    rintro (hpast | ⟨t, ht, rfl⟩)
    · exact hnew (List.mem_append_left _ hpast)
    · rcases hunfinished t ht with hlt | hmem
      · exact h.holding.ne_ref hr hlt rfl
      · exact hnew (List.mem_append_right _ hmem)
  constructor
  · unfold Download.addOne Connection.withPast Connection.assign
    rw [h.connection, List.append_nil]
    rfl
  · exact (Js5Client.setDownloading_prefetches _ _ _).trans h.prefetches
  · exact h.holding.assign hr
  · have hleft : (Download.addOne file s r).left = Function.update s.left
        (c.heap.requests r).target (file (c.heap.requests r).target) := by
      change enqueue file s.connection.heap s.left r = _
      have hrequests : s.connection.heap.requests r = c.heap.requests r := by
        rw [h.connection]
        rfl
      unfold enqueue
      rw [hrequests]
      exact if_pos hlast
    rw [hleft]
    exact hahead
  · intro hdecoding
    have hcurrent : (c.assign r).client.current = c.client.current :=
      Js5Client.setDownloading_current _ _ _
    rcases h.short hdecoding with hnil | ⟨hlen, hbuffer⟩
    · exact Or.inl hnil
    · exact Or.inr ⟨hlen, fun s hs => hbuffer s (hcurrent.symm.trans hs)⟩
  · intro t ht
    rcases (h.holding.mem_insert hr).mp ht with rfl | ht
    · exact hfile
    · rw [(h.holding.insert_of_unfinished hr ht).1]
      exact h.file_eq t ht.1
  · exact hdone
  · refine List.Nodup.append h.past_nodup h.holding.nodup ?_
    intro s hs hmem
    obtain ⟨t, ht, rfl, -⟩ := (h.holding.completions s).mp hmem
    exact h.ref_notMem t ht hs
  · intro t ht
    rcases (h.holding.mem_insert hr).mp ht with rfl | ht
    · rw [href]
      exact hnew
    · rw [(h.holding.insert_of_unfinished hr ht).2.1, List.mem_append, not_or]
      exact ⟨h.ref_notMem t ht.1, hcomplete t ht⟩
  · exact List.Nodup.append h.added_nodup (List.nodup_singleton r) (by simpa using hnotAdded)
  · intro u
    change u ∈ s.added ++ [r] ↔ _
    rw [List.mem_append, List.mem_singleton, h.mem_added, List.mem_append]
    constructor
    · rintro ((hpast | ⟨t, ht, rfl⟩) | rfl)
      · exact Or.inl (Or.inl hpast)
      · rcases hunfinished t ht with hlt | hmem
        · refine Or.inr ⟨t, (h.holding.mem_insert hr).mpr (Or.inr hlt), ?_⟩
          rw [(h.holding.insert_of_unfinished hr hlt).2.1]
        · exact Or.inl (Or.inr hmem)
      · exact Or.inr ⟨_, (h.holding.mem_insert hr).mpr (Or.inl rfl), href.symm⟩
    · rintro ((hpast | hmem) | ⟨t, ht, rfl⟩)
      · exact Or.inl (Or.inl hpast)
      · obtain ⟨t, ht, rfl, -⟩ := (h.holding.completions u).mp hmem
        exact Or.inl (Or.inr ⟨t, ht, rfl⟩)
      · rcases (h.holding.mem_insert hr).mp ht with rfl | ht
        · exact Or.inr href
        · rw [(h.holding.insert_of_unfinished hr ht).2.1]
          exact Or.inl (Or.inr ⟨t, ht.1, rfl⟩)

/-- Requests for different archives that are not outstanding. -/
private theorem Receiving.addAll (requests : List Ref) (h : Receiving file table s A j c past)
    (hnew : ∀ r ∈ requests, Requestable file s.connection.heap r)
    (hdistinct : (requests.map fun r => (s.connection.heap.requests r).target).Nodup)
    (hfree : ∀ r ∈ requests, s.connection.client.getRequest
      (s.connection.heap.requests r).priority (s.connection.heap.requests r).index
      (s.connection.heap.requests r).archive = none) :
    ∃ A' j' c' past',
      Receiving file table (requests.foldl (Download.addOne file) s) A' j' c' past' := by
  induction requests generalizing s A j c past with
  | nil => exact ⟨A, j, c, past, h⟩
  | cons r requests ih =>
    rw [List.map_cons, List.nodup_cons] at hdistinct
    obtain ⟨hbuffer, harchive, hserved⟩ := hnew r List.mem_cons_self
    have hfirst := hfree r List.mem_cons_self
    have hc : s.connection.heap.requests r = c.heap.requests r ∧
        s.connection.client = c.client := by
      rw [h.connection]
      exact ⟨rfl, rfl⟩
    rw [hc.1] at hbuffer harchive hserved hfirst
    rw [hc.2] at hfirst
    have hone := h.addOne ⟨hbuffer, harchive, hserved, hfirst⟩
    apply ih hone
    · exact fun u hu => hnew u (List.mem_cons_of_mem _ hu)
    · exact hdistinct.2
    · intro u hu
      have hu' := hfree u (List.mem_cons_of_mem _ hu)
      unfold Js5Client.getRequest at hu' ⊢
      change ((s.connection.client.assign r _).downloading _).get? _ = none
      rw [Js5Client.get?_assign, if_neg]
      · exact hu'
      · rintro ⟨hp, hk⟩
        obtain ⟨hindex, harchive'⟩ := longKey_injective (hnew u (List.mem_cons_of_mem _ hu)).2.1
          (hnew r List.mem_cons_self).2.1 hk
        apply hdistinct.1
        refine List.mem_map.mpr ⟨u, hu, ?_⟩
        unfold ArchiveRequest.target
        rw [hp, ← hindex, ← harchive']
        rfl

end Receiving

/-- What a run with sound events is in the middle of. -/
inductive Phase (file : Target → List Byte) (table : List Word) (s : Download) : Prop
  | handshake (h : s.Waiting .handshake (0 :: tableStream table))
      (harrived : s.arrived = s.unread.length) (hwhole : s.unread.length < 6 ∨ s.arriving = [])
      (hwaits : s.decoding = false → s.unread = [])
  | table (h : s.Waiting .active (tableStream table)) (harrived : s.arrived = s.unread.length + 1)
      (hwhole : s.unread.length < 5 ∨ s.arriving = [])
      (hwaits : s.decoding = false → s.unread.length < 5)
  | receiving {A : Assignment} {j : Target → ℕ} {c : Connection} {past : List Ref}
      (h : Receiving file table s A j c past)

section Phases
variable {file : Target → List Byte} {table : List Word} {s s' : Download}

@[simp] theorem length_tableStream (table : List Word) :
    (tableStream table).length = 4 * table.length := by
  unfold tableStream
  induction table with
  | nil => rfl
  | cons w table ih =>
    rw [List.flatMap_cons, List.length_append, ih, List.length_cons]
    have hput : (putInt w).length = 4 := length_putWord 4 w
    omega

private theorem add_nil (s : Download) : s.add file [] = s := by
  unfold add Js5Client.addAllUnchecked
  simp

/-- A client that got the table holds nothing yet. -/
private theorem receiving_of_waiting (file : Target → List Byte)
    (h : s.Waiting .active (tableStream table))
    (harriving : s.arriving = []) :
    ∃ A j, Receiving file table
      { s with
        connection := ⟨s.connection.client.notifyPrefetches table, s.connection.heap⟩, unread := [] }
      A j ⟨s.connection.client.notifyPrefetches table, s.connection.heap⟩ [] := by
  obtain ⟨hcurrent, houtstanding⟩ := Js5Client.isIdle_iff.mp h.idle
  have hfresh : (s.connection.client.notifyPrefetches table).Fresh :=
    ⟨h.state, h.isOpen, houtstanding, hcurrent⟩
  have H : Outstanding s.connection.heap [] file :=
    ⟨List.nodup_nil, fun _ hr => (List.not_mem_nil hr).elim, fun _ hr => (List.not_mem_nil hr).elim⟩
  have hnone : ∀ t, t ∉ H.assignment.requested := by
    intro t ht
    obtain ⟨r, hr, -⟩ := H.mem_requested.mp ht
    cases hr
  have hholding := H.holding hfresh (fun _ => 0) (fun _ hr => (List.not_mem_nil hr).elim)
    (fun _ hr => (List.not_mem_nil hr).elim) (fun _ _ => rfl) h.completions
  have hclient : (s.connection.client.notifyPrefetches table).addAllUnchecked s.connection.heap [] =
      s.connection.client.notifyPrefetches table := by
    unfold Js5Client.addAllUnchecked
    rw [List.foldl_nil, ite_self]
  rw [hclient] at hholding
  have hleft : H.assignment.left (fun _ => 0) = s.left := by
    rw [h.left]
    funext t
    unfold Assignment.left
    rw [H.assignment.unrequested t (hnone t)]
    exact List.drop_nil
  refine ⟨H.assignment, fun _ => 0, ?_⟩
  constructor
  · rfl
  · rfl
  · exact hholding
  · have hblocks : Blocks (H.assignment.left fun _ => 0) ([] ++ s.arriving) s.left := by
      rw [harriving, hleft]
      exact Blocks.nil _
    unfold Ahead
    simp only [Js5Client.notifyPrefetches, hcurrent]
    exact hblocks
  · exact fun _ => Or.inl rfl
  · exact fun t ht => absurd ht (hnone t)
  · exact fun r hr => by cases hr
  · exact List.nodup_nil
  · exact fun t ht => absurd ht (hnone t)
  · change s.added.Nodup
    rw [h.added]
    exact List.nodup_nil
  · intro r
    change r ∈ s.added ↔ _
    rw [h.added]
    constructor
    · intro hr
      cases hr
    · rintro (hr | ⟨t, ht, -⟩)
      · cases hr
      · exact absurd ht (hnone t)

/-- Nothing is requested, and the decoder has not come to the end of the table. -/
private theorem Waiting.add {state : Js5ClientState} {stream : List Byte}
    (h : s.Waiting state stream) {requests : List Ref} (hs : s.Sound (.add requests)) :
    s.add file requests = s := by
  rcases hs with rfl | ⟨hprefetches, -⟩
  · exact add_nil s
  · exact absurd h.prefetches hprefetches

private theorem Phase.arrive (h : Phase file table s) (htable : table.length = 31) {n : ℕ}
    (hs : s.Sound (.arrive n)) (hdecoding : s.decoding = false) :
    Phase file table (s.arrive n) := by
  have hdrop : (s.arriving.take n).length + (s.arriving.drop n).length = s.arriving.length := by
    rw [← List.length_append, List.take_append_drop]
  have hsplit : ∀ stream, s.unread ++ s.arriving = stream →
      s.unread ++ s.arriving.take n ++ s.arriving.drop n = stream := by
    intro stream hstream
    rw [List.append_assoc, List.take_append_drop, hstream]
  have hstream := length_tableStream table
  cases h with
  | handshake h harrived hwhole hwaits =>
    have hlength := congrArg List.length h.stream
    rw [List.length_append, List.length_cons] at hlength
    have hempty := hwaits hdecoding
    apply Phase.handshake
    · exact { h with stream := hsplit _ h.stream }
    · change s.arrived + _ = (s.unread ++ s.arriving.take n).length
      rw [List.length_append]
      omega
    · change (s.unread ++ s.arriving.take n).length < 6 ∨ s.arriving.drop n = []
      rw [List.length_append, ← List.length_eq_zero_iff]
      rcases hs with hs | hs <;> omega
    · intro hfalse
      cases hfalse
  | table h harrived hwhole hwaits =>
    have hlength := congrArg List.length h.stream
    rw [List.length_append] at hlength
    have hshort := hwaits hdecoding
    apply Phase.table
    · exact { h with stream := hsplit _ h.stream }
    · change s.arrived + _ = (s.unread ++ s.arriving.take n).length + 1
      rw [List.length_append]
      omega
    · change (s.unread ++ s.arriving.take n).length < 5 ∨ s.arriving.drop n = []
      rw [List.length_append, ← List.length_eq_zero_iff]
      rcases hs with hs | hs <;> omega
    · intro hfalse
      cases hfalse
  | receiving h => exact Phase.receiving (h.arrive n)

private theorem turn_nil (hnil : s.unread = []) : s.turn = { s with decoding := false } := by
  have hturn : decoder.turn s.connection s.unread =
      ({ state := s.connection, unread := [] }, false) := if_pos hnil
  unfold Download.turn
  rw [hturn, ← hnil]

/-- The handshake is one byte. -/
private theorem turn_handshake (hstate : s.connection.client.state = .handshake)
    (hopen : s.connection.client.isOpen = true) {rest : List Byte} (hunread : s.unread = 0 :: rest) :
    s.turn = { s with
      connection := Js5ClientHandler.channelRead0 s.connection (.handshakeResponse 0)
      unread := rest
      decoding := true } := by
  have hdecode : decoder.decode s.connection (0 :: rest) =
      { state := Js5ClientHandler.channelRead0 s.connection (.handshakeResponse 0), unread := rest,
        out := [.handshakeResponse 0] } := by
    change { decode s.connection (0 :: rest) with
      state := (decode s.connection (0 :: rest)).out.foldl Js5ClientHandler.channelRead0
        (decode s.connection (0 :: rest)).state } = _
    unfold decode
    rw [if_neg (by simp [hopen, hstate, Js5ClientState.canRead]), hstate]
    rfl
  have hlen : rest.length ≠ (0 :: rest).length := by
    rw [List.length_cons]
    omega
  unfold Download.turn Decoder.turn
  rw [hunread, if_neg (List.cons_ne_nil _ _)]
  simp only [hdecode, Bool.false_eq_true, if_false, hlen]

/-- The whole table is read at once. -/
private theorem turn_table (h : s.Waiting .active (tableStream table)) (htable : table.length = 31)
    (hunread : s.unread = tableStream table) :
    s.turn = { s with
      connection := ⟨s.connection.client.notifyPrefetches table, s.connection.heap⟩
      unread := []
      decoding := true } := by
  have hlength := length_tableStream table
  have hread : readInts 31 (tableStream table) = some (table, []) := by
    rw [← htable]
    exact readInts_flatMap_putInt table
  have hne : tableStream table ≠ [] := by
    rw [← List.length_pos_iff]
    omega
  have hlen : ([] : List Byte).length ≠ (tableStream table).length := by
    rw [List.length_nil]
    omega
  have hdecode := decode_idle_long h.state h.isOpen h.idle (by omega) hread
  unfold Download.turn Decoder.turn
  rw [hunread, if_neg hne]
  simp only [hdecode, Bool.false_eq_true, if_false, hlen]

private theorem Phase.turn (h : Phase file table s) (htable : table.length = 31) :
    Phase file table s.turn := by
  have hstream := length_tableStream table
  cases h with
  | handshake h harrived hwhole hwaits =>
    cases hunread : s.unread with
    | nil =>
      rw [turn_nil hunread]
      exact Phase.handshake { h with } harrived hwhole fun _ => hunread
    | cons code rest =>
      have hall := h.stream
      rw [hunread, List.cons_append] at hall
      obtain ⟨rfl, hrest⟩ := List.cons.inj hall
      rw [hunread, List.length_cons] at harrived hwhole
      rw [turn_handshake h.state h.isOpen hunread]
      apply Phase.table
      · exact { h with state := rfl, stream := hrest }
      · exact harrived
      · change rest.length < 5 ∨ s.arriving = []
        exact hwhole.imp_left fun hlt => by omega
      · intro hfalse
        cases hfalse
  | table h harrived hwhole hwaits =>
    by_cases hshort : s.unread.length < 5
    · have hturn : s.turn = { s with decoding := false } := by
        by_cases hnil : s.unread = []
        · exact turn_nil hnil
        · unfold Download.turn Decoder.turn
          rw [if_neg hnil]
          simp only [decode_idle_short h.state h.isOpen h.idle hshort, Bool.false_eq_true, if_false,
            if_true]
          rfl
      rw [hturn]
      exact Phase.table { h with } harrived hwhole fun _ => hshort
    · have harriving := hwhole.resolve_left hshort
      have hunread : s.unread = tableStream table := by
        have hall := h.stream
        rwa [harriving, List.append_nil] at hall
      rw [turn_table h htable hunread]
      obtain ⟨A, j, hreceiving⟩ := receiving_of_waiting file h harriving
      exact Phase.receiving { hreceiving with short := fun hfalse => by cases hfalse }
  | receiving h =>
    obtain ⟨j', c', hturn⟩ := h.turn
    exact Phase.receiving hturn

/-- A sound event leads from phase to phase. -/
private theorem Phase.next (h : Phase file table s) (htable : table.length = 31) {e : Event}
    (hvalid : s.Valid file e) (hs : s.Sound e) (hnext : s.next file e = some s') :
    Phase file table s' := by
  cases e with
  | add requests =>
    have heq : s.add file requests = s' := Option.some.inj hnext
    subst heq
    cases h with
    | handshake h harrived hwhole hwaits =>
      rw [h.add hs]
      exact Phase.handshake h harrived hwhole hwaits
    | table h harrived hwhole hwaits =>
      rw [h.add hs]
      exact Phase.table h harrived hwhole hwaits
    | receiving h =>
      rcases hs with rfl | ⟨-, hdistinct, hfree⟩
      · rw [add_nil]
        exact Phase.receiving h
      · have hlive := h.live
        obtain ⟨A', j', c', past', hadded⟩ := Receiving.addAll requests h hvalid hdistinct hfree
        rw [← add_eq hlive.active hlive.isOpen] at hadded
        exact Phase.receiving hadded
  | send t =>
    change (if s.left t = [] then none else some (s.send t)) = some s' at hnext
    split_ifs at hnext with hleft
    cases hnext
    cases h with
    | handshake h => exact absurd (congrFun h.left t) hleft
    | table h => exact absurd (congrFun h.left t) hleft
    | receiving h => exact Phase.receiving (h.send hleft)
  | arrive n =>
    change (if s.decoding ∨ ¬ s.connection.client.isOpen then none else some (s.arrive n)) =
      some s' at hnext
    split_ifs at hnext with hclosed
    cases hnext
    have hdecoding : s.decoding = false := by
      rw [not_or] at hclosed
      simpa using hclosed.1
    exact h.arrive htable hs hdecoding
  | turn =>
    change (if s.decoding then some s.turn else none) = some s' at hnext
    split_ifs at hnext
    cases hnext
    exact h.turn htable

/-- Every run of sound events is in one of the phases. -/
theorem phase_of_run (htable : table.length = 31) (h : Run file table Sound s) :
    Phase file table s := by
  induction h with
  | start hclient hheap =>
    apply Phase.handshake
    · exact ⟨hclient.state, hclient.isOpen, hclient.idle, hclient.prefetches, hheap, rfl, rfl, rfl⟩
    · rfl
    · exact Or.inl (Nat.zero_lt_succ 5)
    · exact fun _ => rfl
  | next _ hvalid hs hnext ih => exact ih.next htable hvalid hs hnext

/-- What a client has at the end. -/
structure Complete (file : Target → List Byte) (table : List Word) (s : Download) : Prop where
  prefetches : s.connection.client.prefetches = some table
  unread : s.unread = []
  completions : s.connection.heap.completions.Perm s.added
  content : ∀ r ∈ s.added, ∃ b, (s.connection.heap.requests r).buffer = some b ∧
    b.written = file (s.connection.heap.requests r).target

private theorem Receiving.complete {A : Assignment} {j : Target → ℕ} {c : Connection}
    {past : List Ref} (h : Receiving file table s A j c past) (hquiet : s.Quiet) :
    Complete file table s := by
  obtain ⟨harriving, hdecoding, hleft⟩ := hquiet
  have hahead := h.ahead
  rw [harriving, List.append_nil] at hahead
  rcases h.holding.step hahead with ⟨hunread, -, hlast⟩ | ⟨e, -, hstep, -⟩
  · have hfull : ∀ t ∈ A.requested, A.ref t ∈ c.heap.completions := by
      intro t ht
      have hnil := congrFun hlast t
      have hbound := h.holding.bound t
      rw [hleft t] at hnil
      unfold Assignment.left at hnil
      rw [List.drop_eq_nil_iff] at hnil
      exact (h.holding.completions _).mpr ⟨t, ht, rfl, by omega⟩
    have hcompletions : s.connection.heap.completions = past ++ c.heap.completions := by
      rw [h.connection]
      rfl
    have hmem : ∀ r, r ∈ past ++ c.heap.completions ↔ r ∈ s.added := by
      intro r
      rw [List.mem_append, h.mem_added]
      constructor
      · rintro (hr | hr)
        · exact Or.inl hr
        · obtain ⟨t, ht, rfl, -⟩ := (h.holding.completions r).mp hr
          exact Or.inr ⟨t, ht, rfl⟩
      · rintro (hr | ⟨t, ht, rfl⟩)
        · exact Or.inl hr
        · exact Or.inr (hfull t ht)
    have hnodup : (past ++ c.heap.completions).Nodup := by
      refine List.Nodup.append h.past_nodup h.holding.nodup ?_
      intro r hr hr'
      obtain ⟨t, ht, rfl, -⟩ := (h.holding.completions r).mp hr'
      exact h.ref_notMem t ht hr
    constructor
    · rw [h.connection]
      exact h.prefetches
    · exact hunread
    · rw [hcompletions]
      exact (List.perm_ext_iff_of_nodup hnodup h.added_nodup).mpr hmem
    · intro r hr
      rw [h.connection]
      rcases List.mem_append.mp ((hmem r).mpr hr) with hr | hr
      · exact h.past_written r hr
      · exact h.written hr
  · have hnone := step_of_short (h.short hdecoding)
    rw [hstep] at hnone
    cases hnone

/-- In every run of sound events the connection stays open, and once everything has arrived the
table was delivered and each request is complete, with the bytes of its file. -/
theorem complete_of_run (file : Target → List Byte) (table : List Word) (htable : table.length = 31)
    (s : Download) (h : Run file table Sound s) :
    s.connection.client.isOpen = true ∧ s.connection.client.state ≠ .crashed ∧
      (s.connection.client.prefetches = none ∨ s.connection.client.prefetches = some table) ∧
      (s.Quiet → Complete file table s) := by
  have hlength := length_tableStream table
  cases phase_of_run htable h with
  | handshake h harrived hwhole hwaits =>
    refine ⟨h.isOpen, by rw [h.state]; decide, Or.inl h.prefetches, ?_⟩
    rintro ⟨harriving, hdecoding, -⟩
    have hstream := h.stream
    rw [hwaits hdecoding, harriving] at hstream
    cases hstream
  | table h harrived hwhole hwaits =>
    refine ⟨h.isOpen, by rw [h.state]; decide, Or.inl h.prefetches, ?_⟩
    rintro ⟨harriving, hdecoding, -⟩
    have hshort := hwaits hdecoding
    have hstream := congrArg List.length h.stream
    rw [harriving, List.append_nil] at hstream
    omega
  | receiving h =>
    have hlive := h.live
    refine ⟨hlive.isOpen, by rw [hlive.active]; decide, ?_, h.complete⟩
    rw [h.connection]
    exact Or.inr h.prefetches

end Phases

section Sample

section Events
variable {file : Target → List Byte} {table : List Word} {admits : Download → Event → Prop}
  {s : Download}

theorem Run.send (h : Run file table admits s) (t : Target) (hs : admits s (.send t))
    (hleft : s.left t ≠ []) : Run file table admits (s.send t) :=
  h.next (e := .send t) trivial hs (if_neg hleft)

theorem Run.turn (h : Run file table admits s) (hs : admits s .turn) (hdecoding : s.decoding = true) :
    Run file table admits s.turn :=
  h.next (e := .turn) trivial hs (if_pos hdecoding)

theorem Run.arrive (h : Run file table admits s) (n : ℕ) (hs : admits s (.arrive n))
    (hwaits : ¬ (s.decoding = true ∨ ¬ s.connection.client.isOpen = true)) :
    Run file table admits (s.arrive n) :=
  h.next (e := .arrive n) trivial hs (if_neg hwaits)

end Events

def sampleTable : List Word := List.replicate 31 0

private theorem connecting_default : Connecting {} := ⟨rfl, rfl, rfl, rfl⟩

set_option maxRecDepth 8000 in
/-- The table in one piece, then a request, then its response in one piece. -/
theorem complete_of_run_sample : ∃ s, Run sampleFile sampleTable Sound s ∧ s.added = [0] ∧
    Complete sampleFile sampleTable s := by
  have hstart : Run sampleFile sampleTable Sound (start {} sampleHeap sampleTable) :=
    Run.start connecting_default rfl
  have harrived := hstart.arrive 125 (by decide +kernel) (by decide)
  have htable := (harrived.turn trivial rfl).turn trivial (by decide +kernel)
  have hidle := htable.turn trivial (by decide +kernel)
  have hserved : Served [0, 0, 0, 0, 1, 77] := ⟨6, by decide, by decide, by decide⟩
  have hmsb : (10 : Word).msb = false := by decide
  have hvalid : ∀ r ∈ [0], Requestable sampleFile sampleHeap r := fun _ _ => ⟨rfl, hmsb, hserved⟩
  have hadd := hidle.next (e := .add [0]) hvalid (Or.inr (by decide +kernel)) rfl
  have hsend := hadd.send ⟨true, 2, 10⟩ trivial (by decide +kernel)
  have hblock := hsend.arrive 11 (by decide +kernel) (by decide +kernel)
  have hdata := ((hblock.turn trivial (by decide +kernel)).turn trivial (by decide +kernel)).turn trivial
    (by decide +kernel)
  have hdone := hdata.turn trivial (by decide +kernel)
  refine ⟨_, hdone, rfl, ?_⟩
  apply (complete_of_run sampleFile sampleTable rfl _ hdone).2.2.2
  refine ⟨by decide +kernel, by decide +kernel, ?_⟩
  intro t
  by_cases ht : t = ⟨true, 2, 10⟩
  · subst ht
    decide +kernel
  · change Function.update (Function.update (fun _ => []) ⟨true, 2, 10⟩ _) ⟨true, 2, 10⟩ _ t = []
    rw [Function.update_of_ne ht, Function.update_of_ne ht]

/-- Five bytes of the table arrive with the handshake. -/
theorem not_complete_cut : ∃ s, Run sampleFile sampleTable (fun _ _ => True) s ∧ s.added = [] ∧
    s.connection.client.state = .crashed ∧ s.connection.client.isOpen = false ∧
      s.connection.client.prefetches = none := by
  have hstart : Run sampleFile sampleTable (fun _ _ => True) (start {} sampleHeap sampleTable) :=
    Run.start connecting_default rfl
  have hpiece := hstart.arrive 6 trivial (by decide)
  have hcrashed := (hpiece.turn trivial rfl).turn trivial (by decide +kernel)
  exact ⟨_, hcrashed, rfl, by decide +kernel, by decide +kernel, by decide +kernel⟩

end Sample

end Download

end OpenNXT.CacheDownloader
