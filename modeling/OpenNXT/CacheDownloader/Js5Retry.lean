import OpenNXT.CacheDownloader.Js5Assigning
import OpenNXT.CacheDownloader.Js5Connection
import OpenNXT.CacheDownloader.Js5RequestHandler

/-! A download that is tried again after its connection died. -/
namespace OpenNXT.CacheDownloader
open Buffer Data Decoding Net Js5ClientDecoder

/-- A client is given one request, and as much of the response as the chunks hold. -/
def attempt (client : Js5Client) (h : Heap) (r : Ref) (chunks : List (List Byte)) :
    Config Connection Byte Js5Packet :=
  decoder.feed { state := ⟨client.addAllUnchecked h [r], h⟩, unread := [] } chunks

/-- The heap when the first client, whose connection died behind `front`, was marked as crashed and
its request was queued again. -/
def requeued (d : Js5RequestHandler) (first : Js5Client) (r : Ref) (front : List (List Byte)) :
    Heap :=
  let died := (attempt first d.heap r front).state
  (Js5RequestHandler.request { d with heap := died.client.markAsCrashed died.heap } [r]).heap

/-- The response completes the request with the bytes of its container, and the decoder is at the
end of it: nothing is unread, the client is idle, and it was not complete any earlier. -/
structure Completes (client : Js5Client) (h : Heap) (r : Ref) (data : List Byte)
    (chunks : List (List Byte)) : Prop where
  completions : (attempt client h r chunks).state.heap.completions = [r]
  content : ∃ b, ((attempt client h r chunks).state.heap.requests r).buffer = some b ∧
    b.written = data
  unread : (attempt client h r chunks).unread = []
  active : (attempt client h r chunks).state.client.state = .active
  isOpen : (attempt client h r chunks).state.client.isOpen = true
  idle : (attempt client h r chunks).state.client.isIdle = true
  last : ∀ (front : List (List Byte)) (more : List Byte), front.flatten ++ more = chunks.flatten →
    more ≠ [] → (attempt client h r front).state.heap.completions = []

/-- A request of which nothing was received, for a container that the server has. -/
structure Unstarted (h : Heap) (r : Ref) (data : List Byte) : Prop where
  buffer : (h.requests r).buffer = none
  archive : (h.requests r).archive.msb = false
  served : Served data
  completions : h.completions = []

section Progress
variable {A : Assignment} {j : Target → ℕ} {c : Connection}

/-- While something is to come, something is not complete. -/
theorem Holding.unfinished (h : Holding A j c) {stream : List Byte} {last : Target → List Byte}
    (ha : Ahead A j c stream last) (hne : stream ≠ []) :
    ∃ t ∈ A.requested, j t < (A.file t).length := by
  cases hcur : c.client.current with
  | none =>
    have hblocks := (ahead_of_none hcur).mp ha
    generalize hleft : A.left j = rest at hblocks
    cases hblocks with
    | nil => exact absurd rfl hne
    | cons t hrest =>
      rw [← hleft, Assignment.left, Ne, List.drop_eq_nil_iff, not_le] at hrest
      exact ⟨t, Assignment.requested_of_ne (List.length_pos_iff.mp (by omega)), hrest⟩
  | some r =>
    obtain ⟨t, ht, -, hlt⟩ := h.current hcur
    exact ⟨t, ht, hlt⟩

/-- In front of five bytes, a client that waits for a container's header takes a step. -/
private theorem step_ne_none (h : Holding A j c) {r : Ref} (hcur : c.client.current = some r)
    (hbuf : (c.heap.requests r).buffer = none) {xs more : List Byte} {last : Target → List Byte}
    (ha : Ahead A j c (xs ++ more) last) (hlen : 5 ≤ xs.length) : step c xs ≠ none := by
  have hne : xs ≠ [] := List.length_pos_iff.mp (by omega)
  have hcall := call_decodeActive h.live hne (h.not_stuck ha)
  generalize decodeActive c xs = d at hcall
  intro hnone
  cases hcall with
  | wait hshort =>
    rcases hshort with hnil | ⟨hshort, -⟩
    · exact hne hnil
    · omega
  | header _ _ hstep =>
    rw [hnone] at hstep
    cases hstep
  | containerHeader _ _ _ hstep =>
    rw [hnone] at hstep
    cases hstep
  | block hroom =>
    have hsame : r = _ := Option.some.inj (hcur.symm.trans hroom.current)
    subst hsame
    have hbuffer := hroom.buffer
    rw [hbuf] at hbuffer
    cases hbuffer

/-- Of a response the container's header is the bytes from the sixth to the tenth; before that
nothing is kept. -/
theorem Holding.run_response (h : Holding A (fun _ => 0) c) (hcur : c.client.current = none)
    {t : Target} (ht : t ∈ A.requested) {xs more : List Byte}
    (hxs : xs ++ more = Js5Encoder.response t (A.file t)) :
    ∃ j last, Holding A j (machine.run c xs).state ∧
      Ahead A j (machine.run c xs).state ((machine.run c xs).unread ++ more) last ∧
      (j t = 0 ↔ xs.length < 10) := by
  have hfive := Assignment.five_le ht
  have hne : A.file t ≠ [] := List.length_pos_iff.mp (by omega)
  have hlt : 0 < (A.file t).length := List.length_pos_iff.mpr hne
  have hleft : A.left (fun _ => 0) t = A.file t := List.drop_zero
  by_cases hshort : xs.length < 5
  · have hwaits : machine.step c xs = none :=
      step_of_short (Or.inr ⟨hshort, fun r hr => by rw [hcur] at hr; cases hr⟩)
    have hblocks := Js5Encoder.blocks_response t (A.file t) (A.left fun _ => 0) hleft
    rw [← hxs] at hblocks
    rw [Machine.run_of_waits hwaits]
    exact ⟨fun _ => 0, _, h, (ahead_of_none hcur).mpr hblocks, fun _ => by omega, fun _ => rfl⟩
  · obtain ⟨ys, rfl, hys⟩ : ∃ ys, xs = t.header ++ ys ∧ ys ++ more =
        (A.file t).take maxResponseBlockPayloadBytes ++
          Js5Encoder.response t ((A.file t).drop maxResponseBlockPayloadBytes) := by
      have hheader : t.header.length = 5 := by
        rw [t.header_eq, List.length_cons, length_putWord]
      rw [Js5Encoder.response_of_ne t hne, List.append_assoc] at hxs
      rcases List.append_eq_append_iff.mp hxs with ⟨mid, hmid, hmore⟩ | ⟨ys, hys, hmore⟩
      · have hlen := congrArg List.length hmid
        rw [List.length_append, hheader] at hlen
        have hnil : mid = [] := List.length_eq_zero_iff.mp (by omega)
        subst hnil
        rw [List.append_nil] at hmid
        rw [List.nil_append] at hmore
        exact ⟨[], by rw [hmid, List.append_nil], by rw [List.nil_append, hmore]⟩
      · exact ⟨ys, hys, hmore.symm⟩
    obtain ⟨hstep, hkeep⟩ := h.step_announced hcur hlt ys
    generalize hopened : modifyRequest { c with client := { c.client with current := some (A.ref t) } }
      (A.ref t) (fun q => { q with offset := 5 }) = c₁ at hstep hkeep
    have hcurrent : c₁.client.current = some (A.ref t) := by
      rw [← hopened]
      rfl
    have hself : c₁.heap.requests (A.ref t) = { c.heap.requests (A.ref t) with offset := 5 } := by
      rw [← hopened]
      exact c.heap.requests_modify_self (A.ref t) (fun q => { q with offset := 5 })
    have hbuf : (c₁.heap.requests (A.ref t)).buffer = none := by
      rw [hself]
      rcases h.buffer t ht with ⟨-, hnone⟩ | ⟨b, -, hfive, -⟩
      · exact hnone
      · omega
    have hmore := Js5Encoder.blocks_response t ((A.file t).drop maxResponseBlockPayloadBytes)
      (Function.update (A.left fun _ => 0) t ((A.file t).drop maxResponseBlockPayloadBytes))
      (Function.update_self _ _ _)
    rw [← hleft] at hys hmore
    have hahead : Ahead A (fun _ => 0) c₁ (ys ++ more) _ :=
      ahead_of_some ht hcurrent 5 _ (by rw [hself]) (fun _ => rfl) hys hmore
    have hlen : (t.header ++ ys).length = 5 + ys.length := by
      rw [List.length_append, t.header_eq, List.length_cons, length_putWord]
    have hrun : machine.run c (t.header ++ ys) = machine.run c₁ ys := by
      rw [@Machine.run_of_step _ _ _ machine _ _ _ hstep]
      rfl
    rw [hrun, hlen]
    by_cases hfew : ys.length < 5
    · have hwaits : machine.step c₁ ys = none :=
        step_of_short (Or.inr ⟨hfew, fun r hr => by
          rw [hcurrent] at hr
          cases hr
          exact hbuf⟩)
      rw [Machine.run_of_waits hwaits]
      exact ⟨fun _ => 0, _, hkeep, hahead, fun _ => by omega, fun _ => rfl⟩
    · cases hnext : Js5ClientDecoder.step c₁ ys with
      | none => exact absurd hnext (step_ne_none hkeep hcurrent hbuf hahead (by omega))
      | some e =>
        have happ := machine.step_append more hnext
        obtain ⟨e', hstep', hkeep', hahead'⟩ := step_container hkeep ht hcurrent hlt hbuf hmore
        have hsame : ys ++ more = (A.left (fun _ => 0) t).take (102400 - 5) ++
          Js5Encoder.response t ((A.left (fun _ => 0) t).drop maxResponseBlockPayloadBytes) := hys
        rw [← hsame] at hstep'
        have heq : e' = { e with unread := e.unread ++ more } :=
          Option.some.inj (hstep'.symm.trans happ)
        subst heq
        obtain ⟨j, hle, hfinal, hrest⟩ := Holding.run hkeep' e.unread more hahead'
        have hfive' := hle t
        rw [Function.update_self] at hfive'
        have hrun' : machine.run c₁ ys = (machine.run e.state e.unread).emit e.out :=
          @Machine.run_of_step _ _ _ machine _ _ _ hnext
        rw [hrun']
        exact ⟨j, _, hfinal, hrest, fun hzero => by omega, fun hlt => by omega⟩

end Progress

section Requeue
variable {d : Js5RequestHandler} {h : Heap} {client : Js5Client} {r : Ref} {data : List Byte}

theorem Js5Client.completions_markAsCrashed (client : Js5Client) (h : Heap) :
    (client.markAsCrashed h).completions = h.completions := by
  unfold markAsCrashed
  induction client.outstanding generalizing h with
  | nil => rfl
  | cons r outstanding ih =>
    rw [List.foldl_cons, ih]
    rfl

theorem Js5RequestHandler.completions_requestOne (d : Js5RequestHandler) (r : Ref) :
    (d.requestOne r).heap.completions = d.heap.completions := by
  unfold requestOne
  simp only
  split_ifs
  · rfl
  · rfl

/-- A single request is a set of requests that differ. -/
theorem Unstarted.outstanding (hr : Unstarted h r data) : Outstanding h [r] fun _ => data := by
  constructor
  · exact List.nodup_singleton _
  · intro s hs
    rw [List.mem_singleton.mp hs]
    exact hr.archive
  · intro s hs
    exact hr.served

/-- The only target of a single request. -/
private theorem eq_of_mem_solo {file : Target → List Byte} (H : Outstanding h [r] file) {t : Target}
    (ht : t ∈ H.assignment.requested) : t = (h.requests r).target := by
  obtain ⟨s, hs, rfl⟩ := H.mem_requested.mp ht
  rw [List.mem_singleton.mp hs]

/-- While the response is not at its end, the request is not complete. -/
private theorem solo_unfinished {file : Target → List Byte} (H : Outstanding h [r] file)
    {j : Target → ℕ} {c : Connection} (hkeep : Holding H.assignment j c) {stream : List Byte}
    {last : Target → List Byte} (ha : Ahead H.assignment j c stream last) (hne : stream ≠ []) :
    j (h.requests r).target < (file (h.requests r).target).length ∧ c.heap.completions = [] := by
  obtain ⟨t, ht, hlt⟩ := hkeep.unfinished ha hne
  have hsame := eq_of_mem_solo H ht
  subst hsame
  rw [H.file_target List.mem_cons_self] at hlt
  refine ⟨hlt, List.eq_nil_iff_forall_not_mem.mpr fun s hs => ?_⟩
  obtain ⟨t, ht, -, hfull⟩ := (hkeep.completions s).mp hs
  rw [eq_of_mem_solo H ht, H.file_target List.mem_cons_self] at hfull
  omega

/-- A client that was given the request, in front of the rest of its file. -/
private theorem solo_start {file : Target → List Byte} (H : Outstanding h [r] file)
    (hfresh : client.Fresh) {n : ℕ} (hholds : Holds (file (h.requests r).target) n (h.requests r))
    (hlt : n < (file (h.requests r).target).length) (hcompletions : h.completions = [])
    {stream : List Byte}
    (hstream : stream = Js5Encoder.response (h.requests r).target
      ((file (h.requests r).target).drop n)) :
    ∃ j, j (h.requests r).target = n ∧ (n = 0 → j = fun _ => 0) ∧
      Holding H.assignment j ⟨client.addAllUnchecked h [r], h⟩ ∧
      Ahead H.assignment j ⟨client.addAllUnchecked h [r], h⟩ stream fun _ => [] := by
  have hself : r ∈ [r] := List.mem_cons_self
  obtain ⟨-, -, hcur, -⟩ := hfresh.addAllUnchecked h [r]
  let j : Target → ℕ := Function.update (fun _ => 0) (h.requests r).target n
  have hj : j (h.requests r).target = n := Function.update_self _ _ _
  have hkeep : Holding H.assignment j ⟨client.addAllUnchecked h [r], h⟩ := by
    refine H.holding hfresh j (fun s hs => ?_) (fun s hs => ?_) (fun t ht => ?_) hcompletions
    · rw [List.mem_singleton.mp hs, hj]
      exact hholds
    · rw [List.mem_singleton.mp hs, hj]
      exact hlt
    · refine Function.update_of_ne ?_ _ _
      rintro rfl
      exact ht (H.mem_requested.mpr ⟨r, hself, rfl⟩)
  have hleft : H.assignment.left j (h.requests r).target = (file (h.requests r).target).drop n := by
    unfold Assignment.left
    rw [hj, H.file_target hself]
  have hblocks := Js5Encoder.blocks_response (h.requests r).target _ (H.assignment.left j) hleft
  have hnone : Function.update (H.assignment.left j) (h.requests r).target [] = fun _ => [] := by
    funext t
    by_cases ht : t = (h.requests r).target
    · rw [ht, Function.update_self]
    · have hfile : H.assignment.file t = [] :=
        H.assignment.unrequested t fun hmem => ht (eq_of_mem_solo H hmem)
      rw [Function.update_of_ne ht, Assignment.left, hfile, List.drop_nil]
  rw [hnone, ← hstream] at hblocks
  refine ⟨j, hj, fun hn => ?_, hkeep, (ahead_of_none hcur).mpr hblocks⟩
  funext t
  by_cases ht : t = (h.requests r).target
  · rw [ht, hj, hn]
  · exact Function.update_of_ne ht _ _

/-- What the request has when the connection died before the end of the response. -/
theorem attempt_of_died (hfresh : client.Fresh) (hr : Unstarted h r data)
    {front : List (List Byte)} {more : List Byte}
    (hfront : front.flatten ++ more = Js5Encoder.response (h.requests r).target data)
    (hmore : more ≠ []) :
    ∃ n, n < data.length ∧ Holds data n ((attempt client h r front).state.heap.requests r) ∧
      ((attempt client h r front).state.heap.requests r).target = (h.requests r).target ∧
      (attempt client h r front).state.heap.completions = [] ∧
      (n = 0 ↔ front.flatten.length < 10) := by
  have H := hr.outstanding
  have hself : r ∈ [r] := List.mem_cons_self
  have ht := H.mem_requested.mpr ⟨r, hself, rfl⟩
  have hfile := H.file_target hself
  have hpos := hr.served.five_le
  obtain ⟨-, -, hcur, -⟩ := hfresh.addAllUnchecked h [r]
  obtain ⟨j, -, hzero, hkeep, hahead⟩ := solo_start H hfresh (Or.inl ⟨rfl, hr.buffer⟩) (by omega)
    hr.completions hfront
  have hfeed := hkeep.feed_eq_run front more hahead
  rw [hzero rfl] at hkeep
  obtain ⟨j', last, hkeep', hahead', hten⟩ := hkeep.run_response hcur ht (by rw [hfile]; exact hfront)
  obtain ⟨hlt, hcompletions⟩ := solo_unfinished H hkeep' hahead'
    (List.append_ne_nil_of_right_ne_nil _ hmore)
  have hholds := hkeep'.buffer _ ht
  have htarget := hkeep'.target _ ht
  rw [H.ref_target hself] at hholds htarget
  rw [hfile] at hholds
  rw [attempt, hfeed]
  exact ⟨_, hlt, hholds, htarget, hcompletions, hten⟩

/-- A client that was given the request reads the rest of its file, and completes it. -/
private theorem solo_delivered {file : Target → List Byte} (H : Outstanding h [r] file)
    (hfresh : client.Fresh) {n : ℕ} (hholds : Holds (file (h.requests r).target) n (h.requests r))
    (hlt : n < (file (h.requests r).target).length) (hcompletions : h.completions = [])
    {chunks : List (List Byte)}
    (hchunks : chunks.flatten = Js5Encoder.response (h.requests r).target
      ((file (h.requests r).target).drop n)) :
    ∃ c, attempt client h r chunks = { state := c, unread := [] } ∧ Live c ∧
      c.client.isIdle = true ∧ c.heap.completions = [r] ∧
      ∃ b, (c.heap.requests r).buffer = some b ∧ b.written = file (h.requests r).target := by
  obtain ⟨j, -, -, hkeep, hahead⟩ := solo_start H hfresh hholds hlt hcompletions hchunks
  obtain ⟨c, hfeed, hcur, -, hall⟩ := hkeep.feed chunks hahead
  obtain ⟨hperm, hcontent⟩ := H.delivered hall
  exact ⟨c, hfeed, hall.live, hall.idle hcur, List.perm_singleton.mp hperm,
    hcontent r List.mem_cons_self⟩

/-- A request of which nothing was received is completed by the response. -/
theorem Unstarted.completes (hr : Unstarted h r data) (hfresh : client.Fresh)
    {chunks : List (List Byte)}
    (hchunks : chunks.flatten = Js5Encoder.response (h.requests r).target data) :
    Completes client h r data chunks := by
  have hpos := hr.served.five_le
  obtain ⟨c, hattempt, hlive, hidle, hcompletions, b, hb, hwritten⟩ :=
    solo_delivered hr.outstanding hfresh (Or.inl ⟨rfl, hr.buffer⟩) (by omega) hr.completions hchunks
  refine ⟨?_, ?_, ?_, ?_, ?_, ?_, fun front more hfront hmore => ?_⟩
  · rw [hattempt]
    exact hcompletions
  · rw [hattempt]
    exact ⟨b, hb, hwritten⟩
  · rw [hattempt]
  · rw [hattempt]
    exact hlive.active
  · rw [hattempt]
    exact hlive.isOpen
  · rw [hattempt]
    exact hidle
  · obtain ⟨-, -, -, -, hnone, -⟩ := attempt_of_died hfresh hr (hfront.trans hchunks) hmore
    exact hnone

/-- What a buffer with some bytes of a file is filled up with. -/
def spliced (data : List Byte) (n : ℕ) : List Byte :=
  data.take n ++ data.take (data.length - n)

private theorem length_spliced {n : ℕ} (hn : n ≤ data.length) :
    (spliced data n).length = data.length := by
  rw [spliced, List.length_append, List.length_take, List.length_take]
  omega

private theorem take_spliced {n : ℕ} (hn : n ≤ data.length) :
    (spliced data n).take n = data.take n := by
  rw [spliced, List.take_append, List.take_take, min_self, List.length_take, min_eq_left hn,
    Nat.sub_self, List.take_zero, List.append_nil]

private theorem drop_spliced {n : ℕ} (hn : n ≤ data.length) :
    (spliced data n).drop n = data.take (data.length - n) := by
  have hlen : (data.take n).length = n := by rw [List.length_take, min_eq_left hn]
  rw [spliced, List.drop_left' hlen]

private theorem served_spliced {n : ℕ} (h : Served data) (hfive : 5 ≤ n) (hn : n ≤ data.length) :
    Served (spliced data n) := by
  have hlength := length_spliced hn
  obtain ⟨length, hread, hint, hbound⟩ := h
  refine ⟨length, ?_, by rw [hlength, hint], by rw [hlength]; exact hbound⟩
  obtain ⟨k, rfl⟩ := Nat.exists_eq_add_of_le' hfive
  rw [← hread]
  unfold js5ResponseLength at hread
  split at hread
  · rfl
  · cases hread

/-- A request that has some bytes of its container, the header among them, but not all. -/
structure Started (h : Heap) (r : Ref) (data : List Byte) (n : ℕ) : Prop where
  holds : Holds data n (h.requests r)
  five_le : 5 ≤ n
  lt : n < data.length
  archive : (h.requests r).archive.msb = false
  served : Served data
  completions : h.completions = []

/-- It is completed by a front of the response, and at least five bytes are left. -/
private theorem Started.delivered {n : ℕ} (hr : Started h r data n) :
    ∃ front more, Js5Encoder.response (h.requests r).target data = front ++ more ∧
      more ≠ [] ∧ front = Js5Encoder.response (h.requests r).target ((spliced data n).drop n) ∧
      Holds (spliced data n) n (h.requests r) ∧ n < (spliced data n).length ∧
      Outstanding h [r] fun _ => spliced data n := by
  have hle := hr.lt.le
  have hlength := @length_spliced data n hle
  obtain ⟨more, hsplit, hmore⟩ := Js5Encoder.response_split (h.requests r).target data
    (data.length - n) (Nat.sub_le _ _)
  have hfive := hr.five_le
  refine ⟨_, more, hsplit, List.length_pos_iff.mp (by omega), by rw [drop_spliced hle], ?_,
    by rw [hlength]; exact hr.lt, ?_⟩
  · rcases hr.holds with ⟨hzero, -⟩ | ⟨b, hb, -, hwritten, hcapacity⟩
    · omega
    · exact Or.inr ⟨b, hb, hfive, by rw [hwritten, take_spliced hle], by rw [hcapacity, hlength]⟩
  · refine ⟨List.nodup_singleton _, fun s hs => ?_, fun _ _ => served_spliced hr.served hfive hle⟩
    rw [List.mem_singleton.mp hs]
    exact hr.archive

/-- A request that has the container's header is completed too early. -/
theorem Started.not_completes {n : ℕ} (hr : Started h r data n) (hfresh : client.Fresh)
    {chunks : List (List Byte)}
    (hchunks : chunks.flatten = Js5Encoder.response (h.requests r).target data) :
    ¬ Completes client h r data chunks := by
  obtain ⟨front, more, hsplit, hmore, hfront, hholds, hlt, H⟩ := hr.delivered
  have hflatten : [front].flatten = Js5Encoder.response (h.requests r).target
      ((spliced data n).drop n) := by rw [List.flatten_singleton, hfront]
  obtain ⟨c, hattempt, -, -, hdone, -⟩ :=
    solo_delivered H hfresh hholds hlt hr.completions hflatten
  intro hcompletes
  have hnone := hcompletes.last [front] more (by
    rw [List.flatten_singleton, hchunks]
    exact hsplit.symm) hmore
  rw [hattempt, hdone] at hnone
  cases hnone

/-- What is left of the response then stays unread or spoils the connection. -/
theorem Started.unread_or_spoiled {n : ℕ} (hr : Started h r data n) (hfresh : client.Fresh)
    {chunks : List (List Byte)}
    (hchunks : chunks.flatten = Js5Encoder.response (h.requests r).target data) :
    (attempt client h r chunks).unread ≠ [] ∨ Spoiled (attempt client h r chunks).state := by
  obtain ⟨front, more, hsplit, hmore, hfront, hholds, hlt, H⟩ := hr.delivered
  obtain ⟨j, -, -, hkeep, hahead⟩ := solo_start H hfresh hholds hlt hr.completions hfront
  obtain ⟨-, -, hcur, -⟩ := hfresh.addAllUnchecked h [r]
  obtain ⟨c, hrun, hcurrent, hall⟩ := hkeep.run_all front hahead
  have hidle := hall.idle hcurrent
  have hstuck : Stuck c more := by
    unfold Stuck
    rw [hcurrent]
    exact Or.inl ⟨hidle, hmore⟩
  have hwhole : machine.run ⟨client.addAllUnchecked h [r], h⟩ ([] ++ chunks.flatten) =
      { state := c, unread := more } := by
    rw [List.nil_append, hchunks, hsplit, machine.run_append, hrun]
    simp only [List.nil_append, Config.emit_nil]
    exact Machine.run_of_waits (implements.waits_stuck c more hall.live hstuck)
  have hfree : ¬ Stuck ⟨client.addAllUnchecked h [r], h⟩ [] := by
    unfold Stuck
    rw [hcur]
    rintro (⟨-, hne⟩ | ⟨-, d, hd, -⟩)
    · exact hne rfl
    · cases hd
  obtain ⟨xs, rest, out, hxs, hfeed⟩ := implements.feed_of_stuck chunks
    { state := ⟨client.addAllUnchecked h [r], h⟩, unread := [] } (implements.waits _ hkeep.live)
    hkeep.live (fun _ => rfl) hfree (by rw [hwhole]; exact hstuck)
  rw [hwhole] at hxs hfeed
  rw [attempt, hfeed]
  exact feed_idle hall.live.active hall.live.isOpen hidle rest xs out (by rw [← hxs]; exact hmore)

/-- Queued again, the request has what it had when the connection died. -/
theorem holds_requeued {first : Js5Client} (hfirst : first.Fresh) (hr : Unstarted d.heap r data)
    {front : List (List Byte)} {more : List Byte}
    (hdied : front.flatten ++ more = Js5Encoder.response (d.heap.requests r).target data)
    (hmore : more ≠ []) :
    ∃ n, n < data.length ∧ Holds data n ((requeued d first r front).requests r) ∧
      ((requeued d first r front).requests r).target = (d.heap.requests r).target ∧
      (requeued d first r front).completions = [] ∧ (n = 0 ↔ front.flatten.length < 10) := by
  obtain ⟨n, hlt, hholds, htarget, hcompletions, hten⟩ := attempt_of_died hfirst hr hdied hmore
  generalize hdead : (attempt first d.heap r front).state = died at hholds htarget hcompletions
  have hheap : requeued d first r front = (Js5RequestHandler.request
      { d with heap := died.client.markAsCrashed died.heap } [r]).heap := by
    rw [requeued, hdead]
  have hretains : died.heap.Retains (requeued d first r front) := by
    rw [hheap]
    exact (died.client.retains_markAsCrashed died.heap).trans
      (Js5RequestHandler.retains_request
        { d with heap := died.client.markAsCrashed died.heap } [r])
  have hkeeps := hretains.request r
  refine ⟨n, hlt, ?_, ?_, ?_, hten⟩
  · rw [Holds, hretains.buffer r, hkeeps.trailer]
    exact hholds
  · rw [← htarget, ArchiveRequest.target, ArchiveRequest.target, hkeeps.index, hkeeps.archive,
      hkeeps.priority]
  · rw [hheap]
    refine (Js5RequestHandler.completions_requestOne _ r).trans ?_
    exact (died.client.completions_markAsCrashed died.heap).trans hcompletions

/-- The retried request is completed by the response exactly when the first attempt died before the
container's header had arrived. -/
theorem completes_requeued_iff {first second : Js5Client} (hfirst : first.Fresh)
    (hsecond : second.Fresh) (hr : Unstarted d.heap r data) {front chunks : List (List Byte)}
    {more : List Byte}
    (hdied : front.flatten ++ more = Js5Encoder.response (d.heap.requests r).target data)
    (hmore : more ≠ [])
    (hchunks : chunks.flatten = Js5Encoder.response (d.heap.requests r).target data) :
    Completes second (requeued d first r front) r data chunks ↔ front.flatten.length < 10 := by
  obtain ⟨n, hlt, hholds, htarget, hcompletions, hten⟩ := holds_requeued hfirst hr hdied hmore
  have harchive := (congrArg (fun t => t.archive.msb) htarget).trans hr.archive
  rw [← htarget] at hchunks
  rw [← hten]
  constructor
  · intro hcompletes
    by_contra hzero
    have hfive : 5 ≤ n := by
      rcases hholds with ⟨hn, -⟩ | ⟨-, -, hfive, -⟩
      · exact absurd hn hzero
      · exact hfive
    have hstarted : Started (requeued d first r front) r data n :=
      ⟨hholds, hfive, hlt, harchive, hr.served, hcompletions⟩
    exact hstarted.not_completes hsecond hchunks hcompletes
  · rintro rfl
    have hbuffer : ((requeued d first r front).requests r).buffer = none := by
      rcases hholds with ⟨-, hnone⟩ | ⟨-, -, hfive, -⟩
      · exact hnone
      · omega
    exact Unstarted.completes ⟨hbuffer, harchive, hr.served, hcompletions⟩ hsecond hchunks

end Requeue

section Sample

/-- A container with one byte of payload. -/
def retriedFile : List Byte := [0, 0, 0, 0, 1, 77]

def retriedHandler : Js5RequestHandler where
  heap := sampleHeap

private theorem unstarted_sample : Unstarted retriedHandler.heap 0 retriedFile where
  buffer := rfl
  archive := rfl
  served := ⟨6, rfl, by decide, by decide⟩
  completions := rfl

private theorem response_sample :
    Js5Encoder.response (retriedHandler.heap.requests 0).target retriedFile =
      [2, 0, 0, 0, 10, 0, 0, 0, 0, 1, 77] := by
  have hne : retriedFile ≠ [] := List.cons_ne_nil _ _
  have hshort : retriedFile.length ≤ maxResponseBlockPayloadBytes := by decide
  rw [Js5Encoder.response_of_ne _ hne, List.drop_of_length_le hshort, Js5Encoder.response_nil,
    List.take_of_length_le hshort]
  decide

/-- The first connection died behind the second byte of the container. -/
theorem completes_requeued_seven :
    Completes activeClient (requeued retriedHandler activeClient 0 [[2, 0, 0], [0, 10, 0, 0]]) 0
      retriedFile [[2, 0, 0, 0], [10, 0, 0, 0, 0, 1, 77]] := by
  have hdied : [[2, 0, 0], [0, 10, 0, 0]].flatten ++ [0, 0, 1, 77] =
    Js5Encoder.response (retriedHandler.heap.requests 0).target retriedFile := response_sample.symm
  have hchunks : [[2, 0, 0, 0], [10, 0, 0, 0, 0, 1, 77]].flatten =
    Js5Encoder.response (retriedHandler.heap.requests 0).target retriedFile := response_sample.symm
  exact (completes_requeued_iff fresh_activeClient fresh_activeClient unstarted_sample hdied
    (List.cons_ne_nil _ _) hchunks).mpr (by decide)

/-- The first connection died behind the container's header. -/
theorem not_completes_requeued_ten :
    Unstarted retriedHandler.heap 0 retriedFile ∧ activeClient.Fresh ∧
      [[2, 0, 0, 0, 10], [0, 0, 0, 0, 1]].flatten ++ [77] =
        Js5Encoder.response (retriedHandler.heap.requests 0).target retriedFile ∧
      [[2, 0, 0, 0, 10, 0, 0, 0, 0, 1, 77]].flatten =
        Js5Encoder.response (retriedHandler.heap.requests 0).target retriedFile ∧
      ¬ Completes activeClient
        (requeued retriedHandler activeClient 0 [[2, 0, 0, 0, 10], [0, 0, 0, 0, 1]]) 0 retriedFile
        [[2, 0, 0, 0, 10, 0, 0, 0, 0, 1, 77]] := by
  have hdied : [[2, 0, 0, 0, 10], [0, 0, 0, 0, 1]].flatten ++ [77] =
    Js5Encoder.response (retriedHandler.heap.requests 0).target retriedFile := response_sample.symm
  have hchunks : [[2, 0, 0, 0, 10, 0, 0, 0, 0, 1, 77]].flatten =
    Js5Encoder.response (retriedHandler.heap.requests 0).target retriedFile := response_sample.symm
  refine ⟨unstarted_sample, fresh_activeClient, hdied, hchunks, ?_⟩
  obtain ⟨n, hlt, hholds, htarget, hcompletions, hten⟩ :=
    holds_requeued fresh_activeClient unstarted_sample hdied (List.cons_ne_nil _ _)
  have hfive : 5 ≤ n := by
    rcases hholds with ⟨hzero, -⟩ | ⟨-, -, hfive, -⟩
    · exact absurd (hten.mp hzero) (by decide)
    · exact hfive
  have harchive := congrArg (fun t => t.archive.msb) htarget
  rw [← htarget] at hchunks
  have hstarted : Started _ 0 retriedFile n :=
    ⟨hholds, hfive, hlt, harchive, unstarted_sample.served, hcompletions⟩
  exact hstarted.not_completes fresh_activeClient hchunks

end Sample

end OpenNXT.CacheDownloader
