import OpenNXT.Net.Js5Blocks
import OpenNXT.Net.Js5Process
import Mathlib.Data.List.Perm.Basic

/-! The stream that a whole run of a session writes. -/
namespace OpenNXT.Net
open Buffer

def RequestFile.target (q : RequestFile) : Target := ⟨q.priority, q.index, q.archive⟩

namespace Js5Session

def PendingResponse.target (r : PendingResponse) : Target := ⟨r.priority, r.index, r.archive⟩

/-- Every request gets the file of its target, whatever the login state. -/
def Serves (env : Environment) (file : Target → List Byte) (qs : List RequestFile) : Prop :=
  ∀ q ∈ qs, (∀ loggedIn, loadFileData env loggedIn q = some (file q.target)) ∧
    Served (file q.target)

/-- The runs of a session without an XOR key: requests for different files arrive at any moment,
and `process` is called with at least one block's budget. The thread's steps are taken from allowed
states. -/
inductive Serving (env : Environment) (allowed : Session × Thread → Prop) :
    List RequestFile → Session × Thread → Prop
  | start : Serving env allowed [] ({}, .idle)
  | enqueue {qs : List RequestFile} {s : Session} {t : Thread} (h : Serving env allowed qs (s, t))
      (q : RequestFile) (hnew : q.target ∉ qs.map RequestFile.target) :
      Serving env allowed (qs ++ [q]) (enqueueRequest env s q, t)
  | updateLoggedInState {qs : List RequestFile} {s : Session} {t : Thread}
      (h : Serving env allowed qs (s, t)) (loggedIn : Bool) :
      Serving env allowed qs ({ s with loggedIn := loggedIn }, t)
  | call {qs : List RequestFile} {s : Session} (h : Serving env allowed qs (s, .idle)) (limit : ℤ)
      (hlimit : 102400 ≤ limit) : Serving env allowed qs (s, process limit)
  | process {qs : List RequestFile} {c d : Session × Thread} (h : Serving env allowed qs c)
      (hallowed : allowed c) (hstep : processStep env c = some d) : Serving env allowed qs d

/-- Nothing is queued, and nothing is being sent. -/
def Drained (s : Session) : Prop :=
  ∀ p, (s.lane p).requests = [] ∧ (s.lane p).responses = []

/-- The budget does not cut the block that is about to be written, unless it leaves nothing of it. -/
def WholeBlock : Session × Thread → Prop
  | (_, .write _ limit bytesSent r) =>
    min (maxResponseBlockPayloadBytes : ℤ) r.remaining ≤ limit - bytesSent - 5 ∨
      limit - bytesSent ≤ 5
  | _ => True

section Tracks

/-- `pieces` lists what is left of every file, once. -/
structure Tracks (rest : Target → List Byte) (pieces : List (Target × List Byte)) : Prop where
  nodup : (pieces.map Prod.fst).Nodup
  left : ∀ x ∈ pieces, rest x.1 = x.2
  covers : ∀ t, rest t ≠ [] → t ∈ pieces.map Prod.fst

variable {rest : Target → List Byte} {pieces pieces' : List (Target × List Byte)} {t : Target}
  {data : List Byte}

theorem Tracks.perm (h : Tracks rest pieces) (hp : pieces.Perm pieces') : Tracks rest pieces' where
  nodup := (hp.map Prod.fst).nodup_iff.mp h.nodup
  left x hx := h.left x (hp.mem_iff.mpr hx)
  covers t ht := (hp.map Prod.fst).mem_iff.mp (h.covers t ht)

theorem Tracks.notMem (h : Tracks rest ((t, data) :: pieces)) : t ∉ pieces.map Prod.fst := by
  have hnodup := h.nodup
  rw [List.map_cons, List.nodup_cons] at hnodup
  exact hnodup.1

theorem Tracks.drop (h : Tracks rest ((t, []) :: pieces)) : Tracks rest pieces where
  nodup := by
    have hnodup := h.nodup
    rw [List.map_cons, List.nodup_cons] at hnodup
    exact hnodup.2
  left x hx := h.left x (List.mem_cons_of_mem _ hx)
  covers u hu := by
    rcases List.mem_cons.mp (h.covers u hu) with rfl | hmem
    · exact absurd (h.left (u, []) List.mem_cons_self) hu
    · exact hmem

theorem Tracks.add (h : Tracks rest pieces) (ht : t ∉ pieces.map Prod.fst) (data : List Byte) :
    Tracks (Function.update rest t data) ((t, data) :: pieces) where
  nodup := by
    rw [List.map_cons, List.nodup_cons]
    exact ⟨ht, h.nodup⟩
  left x hx := by
    rcases List.mem_cons.mp hx with rfl | hx
    · exact Function.update_self _ _ _
    · have hne : x.1 ≠ t := fun heq => ht (heq ▸ List.mem_map_of_mem hx)
      rw [Function.update_of_ne hne]
      exact h.left x hx
  covers u hu := by
    by_cases hut : u = t
    · subst hut
      exact List.mem_cons_self
    · rw [Function.update_of_ne hut] at hu
      exact List.mem_cons_of_mem _ (h.covers u hu)

theorem Tracks.replace (h : Tracks rest ((t, data) :: pieces)) (data' : List Byte) :
    Tracks (Function.update rest t data') ((t, data') :: pieces) := by
  have hnotMem := h.notMem
  refine ⟨h.nodup, fun x hx => ?_, fun u hu => ?_⟩
  · rcases List.mem_cons.mp hx with rfl | hx
    · exact Function.update_self _ _ _
    · have hne : x.1 ≠ t := fun heq => hnotMem (heq ▸ List.mem_map_of_mem hx)
      rw [Function.update_of_ne hne]
      exact h.left x (List.mem_cons_of_mem _ hx)
  · by_cases hut : u = t
    · subst hut
      exact List.mem_cons_self
    · rw [Function.update_of_ne hut] at hu
      exact h.covers u hu

end Tracks

section Pieces
variable (file : Target → List Byte)

def lanePieces (s : Session) (p : Bool) : List (Target × List Byte) :=
  (s.lane p).requests.map (fun q => (q.target, file q.target)) ++
    (s.lane p).responses.map (fun r => (r.target, r.data))

def threadPieces : Thread → List (Target × List Byte)
  | .idle | .loop .. => []
  | .write _ _ _ r | .recycle _ _ _ r => [(r.target, r.data)]

/-- What is left of every file, wherever it waits. -/
def pieces (c : Session × Thread) : List (Target × List Byte) :=
  threadPieces c.2 ++ (lanePieces file c.1 true ++ lanePieces file c.1 false)

theorem pieces_perm (s : Session) (t : Thread) (p : Bool) :
    (pieces file (s, t)).Perm (threadPieces t ++ (lanePieces file s p ++ lanePieces file s !p)) := by
  cases p with
  | true => exact List.Perm.refl _
  | false => exact List.Perm.append_left _ List.perm_append_comm

theorem lanePieces_congr {s s' : Session} {p : Bool}
    (hq : (s'.lane p).requests = (s.lane p).requests)
    (hr : (s'.lane p).responses = (s.lane p).responses) :
    lanePieces file s' p = lanePieces file s p := by
  unfold lanePieces
  rw [hq, hr]

end Pieces

/-- The bytes of a response are those it counts. -/
def Counted (r : PendingResponse) : Prop := r.remaining = r.data.length

def CountedThread : Thread → Prop
  | .idle | .loop .. => True
  | .write _ _ _ r | .recycle _ _ _ r => Counted r

/-- The files of the requests so far. -/
def initial (file : Target → List Byte) (qs : List RequestFile) (t : Target) : List Byte :=
  if t ∈ qs.map RequestFile.target then file t else []

/-- The stream so far leads to what still waits. -/
structure Accounts (file : Target → List Byte) (qs : List RequestFile) (c : Session × Thread)
    (rest : Target → List Byte) : Prop where
  sorted : Sorted c.1 ∧ SortedThread c.2
  xorKey : c.1.xorKey = 0
  counted : (∀ p, ∀ r ∈ (c.1.lane p).responses, Counted r) ∧ CountedThread c.2
  stream : Blocks (initial file qs) c.1.written rest
  tracks : Tracks rest (pieces file c)
  distinct : (qs.map RequestFile.target).Nodup
  known : ∀ x ∈ pieces file c, x.1 ∈ qs.map RequestFile.target
  requested : ∀ p, ∀ q ∈ (c.1.lane p).requests, q ∈ qs
  inFlight : ∀ p, ∀ k ∈ (c.1.lane p).inFlight,
    (⟨p, k.index, k.archive⟩ : Target) ∈ qs.map RequestFile.target

section InFlight

theorem inFlight_removeInFlight (s : Session) (p q : Bool) (key : ArchiveKey) :
    ((removeInFlight s q key).lane p).inFlight ⊆ (s.lane p).inFlight := by
  unfold removeInFlight
  rw [Session.lane_setLane]
  split_ifs with h
  · subst h
    exact Finset.erase_subset _ _
  · exact Finset.Subset.refl _

@[simp] theorem inFlight_setRequests (s : Session) (p q : Bool) (qs : List RequestFile) :
    ((setRequests s q qs).lane p).inFlight = (s.lane p).inFlight := by
  cases p <;> cases q <;> rfl

@[simp] theorem inFlight_setResponses (s : Session) (p q : Bool) (rs : List PendingResponse) :
    ((setResponses s q rs).lane p).inFlight = (s.lane p).inFlight := by
  cases p <;> cases q <;> rfl

private theorem inFlight_pollRequests (env : Environment) (p p' : Bool) (qs : List RequestFile)
    (s : Session) : ((pollRequests env p qs s).1.lane p').inFlight ⊆ (s.lane p').inFlight := by
  induction qs generalizing s with
  | nil =>
    unfold pollRequests
    split <;> simp
  | cons q qs ih =>
    unfold pollRequests
    split
    · exact (ih _).trans (inFlight_removeInFlight _ _ _ _)
    · simp
    · simp

theorem inFlight_next (env : Environment) (s : Session) (p p' : Bool) :
    ((nextPendingResponse env s p).1.lane p').inFlight ⊆ (s.lane p').inFlight :=
  inFlight_pollRequests env p p' _ s

theorem inFlight_recycle (s : Session) (r : PendingResponse) (p : Bool) :
    ((recyclePendingResponse s r).lane p).inFlight ⊆ (s.lane p).inFlight := by
  unfold recyclePendingResponse
  split_ifs
  · simp
  · exact inFlight_removeInFlight _ _ _ _

end InFlight

section Invariant
variable {env : Environment} {file : Target → List Byte} {qs : List RequestFile}
  {rest : Target → List Byte}

theorem load_of_serves {q : RequestFile} (loggedIn : Bool)
    (hserves : ∀ loggedIn, loadFileData env loggedIn q = some (file q.target))
    (hserved : Served (file q.target)) :
    ∃ r, load env loggedIn q = .loaded r ∧ r.target = q.target ∧ r.data = file q.target ∧
      Counted r := by
  obtain ⟨length, hlength, hint, -⟩ := hserved
  have hload : load env loggedIn q = .loaded ⟨q.priority, q.index, q.archive, file q.target,
      length.toInt, length.toInt⟩ := by
    unfold load
    rw [hserves]
    simp only [hlength]
  exact ⟨_, hload, rfl, rfl, hint⟩

/-- Where every request has its file, nothing is skipped. -/
private theorem Polls.of_loaded {loggedIn : Bool} {reqs reqs' : List RequestFile}
    {rs rs' : List PendingResponse} {next : Next} (h : Polls env loggedIn reqs rs reqs' rs' next)
    (hall : ∀ q ∈ reqs, ∃ r, load env loggedIn q = .loaded r) :
    (next = .none ∧ reqs = [] ∧ reqs' = [] ∧ rs = [] ∧ rs' = []) ∨
      (∃ q r, next = .response r ∧ reqs = q :: reqs' ∧ rs' = rs ∧ load env loggedIn q = .loaded r) ∨
      ∃ r, next = .response r ∧ reqs = [] ∧ reqs' = [] ∧ rs = r :: rs' := by
  have hnil : ∀ pre : List RequestFile, (∀ q ∈ pre, q ∈ reqs) →
      (∀ q ∈ pre, load env loggedIn q = .missing) → pre = [] := by
    intro pre hsub hm
    cases pre with
    | nil => rfl
    | cons q pre =>
      obtain ⟨r, hr⟩ := hall q (hsub q List.mem_cons_self)
      rw [hm q List.mem_cons_self] at hr
      cases hr
  cases h with
  | none _ hm =>
    have := hnil _ (fun _ hq => hq) hm
    subst this
    exact Or.inl ⟨rfl, rfl, rfl, rfl, rfl⟩
  | thrown pre post q _ hm hl =>
    obtain ⟨r, hr⟩ := hall q (by simp)
    rw [hl] at hr
    cases hr
  | loaded pre post q _ r hm hl =>
    have := hnil pre (fun x hx => by simp [hx]) hm
    subst this
    exact Or.inr (Or.inl ⟨q, r, rfl, rfl, rfl, hl⟩)
  | pending _ r rest hm =>
    have := hnil _ (fun _ hq => hq) hm
    subst this
    exact Or.inr (Or.inr ⟨r, rfl, rfl, rfl, rfl⟩)

/-- A step that moves what waits without changing it. -/
private theorem Accounts.move {c d : Session × Thread} (h : Accounts file qs c rest)
    (hsorted : Sorted d.1 ∧ SortedThread d.2) (hxor : d.1.xorKey = c.1.xorKey)
    (hcounted : (∀ p, ∀ r ∈ (d.1.lane p).responses, Counted r) ∧ CountedThread d.2)
    (hwritten : d.1.written = c.1.written) (hpieces : (pieces file c).Perm (pieces file d))
    (hrequested : ∀ p, ∀ q ∈ (d.1.lane p).requests, q ∈ (c.1.lane p).requests)
    (hin : ∀ p, (d.1.lane p).inFlight ⊆ (c.1.lane p).inFlight) : Accounts file qs d rest where
  sorted := hsorted
  xorKey := hxor.trans h.xorKey
  counted := hcounted
  stream := by
    rw [hwritten]
    exact h.stream
  tracks := h.tracks.perm hpieces
  distinct := h.distinct
  known x hx := h.known x (hpieces.mem_iff.mpr hx)
  requested p q hq := h.requested p q (hrequested p q hq)
  inFlight p k hk := h.inFlight p k (hin p hk)

/-- The next response is taken from its queue. -/
private theorem Accounts.next {s : Session} {p : Bool} {limit n : ℤ} (hserves : Serves env file qs)
    (h : Accounts file qs (s, .loop p limit n) rest) {s' : Session} {next : Next}
    (hnext : nextPendingResponse env s p = (s', next)) :
    (next = .none ∧ Accounts file qs (s', .idle) rest) ∨
      ∃ r, next = .response r ∧ Accounts file qs (s', .write p limit n r) rest := by
  obtain ⟨hpolls, hframe, hwritten⟩ := nextPendingResponse_spec env s p
  have hin := inFlight_next env s p
  have hsorted := sorted_of_next env h.sorted.1 p
  rw [hnext] at hpolls hframe hwritten hin hsorted
  have hloaded : ∀ q ∈ (s.lane p).requests, ∃ r, load env s.loggedIn q = .loaded r ∧
      r.target = q.target ∧ r.data = file q.target ∧ Counted r := by
    intro q hq
    obtain ⟨hfile, hserved⟩ := hserves q (h.requested p q hq)
    exact load_of_serves s.loggedIn hfile hserved
  have hother : lanePieces file s' (!p) = lanePieces file s (!p) :=
    lanePieces_congr file hframe.requests hframe.responses
  -- In the other lane nothing happens.
  have hlanes : ∀ (P : Bool → Prop), P p → P (!p) → ∀ p', P p' := by
    intro P hp hp' p'
    cases p <;> cases p' <;> assumption
  have hperm : ∀ t, (threadPieces (.loop p limit n) ++ lanePieces file s p).Perm
      (threadPieces t ++ lanePieces file s' p) →
      (pieces file (s, .loop p limit n)).Perm (pieces file (s', t)) := by
    intro t ht
    refine (pieces_perm file s _ p).trans (List.Perm.trans ?_ (pieces_perm file s' t p).symm)
    rw [hother, ← List.append_assoc, ← List.append_assoc]
    exact ht.append_right _
  rcases hpolls.of_loaded (fun q hq => (hloaded q hq).imp fun r hr => hr.1) with
    ⟨rfl, hreqs, hreqs', hrs, hrs'⟩ | ⟨q, r, rfl, hreqs, hrs', hload⟩ | ⟨r, rfl, hreqs, hreqs', hrs⟩
  · refine Or.inl ⟨rfl, h.move ⟨hsorted, trivial⟩ hframe.xorKey ⟨?_, trivial⟩ hwritten
      (hperm _ ?_) ?_ hin⟩
    · apply hlanes
      · simp [hrs']
      · rw [hframe.responses]
        exact h.counted.1 !p
    · simp [lanePieces, threadPieces, hreqs, hreqs', hrs, hrs']
    · apply hlanes
      · simp [hreqs']
      · rw [hframe.requests]
        exact fun q hq => hq
  · obtain ⟨r', hr', htarget, hdata, hcount⟩ := hloaded q (by rw [hreqs]; exact List.mem_cons_self)
    rw [hload] at hr'
    cases hr'
    have hp : r.priority = p := hpolls.priority_eq h.sorted.1
    refine Or.inr ⟨r, rfl, h.move ⟨hsorted, hp⟩ hframe.xorKey ⟨?_, hcount⟩ hwritten (hperm _ ?_) ?_ hin⟩
    · apply hlanes
      · rw [hrs']
        exact h.counted.1 p
      · rw [hframe.responses]
        exact h.counted.1 !p
    · simp [lanePieces, threadPieces, hreqs, hrs', htarget, hdata]
    · apply hlanes
      · intro x hx
        rw [hreqs]
        exact List.mem_cons_of_mem q hx
      · rw [hframe.requests]
        exact fun q hq => hq
  · have hp : r.priority = p := hpolls.priority_eq h.sorted.1
    have hcount : Counted r := h.counted.1 p r (by rw [hrs]; exact List.mem_cons_self)
    refine Or.inr ⟨r, rfl, h.move ⟨hsorted, hp⟩ hframe.xorKey ⟨?_, hcount⟩ hwritten (hperm _ ?_) ?_ hin⟩
    · apply hlanes
      · intro x hx
        exact h.counted.1 p x (by rw [hrs]; exact List.mem_cons_of_mem r hx)
      · rw [hframe.responses]
        exact h.counted.1 !p
    · simp [lanePieces, threadPieces, hreqs, hreqs', hrs]
    · apply hlanes
      · simp [hreqs']
      · rw [hframe.requests]
        exact fun q hq => hq

/-- What a block with any payload is. -/
theorem writeResponseBlock_eq {r : PendingResponse} {budget : ℤ} {n : ℕ}
    (hn : payloadBytes r budget = n) (hpos : 0 < n) (hle : n ≤ r.data.length) :
    writeResponseBlock 0 r budget = some ((n : ℤ) + 5,
      { r with data := r.data.drop n, remaining := r.remaining - n },
      r.target.header ++ r.data.take n) := by
  have hxor : (xorByte 0 : Byte → Byte) = id := funext xorByte_zero
  unfold payloadBytes at hn
  unfold writeResponseBlock
  simp only [hn]
  rw [if_neg (by omega), if_neg (by omega), hxor, List.map_id]
  rfl

/-- With room for a whole block, a block is what the schedule of the stream calls one. -/
theorem writeResponseBlock_whole {r : PendingResponse} {budget : ℤ} (hcount : Counted r)
    (hpos : 0 < payloadBytes r budget)
    (hwhole : min (maxResponseBlockPayloadBytes : ℤ) r.remaining ≤ budget - 5) :
    writeResponseBlock 0 r budget = some (payloadBytes r budget + 5,
      { r with
        data := r.data.drop maxResponseBlockPayloadBytes
        remaining := r.remaining - payloadBytes r budget },
      r.target.header ++ r.data.take maxResponseBlockPayloadBytes) := by
  unfold Counted at hcount
  obtain ⟨n, hn⟩ : ∃ n : ℕ, payloadBytes r budget = n := ⟨_, (Int.toNat_of_nonneg hpos.le).symm⟩
  have hmin : n = min maxResponseBlockPayloadBytes r.data.length := by
    unfold payloadBytes at hn
    omega
  have htake : r.data.take n = r.data.take maxResponseBlockPayloadBytes := by
    rcases Nat.le_total r.data.length maxResponseBlockPayloadBytes with hle | hle
    · rw [List.take_of_length_le (by omega), List.take_of_length_le hle]
    · rw [hmin, min_eq_left hle]
  have hdrop : r.data.drop n = r.data.drop maxResponseBlockPayloadBytes := by
    rcases Nat.le_total r.data.length maxResponseBlockPayloadBytes with hle | hle
    · rw [List.drop_of_length_le (by omega), List.drop_of_length_le hle]
    · rw [hmin, min_eq_left hle]
  rw [writeResponseBlock_eq hn (by omega) (by omega), hn, htake, hdrop]

/-- A block is written, or nothing. -/
private theorem Accounts.write {s : Session} {p : Bool} {limit n : ℤ} {r : PendingResponse}
    (h : Accounts file qs (s, .write p limit n r) rest)
    (hwhole : WholeBlock (s, .write p limit n r)) {d : Session × Thread}
    (hstep : processStep env (s, .write p limit n r) = some d) :
    ∃ rest', Accounts file qs d rest' := by
  have hcount : Counted r := h.counted.2
  have hp : r.priority = p := h.sorted.2
  have hxor : s.xorKey = 0 := h.xorKey
  have hlanes : ∀ bytes, lanePieces file (s.write bytes) = lanePieces file s := fun _ => rfl
  rw [processStep, hxor] at hstep
  by_cases hpos : 0 < payloadBytes r (limit - n)
  · have hroom : min (maxResponseBlockPayloadBytes : ℤ) r.remaining ≤ limit - n - 5 := by
      rcases hwhole with hroom | hshort
      · exact hroom
      · unfold payloadBytes at hpos
        omega
    rw [writeResponseBlock_whole hcount hpos hroom] at hstep
    cases hstep
    have hleft : rest r.target = r.data := h.tracks.left (r.target, r.data) List.mem_cons_self
    have hne : rest r.target ≠ [] := by
      rw [hleft, ← List.length_pos_iff]
      unfold Counted at hcount
      unfold payloadBytes at hpos
      omega
    have hsent : Counted { r with
        data := r.data.drop maxResponseBlockPayloadBytes
        remaining := r.remaining - payloadBytes r (limit - n) } := by
      unfold Counted at hcount ⊢
      unfold payloadBytes at hpos ⊢
      simp only [List.length_drop]
      omega
    refine ⟨Function.update rest r.target (r.data.drop maxResponseBlockPayloadBytes), ?_⟩
    constructor
    · exact ⟨h.sorted.1, hp⟩
    · exact hxor
    · exact ⟨h.counted.1, hsent⟩
    · have hblock := Blocks.single r.target hne
      rw [hleft] at hblock
      exact h.stream.append hblock
    · exact h.tracks.replace _
    · exact h.distinct
    · intro x hx
      rcases List.mem_cons.mp hx with rfl | hx
      · exact h.known (r.target, r.data) List.mem_cons_self
      · exact h.known x (List.mem_cons_of_mem _ hx)
    · exact h.requested
    · exact h.inFlight
  · rw [writeResponseBlock_of_le 0 (not_lt.mp hpos)] at hstep
    cases hstep
    exact ⟨rest, h.move ⟨h.sorted.1, hp⟩ rfl ⟨h.counted.1, hcount⟩ (List.append_nil _)
      (List.Perm.refl _) (fun _ _ hq => hq) fun _ => Finset.Subset.refl _⟩

/-- A response goes back to its queue, or is done with. -/
private theorem Accounts.recycle {s : Session} {p : Bool} {limit n : ℤ} {r : PendingResponse}
    (h : Accounts file qs (s, .recycle p limit n r) rest) {d : Session × Thread}
    (hstep : processStep env (s, .recycle p limit n r) = some d) : Accounts file qs d rest := by
  have hsorted := sorted_processStep h.sorted.1 h.sorted.2 hstep
  cases hstep
  have hcount : Counted r := h.counted.2
  have hp : r.priority = p := h.sorted.2
  have hframe := frame_recycle (s := s) hp
  have hresponses := responses_recycle (s := s) hp
  have hrequests := requests_recycle s p r
  have hother : lanePieces file (recyclePendingResponse s r) (!p) = lanePieces file s (!p) :=
    lanePieces_congr file hframe.requests hframe.responses
  have hcounted : ∀ p', ∀ x ∈ ((recyclePendingResponse s r).lane p').responses, Counted x := by
    intro p' x hx
    by_cases hp' : p' = p
    · subst hp'
      rw [hresponses] at hx
      rcases List.mem_append.mp hx with hx | hx
      · exact h.counted.1 _ x hx
      · split_ifs at hx
        · rw [List.mem_singleton.mp hx]
          exact hcount
        · cases hx
    · have hnot : p' = !p := by
        cases p <;> cases p' <;> simp_all
      rw [hnot, hframe.responses] at hx
      exact h.counted.1 _ x hx
  have hreq : ∀ p', ∀ q ∈ ((recyclePendingResponse s r).lane p').requests,
      q ∈ (s.lane p').requests := by
    intro p' q hq
    rwa [requests_recycle] at hq
  have hin : ∀ p', ((recyclePendingResponse s r).lane p').inFlight ⊆ (s.lane p').inFlight :=
    fun p' => inFlight_recycle s r p'
  have hlane : lanePieces file (recyclePendingResponse s r) p =
      lanePieces file s p ++ if 0 < r.remaining then [(r.target, r.data)] else [] := by
    unfold lanePieces
    rw [hrequests, hresponses, List.map_append, List.append_assoc]
    congr 2
    split_ifs <;> rfl
  have hsplit := pieces_perm file (recyclePendingResponse s r) (.loop p limit n) p
  rw [hlane, hother] at hsplit
  have hbefore := pieces_perm file s (.recycle p limit n r) p
  by_cases hmore : 0 < r.remaining
  · refine h.move hsorted hframe.xorKey ⟨hcounted, trivial⟩ (written_recycle s r) ?_ hreq hin
    rw [if_pos hmore] at hsplit
    refine hbefore.trans (List.Perm.trans ?_ hsplit.symm)
    simp only [threadPieces, List.nil_append, List.append_assoc, List.singleton_append]
    exact List.perm_middle.symm
  · have hnil : r.data = [] := by
      unfold Counted at hcount
      rw [← List.length_eq_zero_iff]
      omega
    rw [if_neg hmore, List.append_nil] at hsplit
    have hperm : (pieces file (s, .recycle p limit n r)).Perm
        ((r.target, []) :: pieces file (recyclePendingResponse s r, .loop p limit n)) := by
      refine hbefore.trans ?_
      simp only [threadPieces, hnil, List.singleton_append]
      exact hsplit.symm.cons _
    constructor
    · exact hsorted
    · exact hframe.xorKey.trans h.xorKey
    · exact ⟨hcounted, trivial⟩
    · rw [written_recycle]
      exact h.stream
    · exact (h.tracks.perm hperm).drop
    · exact h.distinct
    · exact fun x hx => h.known x (hperm.mem_iff.mpr (List.mem_cons_of_mem _ hx))
    · exact fun p' q hq => h.requested p' q (hreq p' q hq)
    · exact fun p' k hk => h.inFlight p' k (hin p' hk)

/-- Any step of the thread from a state that does not cut a block. -/
private theorem Accounts.processStep {c d : Session × Thread} (hserves : Serves env file qs)
    (h : Accounts file qs c rest) (hwhole : WholeBlock c) (hstep : processStep env c = some d) :
    ∃ rest', Accounts file qs d rest' := by
  obtain ⟨s, t⟩ := c
  have hleave : ∀ {s : Session} p limit n, Accounts file qs (s, .idle) rest →
      Accounts file qs (s, leaveLoop p limit n) rest := by
    intro s p limit n hs
    have hthread : SortedThread (leaveLoop p limit n) ∧ CountedThread (leaveLoop p limit n) ∧
        threadPieces (leaveLoop p limit n) = [] := by
      cases p <;> exact ⟨trivial, trivial, rfl⟩
    refine hs.move ⟨hs.sorted.1, hthread.1⟩ rfl ⟨hs.counted.1, hthread.2.1⟩ rfl ?_
      (fun _ _ hq => hq) fun _ => Finset.Subset.refl _
    unfold pieces
    rw [hthread.2.2]
    exact List.Perm.refl _
  cases t with
  | idle => cases hstep
  | loop p limit n =>
    rw [Js5Session.processStep] at hstep
    split_ifs at hstep
    · cases hnext : nextPendingResponse env s p with
      | mk s' next =>
        rw [hnext] at hstep
        rcases h.next hserves hnext with ⟨rfl, hnone⟩ | ⟨r, rfl, hresponse⟩
        · cases hstep
          exact ⟨rest, hleave p limit n hnone⟩
        · cases hstep
          exact ⟨rest, hresponse⟩
    · cases hstep
      refine ⟨rest, hleave p limit n (h.move ⟨h.sorted.1, trivial⟩ rfl ⟨h.counted.1, trivial⟩ rfl
        (List.Perm.refl _) (fun _ _ hq => hq) fun _ => Finset.Subset.refl _)⟩
  | write p limit n r => exact h.write hwhole hstep
  | recycle p limit n r => exact ⟨rest, h.recycle hstep⟩

theorem initial_append {q : RequestFile} :
    initial file (qs ++ [q]) = Function.update (initial file qs) q.target (file q.target) := by
  funext t
  unfold initial
  by_cases ht : t = q.target
  · subst ht
    simp
  · rw [Function.update_of_ne ht]
    simp [ht]

section Enqueue
variable {s s' : Session} {t : Thread} {q : RequestFile}

private theorem distinct_append (h : Accounts file qs (s, t) rest)
    (hnew : q.target ∉ qs.map RequestFile.target) :
    ((qs ++ [q]).map RequestFile.target).Nodup := by
  rw [List.map_append, List.map_singleton]
  refine List.nodup_append.mpr ⟨h.distinct, List.nodup_singleton _, ?_⟩
  intro u hu v hv heq
  rw [List.mem_singleton.mp hv] at heq
  exact hnew (heq ▸ hu)

private theorem mem_append {u : Target} (hu : u ∈ qs.map RequestFile.target) :
    u ∈ (qs ++ [q]).map RequestFile.target := by
  rw [List.map_append]
  exact List.mem_append_left _ hu

/-- A response that is written at once. -/
private theorem Accounts.inline (h : Accounts file qs (s, t) rest)
    (hnew : q.target ∉ qs.map RequestFile.target) (hsorted : Sorted s') (hxor : s'.xorKey = 0)
    (hlanes : ∀ p, (s'.lane p).requests = (s.lane p).requests ∧
      (s'.lane p).responses = (s.lane p).responses)
    (hwritten : s'.written = s.written ++ Js5Encoder.response q.target (file q.target))
    (hin : ∀ p, ∀ k ∈ (s'.lane p).inFlight,
      (⟨p, k.index, k.archive⟩ : Target) ∈ (qs ++ [q]).map RequestFile.target) :
    Accounts file (qs ++ [q]) (s', t) rest := by
  have hpieces : pieces file (s', t) = pieces file (s, t) := by
    have hlane : ∀ p, lanePieces file s' p = lanePieces file s p :=
      fun p => lanePieces_congr file (hlanes p).1 (hlanes p).2
    unfold pieces
    simp only [hlane]
  constructor
  · exact ⟨hsorted, h.sorted.2⟩
  · exact hxor
  · refine ⟨fun p r hr => ?_, h.counted.2⟩
    rw [(hlanes p).2] at hr
    exact h.counted.1 p r hr
  · obtain ⟨hrest, hstream⟩ := h.stream.frame (if_neg hnew) (file q.target)
    have hresponse := Js5Encoder.blocks_response q.target (file q.target)
      (Function.update rest q.target (file q.target)) (Function.update_self _ _ _)
    have hback : Function.update (Function.update rest q.target (file q.target)) q.target [] =
        rest := by
      rw [Function.update_idem, ← hrest]
      exact Function.update_eq_self _ _
    rw [hback] at hresponse
    rw [hwritten, initial_append]
    exact hstream.append hresponse
  · rw [hpieces]
    exact h.tracks
  · exact distinct_append h hnew
  · intro x hx
    rw [hpieces] at hx
    exact mem_append (h.known x hx)
  · intro p q' hq'
    rw [(hlanes p).1] at hq'
    exact List.mem_append_left _ (h.requested p q' hq')
  · exact hin

/-- A request that waits in its lane. -/
private theorem Accounts.queue (h : Accounts file qs (s, t) rest)
    (hnew : q.target ∉ qs.map RequestFile.target) (hsorted : Sorted s') (hxor : s'.xorKey = 0)
    (hlanes : ∀ p, (s'.lane p).requests = (s.lane p).requests ++ (if q.priority = p then [q] else []) ∧
      (s'.lane p).responses = (s.lane p).responses)
    (hwritten : s'.written = s.written)
    (hin : ∀ p, ∀ k ∈ (s'.lane p).inFlight,
      (⟨p, k.index, k.archive⟩ : Target) ∈ (qs ++ [q]).map RequestFile.target) :
    Accounts file (qs ++ [q]) (s', t) (Function.update rest q.target (file q.target)) := by
  have hfresh : q.target ∉ (pieces file (s, t)).map Prod.fst := by
    intro hmem
    obtain ⟨x, hx, heq⟩ := List.mem_map.mp hmem
    exact hnew (heq ▸ h.known x hx)
  have hperm : ((q.target, file q.target) :: pieces file (s, t)).Perm (pieces file (s', t)) := by
    have hself : (lanePieces file s' q.priority).Perm
        ((q.target, file q.target) :: lanePieces file s q.priority) := by
      unfold lanePieces
      rw [(hlanes q.priority).1, (hlanes q.priority).2, if_pos rfl, List.map_append,
        List.append_assoc]
      exact List.perm_middle
    have hother : lanePieces file s' (!q.priority) = lanePieces file s (!q.priority) := by
      refine lanePieces_congr file ?_ (hlanes _).2
      rw [(hlanes _).1, if_neg (by cases q.priority <;> simp), List.append_nil]
    have hbefore := pieces_perm file s t q.priority
    have hafter := pieces_perm file s' t q.priority
    rw [hother] at hafter
    refine (hbefore.cons _).trans (List.Perm.trans ?_ hafter.symm)
    have hmiddle := List.Perm.append_left (threadPieces t)
      (hself.append_right (lanePieces file s !q.priority)).symm
    exact List.perm_middle.symm.trans hmiddle
  constructor
  · exact ⟨hsorted, h.sorted.2⟩
  · exact hxor
  · refine ⟨fun p r hr => ?_, h.counted.2⟩
    rw [(hlanes p).2] at hr
    exact h.counted.1 p r hr
  · obtain ⟨-, hstream⟩ := h.stream.frame (if_neg hnew) (file q.target)
    rw [hwritten, initial_append]
    exact hstream
  · exact (h.tracks.add hfresh (file q.target)).perm hperm
  · exact distinct_append h hnew
  · intro x hx
    rcases List.mem_cons.mp (hperm.mem_iff.mpr hx) with rfl | hx
    · simp
    · exact mem_append (h.known x hx)
  · intro p q' hq'
    rw [(hlanes p).1] at hq'
    rcases List.mem_append.mp hq' with hq' | hq'
    · exact List.mem_append_left _ (h.requested p q' hq')
    · split_ifs at hq' with hp
      · exact List.mem_append_right _ hq'
      · cases hq'
  · exact hin

/-- A request for another file. -/
private theorem Accounts.enqueue (h : Accounts file qs (s, t) rest)
    (hnew : q.target ∉ qs.map RequestFile.target)
    (hserves : ∀ loggedIn, loadFileData env loggedIn q = some (file q.target))
    (hserved : Served (file q.target)) :
    ∃ rest', Accounts file (qs ++ [q]) (enqueueRequest env s q, t) rest' := by
  have hsorted := sorted_enqueueRequest env h.sorted.1 q
  have hfree : q.archiveKey ∉ (s.lane q.priority).inFlight := fun hin =>
    hnew (h.inFlight q.priority q.archiveKey hin)
  have hin : ∀ p, ∀ k ∈ ((addInFlight s q.priority q.archiveKey).lane p).inFlight,
      (⟨p, k.index, k.archive⟩ : Target) ∈ (qs ++ [q]).map RequestFile.target := by
    intro p k hk
    unfold addInFlight at hk
    rw [Session.lane_setLane] at hk
    split_ifs at hk with hp
    · subst hp
      rcases Finset.mem_insert.mp hk with rfl | hk
      · simp [RequestFile.target, RequestFile.archiveKey]
      · exact mem_append (h.inFlight _ k hk)
    · exact mem_append (h.inFlight p k hk)
  have hkeep : ∀ p, ((addInFlight s q.priority q.archiveKey).lane p).requests =
      (s.lane p).requests ∧ ((addInFlight s q.priority q.archiveKey).lane p).responses =
      (s.lane p).responses := by
    intro p
    cases p <;> cases hp : q.priority <;> simp [addInFlight, Session.setLane, Session.lane]
  have hxor : (addInFlight s q.priority q.archiveKey).xorKey = 0 := by
    unfold addInFlight
    rw [Session.setLane_xorKey]
    exact h.xorKey
  have hwritten : (addInFlight s q.priority q.archiveKey).written = s.written := by
    unfold addInFlight
    rw [Session.setLane_written]
  unfold enqueueRequest at hsorted ⊢
  rw [if_neg (fun hdup => hfree hdup.1)] at hsorted ⊢
  simp only [hserves] at hsorted ⊢
  generalize addInFlight s q.priority q.archiveKey = s₁ at *
  by_cases hinline : isInlineCriticalRequest q = true
  · have hpriority : q.priority = true := by
      unfold isInlineCriticalRequest at hinline
      simp only [Bool.and_eq_true, decide_eq_true_eq] at hinline
      exact hinline.1.1
    have hbytes : (Js5Encoder.encode 0 true q.index q.archive (file q.target)).getD [] =
        Js5Encoder.response q.target (file q.target) := by
      have hencode := Js5Encoder.encode_eq q.target hserved
      change Js5Encoder.encode 0 q.priority q.index q.archive _ = _ at hencode
      rw [hpriority] at hencode
      rw [hencode]
      rfl
    rw [if_pos hinline, hxor, hbytes] at hsorted ⊢
    refine ⟨rest, h.inline hnew hsorted ?_ (fun p => ?_) ?_ fun p k hk => ?_⟩
    · exact (frame_removeInFlight _ true _ _).xorKey.trans hxor
    · rw [requests_removeInFlight, responses_removeInFlight]
      exact hkeep p
    · rw [written_removeInFlight, ← hwritten]
      rfl
    · have hk' := inFlight_removeInFlight _ p _ _ hk
      exact hin p k hk'
  · rw [if_neg hinline] at hsorted ⊢
    refine ⟨_, h.queue hnew hsorted ?_ (fun p => ?_) ?_ fun p k hk => ?_⟩
    · exact (frame_setRequests s₁ q.priority _).xorKey.trans hxor
    · obtain ⟨hreq, hres⟩ := hkeep p
      rw [← hreq, ← hres]
      unfold addRequest setRequests
      rw [Session.lane_setLane]
      split_ifs with hp
      · subst hp
        exact ⟨rfl, rfl⟩
      · exact ⟨(List.append_nil _).symm, rfl⟩
    · unfold addRequest
      rw [written_setRequests]
      exact hwritten
    · unfold addRequest at hk
      rw [inFlight_setRequests] at hk
      exact hin p k hk

end Enqueue

/-- In every run whose blocks are not cut, the stream so far leads to what still waits. -/
theorem accounts_of_serving {c : Session × Thread} (hserves : Serves env file qs)
    (h : Serving env WholeBlock qs c) : ∃ rest, Accounts file qs c rest := by
  induction h with
  | start =>
    refine ⟨fun _ => [], ⟨fun p => ?_, trivial⟩, rfl, ⟨fun p r hr => ?_, trivial⟩, ?_,
      ⟨List.nodup_nil, fun x hx => (List.not_mem_nil hx).elim, fun t ht => absurd rfl ht⟩,
      List.nodup_nil, fun x hx => (List.not_mem_nil hx).elim, fun p q hq => ?_, fun p k hk => ?_⟩
    · cases p <;> simp [Session.lane]
    · cases p <;> cases hr
    · exact Blocks.nil _
    · cases p <;> cases hq
    · cases p <;> simp [Session.lane] at hk
  | enqueue h q hnew ih =>
    obtain ⟨rest, hacc⟩ := ih fun x hx => hserves x (List.mem_append_left _ hx)
    obtain ⟨hfile, hserved⟩ := hserves q (by simp)
    exact hacc.enqueue hnew hfile hserved
  | updateLoggedInState h loggedIn ih =>
    obtain ⟨rest, hacc⟩ := ih hserves
    refine ⟨rest, hacc.move ⟨sorted_of_lanes hacc.sorted.1 (fun p => ?_) fun p => ?_, hacc.sorted.2⟩
      rfl ⟨fun p r hr => ?_, hacc.counted.2⟩ rfl (List.Perm.refl _) (fun p q hq => ?_) fun p => ?_⟩
    · cases p <;> rfl
    · cases p <;> rfl
    · refine hacc.counted.1 p r ?_
      cases p <;> exact hr
    · cases p <;> exact hq
    · cases p <;> exact Finset.Subset.refl _
  | call h limit hlimit ih =>
    obtain ⟨rest, hacc⟩ := ih hserves
    exact ⟨rest, hacc.move ⟨hacc.sorted.1, trivial⟩ rfl ⟨hacc.counted.1, trivial⟩ rfl
      (List.Perm.refl _) (fun _ _ hq => hq) fun _ => Finset.Subset.refl _⟩
  | process h hallowed hstep ih =>
    obtain ⟨rest, hacc⟩ := ih hserves
    exact hacc.processStep hserves hallowed hstep

/-- A drained session has written the blocks of all files. -/
theorem blocks_of_serving {s : Session} (hserves : Serves env file qs)
    (h : Serving env WholeBlock qs (s, .idle)) (hdrained : Drained s) :
    (qs.map RequestFile.target).Nodup ∧
      Blocks (initial file qs) s.written (fun _ => []) := by
  obtain ⟨rest, hacc⟩ := accounts_of_serving hserves h
  refine ⟨hacc.distinct, ?_⟩
  have hpieces : pieces file (s, .idle) = [] := by
    obtain ⟨hreq, hres⟩ := hdrained true
    obtain ⟨hreq', hres'⟩ := hdrained false
    simp [pieces, threadPieces, lanePieces, hreq, hres, hreq', hres']
  have hempty : rest = fun _ => [] := by
    funext t
    by_contra hne
    have hmem := hacc.tracks.covers t hne
    rw [hpieces] at hmem
    cases hmem
  exact hempty ▸ hacc.stream

end Invariant

end Js5Session

end OpenNXT.Net
