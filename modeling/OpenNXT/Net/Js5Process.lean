import OpenNXT.Net.Js5Session
import Mathlib.Algebra.Order.BigOperators.Group.List

/-! When a call of `process` ends. -/
namespace OpenNXT.Net
open Buffer Transition

namespace Js5Session

/-- Every request and response lies in the lane of its own priority. -/
def Sorted (s : Session) : Prop :=
  ∀ p, (∀ q ∈ (s.lane p).requests, q.priority = p) ∧ ∀ r ∈ (s.lane p).responses, r.priority = p

/-- A step that touches the queues of one lane only. -/
structure Frame (p : Bool) (s s' : Session) : Prop where
  loggedIn : s'.loggedIn = s.loggedIn
  xorKey : s'.xorKey = s.xorKey
  requests : (s'.lane !p).requests = (s.lane !p).requests
  responses : (s'.lane !p).responses = (s.lane !p).responses

theorem Frame.trans {p : Bool} {s s' s'' : Session} (h : Frame p s s') (h' : Frame p s' s'') :
    Frame p s s'' where
  loggedIn := h'.loggedIn.trans h.loggedIn
  xorKey := h'.xorKey.trans h.xorKey
  requests := h'.requests.trans h.requests
  responses := h'.responses.trans h.responses

section Lanes

@[simp] theorem requests_removeInFlight (s : Session) (p q : Bool) (key : ArchiveKey) :
    ((removeInFlight s q key).lane p).requests = (s.lane p).requests := by
  cases p <;> cases q <;> rfl

@[simp] theorem responses_removeInFlight (s : Session) (p q : Bool) (key : ArchiveKey) :
    ((removeInFlight s q key).lane p).responses = (s.lane p).responses := by
  cases p <;> cases q <;> rfl

@[simp] theorem loggedIn_removeInFlight (s : Session) (q : Bool) (key : ArchiveKey) :
    (removeInFlight s q key).loggedIn = s.loggedIn := by
  cases q <;> rfl

@[simp] theorem written_removeInFlight (s : Session) (q : Bool) (key : ArchiveKey) :
    (removeInFlight s q key).written = s.written := by
  cases q <;> rfl

theorem frame_removeInFlight (s : Session) (p q : Bool) (key : ArchiveKey) :
    Frame p s (removeInFlight s q key) := by
  cases p <;> cases q <;> constructor <;> rfl

theorem frame_setRequests (s : Session) (p : Bool) (qs : List RequestFile) :
    Frame p s (setRequests s p qs) := by
  cases p <;> constructor <;> rfl

theorem frame_setResponses (s : Session) (p : Bool) (rs : List PendingResponse) :
    Frame p s (setResponses s p rs) := by
  cases p <;> constructor <;> rfl

theorem frame_write (s : Session) (p : Bool) (bytes : List Byte) : Frame p s (s.write bytes) := by
  constructor <;> rfl

@[simp] theorem requests_setRequests (s : Session) (p : Bool) (qs : List RequestFile) :
    ((setRequests s p qs).lane p).requests = qs := by
  cases p <;> rfl

@[simp] theorem responses_setRequests (s : Session) (p : Bool) (qs : List RequestFile) :
    ((setRequests s p qs).lane p).responses = (s.lane p).responses := by
  cases p <;> rfl

@[simp] theorem requests_setResponses (s : Session) (p : Bool) (rs : List PendingResponse) :
    ((setResponses s p rs).lane p).requests = (s.lane p).requests := by
  cases p <;> rfl

@[simp] theorem responses_setResponses (s : Session) (p : Bool) (rs : List PendingResponse) :
    ((setResponses s p rs).lane p).responses = rs := by
  cases p <;> rfl

@[simp] theorem written_setRequests (s : Session) (p : Bool) (qs : List RequestFile) :
    (setRequests s p qs).written = s.written := by
  cases p <;> rfl

@[simp] theorem written_setResponses (s : Session) (p : Bool) (rs : List PendingResponse) :
    (setResponses s p rs).written = s.written := by
  cases p <;> rfl

@[simp] theorem loggedIn_setRequests (s : Session) (p : Bool) (qs : List RequestFile) :
    (setRequests s p qs).loggedIn = s.loggedIn := by
  cases p <;> rfl

end Lanes

/-- What taking the next response does to the requests and responses of a lane. Requests without a
file are skipped. -/
inductive Polls (env : Environment) (loggedIn : Bool) : List RequestFile → List PendingResponse →
    List RequestFile → List PendingResponse → Next → Prop
  | none (qs : List RequestFile) (hm : ∀ q ∈ qs, load env loggedIn q = .missing) :
      Polls env loggedIn qs [] [] [] .none
  | thrown (pre post : List RequestFile) (q : RequestFile) (rs : List PendingResponse)
      (hm : ∀ q ∈ pre, load env loggedIn q = .missing) (hl : load env loggedIn q = .thrown) :
      Polls env loggedIn (pre ++ q :: post) rs post rs .thrown
  | loaded (pre post : List RequestFile) (q : RequestFile) (rs : List PendingResponse)
      (r : PendingResponse) (hm : ∀ q ∈ pre, load env loggedIn q = .missing)
      (hl : load env loggedIn q = .loaded r) :
      Polls env loggedIn (pre ++ q :: post) rs post rs (.response r)
  | pending (qs : List RequestFile) (r : PendingResponse) (rest : List PendingResponse)
      (hm : ∀ q ∈ qs, load env loggedIn q = .missing) :
      Polls env loggedIn qs (r :: rest) [] rest (.response r)

private theorem Polls.skip {env : Environment} {loggedIn : Bool} {q : RequestFile}
    {qs qs' : List RequestFile} {rs rs' : List PendingResponse} {n : Next}
    (hl : load env loggedIn q = .missing) (h : Polls env loggedIn qs rs qs' rs' n) :
    Polls env loggedIn (q :: qs) rs qs' rs' n := by
  have hcons : ∀ pre : List RequestFile, (∀ x ∈ pre, load env loggedIn x = .missing) →
      ∀ x ∈ q :: pre, load env loggedIn x = .missing := by
    intro pre hm x hx
    rcases List.mem_cons.mp hx with rfl | hx
    · exact hl
    · exact hm x hx
  cases h with
  | none _ hm => exact .none _ (hcons _ hm)
  | thrown pre post x _ hm hx => exact .thrown (q :: pre) _ x _ (hcons _ hm) hx
  | loaded pre post x _ r hm hx => exact .loaded (q :: pre) _ x _ r (hcons _ hm) hx
  | pending _ r _ hm => exact .pending _ r _ (hcons _ hm)

private theorem pollRequests_spec (env : Environment) (p : Bool) (qs : List RequestFile)
    (s : Session) :
    Polls env s.loggedIn qs (s.lane p).responses
        ((pollRequests env p qs s).1.lane p).requests
        ((pollRequests env p qs s).1.lane p).responses (pollRequests env p qs s).2 ∧
      Frame p s (pollRequests env p qs s).1 ∧ (pollRequests env p qs s).1.written = s.written := by
  induction qs generalizing s with
  | nil =>
    unfold pollRequests
    cases hr : (s.lane p).responses with
    | nil =>
      refine ⟨?_, frame_setRequests s p [], written_setRequests s p []⟩
      simp only [requests_setRequests, responses_setRequests, hr]
      exact .none [] (by simp)
    | cons r rest =>
      have hframe := (frame_setRequests s p []).trans (frame_setResponses _ p rest)
      refine ⟨?_, hframe, by simp⟩
      simp only [requests_setResponses, requests_setRequests, responses_setResponses]
      exact .pending [] r rest (by simp)
  | cons q qs ih =>
    unfold pollRequests
    cases hl : load env s.loggedIn q with
    | missing =>
      obtain ⟨hpolls, hframe, hwritten⟩ := ih (removeInFlight s q.priority q.archiveKey)
      rw [responses_removeInFlight, loggedIn_removeInFlight] at hpolls
      refine ⟨hpolls.skip hl, (frame_removeInFlight s p _ _).trans hframe, ?_⟩
      rw [hwritten, written_removeInFlight]
    | thrown =>
      refine ⟨?_, frame_setRequests s p qs, written_setRequests s p qs⟩
      simp only [requests_setRequests, responses_setRequests]
      exact .thrown [] qs q _ (by simp) hl
    | loaded r =>
      refine ⟨?_, frame_setRequests s p qs, written_setRequests s p qs⟩
      simp only [requests_setRequests, responses_setRequests]
      exact .loaded [] qs q _ r (by simp) hl

theorem nextPendingResponse_spec (env : Environment) (s : Session) (p : Bool) :
    Polls env s.loggedIn (s.lane p).requests (s.lane p).responses
        ((nextPendingResponse env s p).1.lane p).requests
        ((nextPendingResponse env s p).1.lane p).responses (nextPendingResponse env s p).2 ∧
      Frame p s (nextPendingResponse env s p).1 ∧
      (nextPendingResponse env s p).1.written = s.written :=
  pollRequests_spec env p (s.lane p).requests s

section Recycle

@[simp] theorem requests_recycle (s : Session) (p : Bool) (r : PendingResponse) :
    ((recyclePendingResponse s r).lane p).requests = (s.lane p).requests := by
  unfold recyclePendingResponse
  split_ifs
  · cases p <;> cases hp : r.priority <;> rfl
  · exact requests_removeInFlight _ _ _ _

theorem responses_recycle {s : Session} {p : Bool} {r : PendingResponse} (hp : r.priority = p) :
    ((recyclePendingResponse s r).lane p).responses =
      (s.lane p).responses ++ if 0 < r.remaining then [r] else [] := by
  unfold recyclePendingResponse
  split_ifs
  · rw [hp, responses_setResponses]
  · rw [responses_removeInFlight, List.append_nil]

theorem frame_recycle {s : Session} {p : Bool} {r : PendingResponse} (hp : r.priority = p) :
    Frame p s (recyclePendingResponse s r) := by
  unfold recyclePendingResponse
  split_ifs
  · rw [hp]
    exact frame_setResponses _ _ _
  · exact frame_removeInFlight _ _ _ _

theorem written_recycle (s : Session) (r : PendingResponse) :
    (recyclePendingResponse s r).written = s.written := by
  unfold recyclePendingResponse
  split_ifs
  · exact written_setResponses _ _ _
  · exact written_removeInFlight _ _ _

end Recycle

/-- What a budget lets through of a response. -/
def payloadBytes (r : PendingResponse) (budget : ℤ) : ℤ :=
  min (min (maxResponseBlockPayloadBytes : ℤ) r.remaining) (budget - 5)

theorem writeResponseBlock_of_le {r : PendingResponse} {budget : ℤ} (xor : Word)
    (h : payloadBytes r budget ≤ 0) : writeResponseBlock xor r budget = some (0, r, []) := by
  unfold payloadBytes at h
  unfold writeResponseBlock
  rw [if_pos h]

theorem writeResponseBlock_of_lt {r r' : PendingResponse} {budget sent : ℤ} {xor : Word}
    {bytes : List Byte} (hpos : 0 < payloadBytes r budget)
    (h : writeResponseBlock xor r budget = some (sent, r', bytes)) :
    sent = payloadBytes r budget + 5 ∧
      r' = { r with
        data := r.data.drop (payloadBytes r budget).toNat
        remaining := r.remaining - payloadBytes r budget } ∧
      bytes = blockHeader xor r.priority r.index r.archive ++
        (r.data.take (payloadBytes r budget).toNat).map (xorByte xor) := by
  unfold payloadBytes at hpos ⊢
  unfold writeResponseBlock at h
  rw [if_neg (not_le.mpr hpos)] at h
  split_ifs at h
  cases h
  exact ⟨rfl, rfl, rfl⟩

section Loop
variable {env : Environment} {s : Session} {p : Bool} {limit bytesSent : ℤ}

theorem halts_of_limit_le (h : limit ≤ bytesSent) :
    Halts (processStep env) (s, .loop p limit bytesSent) := by
  have hleave : ∀ p, processStep env (s, .loop p limit bytesSent) =
      some (s, leaveLoop p limit bytesSent) := fun p => by
    rw [processStep, if_neg (not_lt.mpr h)]
  have hlow : Halts (processStep env) (s, .loop false limit bytesSent) :=
    .next (hleave false) (.stop rfl)
  cases p with
  | false => exact hlow
  | true => exact .next (hleave true) hlow

theorem halts_of_none (h : bytesSent < limit) {s' : Session}
    (hnext : nextPendingResponse env s p = (s', .none)) :
    Halts (processStep env) (s, .loop p limit bytesSent) ↔
      Halts (processStep env) (s', leaveLoop p limit bytesSent) := by
  apply halts_iff_of_step
  rw [processStep, if_pos h, hnext]

theorem halts_of_thrown (h : bytesSent < limit) {s' : Session}
    (hnext : nextPendingResponse env s p = (s', .thrown)) :
    Halts (processStep env) (s, .loop p limit bytesSent) := by
  have hstep : processStep env (s, .loop p limit bytesSent) = some (s', .idle) := by
    rw [processStep, if_pos h, hnext]
  exact .next hstep (.stop rfl)

/-- A response is taken, and goes on to be written. -/
theorem step_of_response (h : bytesSent < limit) {s' : Session} {r : PendingResponse}
    (hnext : nextPendingResponse env s p = (s', .response r)) :
    processStep env (s, .loop p limit bytesSent) = some (s', .write p limit bytesSent r) := by
  rw [processStep, if_pos h, hnext]

theorem steps_of_write (env : Environment) {r r' : PendingResponse} {sent : ℤ} {bytes : List Byte}
    (hwrite : writeResponseBlock s.xorKey r (limit - bytesSent) = some (sent, r', bytes)) :
    Steps (processStep env) (s, .write p limit bytesSent r)
      (recyclePendingResponse (s.write bytes) r', .loop p limit (bytesSent + sent)) := by
  have hfirst : processStep env (s, .write p limit bytesSent r) =
      some (s.write bytes, .recycle p limit (bytesSent + sent) r') := by
    rw [processStep, hwrite]
  exact .head hfirst (.single rfl)

theorem halts_of_write_none {r : PendingResponse}
    (hwrite : writeResponseBlock s.xorKey r (limit - bytesSent) = none) :
    Halts (processStep env) (s, .write p limit bytesSent r) := by
  have hstep : processStep env (s, .write p limit bytesSent r) = some (s, .idle) := by
    rw [processStep, hwrite]
  exact .next hstep (.stop rfl)

end Loop

/-- Every queued request of a lane is taken without an exception. -/
def LoadsAll (env : Environment) (loggedIn : Bool) (qs : List RequestFile) : Prop :=
  ∀ q ∈ qs, load env loggedIn q ≠ .thrown

/-- A response with bytes left waits in a lane, or will once its request is taken. -/
def HasBytes (env : Environment) (loggedIn : Bool) (qs : List RequestFile)
    (rs : List PendingResponse) : Prop :=
  (∃ r ∈ rs, 0 < r.remaining) ∨ ∃ q ∈ qs, ∃ r, load env loggedIn q = .loaded r ∧ 0 < r.remaining

def LaneWaiting (env : Environment) (s : Session) (p : Bool) : Prop :=
  LoadsAll env s.loggedIn (s.lane p).requests ∧
    HasBytes env s.loggedIn (s.lane p).requests (s.lane p).responses

/-- A response waits in the loop over one priority, or in the loop after it. -/
def Waiting (env : Environment) (s : Session) (p : Bool) : Prop :=
  LaneWaiting env s p ∨
    (p = true ∧ LoadsAll env s.loggedIn (s.lane true).requests ∧ LaneWaiting env s false)

section Leftover
variable {env : Environment} {limit bytesSent : ℤ}

theorem priority_load {loggedIn : Bool} {q : RequestFile} {r : PendingResponse}
    (h : load env loggedIn q = .loaded r) : r.priority = q.priority := by
  unfold load at h
  split at h
  · cases h
  · split at h
    · cases h
    · cases h
      rfl

/-- What a lane keeps of a response after its block. -/
def kept (r : PendingResponse) : List PendingResponse := if 0 < r.remaining then [r] else []

theorem Polls.loadsAll_iff {loggedIn : Bool} {qs qs' : List RequestFile}
    {rs rs' : List PendingResponse} {r : PendingResponse}
    (h : Polls env loggedIn qs rs qs' rs' (.response r)) :
    LoadsAll env loggedIn qs ↔ LoadsAll env loggedIn qs' := by
  unfold LoadsAll
  cases h with
  | loaded pre post q rs r hm hl =>
    constructor
    · intro hall x hx
      exact hall x (by simp [hx])
    · intro hall x hx
      rcases List.mem_append.mp hx with hx | hx
      · simp [hm x hx]
      · rcases List.mem_cons.mp hx with rfl | hx
        · simp [hl]
        · exact hall x hx
  | pending qs r rest hm =>
    constructor
    · intro _ x hx
      cases hx
    · intro _ x hx
      simp [hm x hx]

theorem Polls.hasBytes_iff {loggedIn : Bool} {qs qs' : List RequestFile}
    {rs rs' : List PendingResponse} {r : PendingResponse}
    (h : Polls env loggedIn qs rs qs' rs' (.response r)) :
    HasBytes env loggedIn qs rs ↔ HasBytes env loggedIn qs' (rs' ++ kept r) := by
  have hkept : ∀ x, (x ∈ kept r ∧ 0 < x.remaining) ↔ (x = r ∧ 0 < r.remaining) := by
    intro x
    unfold kept
    split_ifs with hr
    · constructor
      · rintro ⟨hx, -⟩
        exact ⟨List.mem_singleton.mp hx, hr⟩
      · rintro ⟨rfl, -⟩
        exact ⟨List.mem_singleton_self x, hr⟩
    · simp [hr]
  unfold HasBytes
  cases h with
  | loaded pre post q rs r hm hl =>
    constructor
    · rintro (⟨x, hx, hpos⟩ | ⟨x, hx, y, hy, hpos⟩)
      · exact Or.inl ⟨x, List.mem_append_left _ hx, hpos⟩
      · rcases List.mem_append.mp hx with hx | hx
        · rw [hm x hx] at hy
          cases hy
        · rcases List.mem_cons.mp hx with rfl | hx
          · rw [hl] at hy
            cases hy
            exact Or.inl ⟨r, List.mem_append_right _ ((hkept r).mpr ⟨rfl, hpos⟩).1, hpos⟩
          · exact Or.inr ⟨x, hx, y, hy, hpos⟩
    · rintro (⟨x, hx, hpos⟩ | ⟨x, hx, y, hy, hpos⟩)
      · rcases List.mem_append.mp hx with hx | hx
        · exact Or.inl ⟨x, hx, hpos⟩
        · obtain ⟨rfl, hr⟩ := (hkept x).mp ⟨hx, hpos⟩
          exact Or.inr ⟨q, by simp, x, hl, hr⟩
      · exact Or.inr ⟨x, by simp [hx], y, hy, hpos⟩
  | pending qs r rest hm =>
    constructor
    · rintro (⟨x, hx, hpos⟩ | ⟨x, hx, y, hy, -⟩)
      · rcases List.mem_cons.mp hx with rfl | hx
        · exact Or.inl ⟨x, List.mem_append_right _ ((hkept x).mpr ⟨rfl, hpos⟩).1, hpos⟩
        · exact Or.inl ⟨x, List.mem_append_left _ hx, hpos⟩
      · rw [hm x hx] at hy
        cases hy
    · rintro (⟨x, hx, hpos⟩ | ⟨x, hx, -⟩)
      · rcases List.mem_append.mp hx with hx | hx
        · exact Or.inl ⟨x, List.mem_cons_of_mem _ hx, hpos⟩
        · obtain ⟨rfl, hr⟩ := (hkept x).mp ⟨hx, hpos⟩
          exact Or.inl ⟨x, List.mem_cons_self, hr⟩
      · cases hx

/-- Taking a response shortens a lane in which none waits. -/
theorem Polls.length_lt {loggedIn : Bool} {qs qs' : List RequestFile}
    {rs rs' : List PendingResponse} {r : PendingResponse}
    (h : Polls env loggedIn qs rs qs' rs' (.response r))
    (hw : ¬ (LoadsAll env loggedIn qs ∧ HasBytes env loggedIn qs rs)) :
    2 * qs'.length + (rs' ++ kept r).length < 2 * qs.length + rs.length := by
  have hone : (kept r).length ≤ 1 := by
    unfold kept
    split_ifs <;> simp
  cases h with
  | loaded pre post q rs r hm hl =>
    simp only [List.length_append, List.length_cons]
    omega
  | pending qs r rest hm =>
    have hnone : kept r = [] := by
      unfold kept
      rw [if_neg]
      intro hpos
      apply hw
      constructor
      · intro q hq
        simp [hm q hq]
      · exact Or.inl ⟨r, List.mem_cons_self, hpos⟩
    simp only [hnone, List.append_nil, List.length_nil, List.length_cons]
    omega

/-- Five bytes are not enough for any block. -/
private theorem payloadBytes_nonpos {r : PendingResponse} (h : limit ≤ bytesSent + 5) :
    payloadBytes r (limit - bytesSent) ≤ 0 := by
  unfold payloadBytes
  omega

/-- A response in a lane belongs to it, whether it was taken from its requests or its responses. -/
theorem Polls.priority_eq {s : Session} {p : Bool} {qs' : List RequestFile}
    {rs' : List PendingResponse} {r : PendingResponse} (hs : Sorted s)
    (h : Polls env s.loggedIn (s.lane p).requests (s.lane p).responses qs' rs' (.response r)) :
    r.priority = p := by
  obtain ⟨hq, hr⟩ := hs p
  generalize hqs : (s.lane p).requests = qs at h hq
  generalize hrs : (s.lane p).responses = rs at h hr
  cases h with
  | loaded pre post q rs r hm hl => exact (priority_load hl).trans (hq q (by simp))
  | pending qs r rest hm => exact hr r List.mem_cons_self

theorem Polls.of_none {loggedIn : Bool} {qs qs' : List RequestFile}
    {rs rs' : List PendingResponse} (h : Polls env loggedIn qs rs qs' rs' .none) :
    LoadsAll env loggedIn qs ∧ ¬ HasBytes env loggedIn qs rs := by
  cases h with
  | none _ hm =>
    constructor
    · intro q hq
      simp [hm q hq]
    · rintro (⟨x, hx, -⟩ | ⟨x, hx, y, hy, -⟩)
      · cases hx
      · rw [hm x hx] at hy
        cases hy

theorem Polls.of_thrown {loggedIn : Bool} {qs qs' : List RequestFile}
    {rs rs' : List PendingResponse} (h : Polls env loggedIn qs rs qs' rs' .thrown) :
    ¬ LoadsAll env loggedIn qs := by
  cases h with
  | thrown pre _ q _ hm hl =>
    intro hall
    exact hall q (by simp) hl

theorem Polls.mem_requests {loggedIn : Bool} {qs qs' : List RequestFile}
    {rs rs' : List PendingResponse} {n : Next} (h : Polls env loggedIn qs rs qs' rs' n) :
    (∀ q ∈ qs', q ∈ qs) ∧ ∀ r ∈ rs', r ∈ rs := by
  cases h with
  | none => simp
  | thrown => exact ⟨fun x hx => by simp [hx], fun x hx => hx⟩
  | loaded => exact ⟨fun x hx => by simp [hx], fun x hx => hx⟩
  | pending => exact ⟨fun x hx => (by cases hx), fun x hx => List.mem_cons_of_mem _ hx⟩

theorem Frame.sorted {s t : Session} {p : Bool} (hf : Frame p s t) (hs : Sorted s)
    (hq : ∀ q ∈ (t.lane p).requests, q.priority = p)
    (hr : ∀ r ∈ (t.lane p).responses, r.priority = p) : Sorted t := by
  intro p'
  by_cases hp : p' = p
  · subst hp
    exact ⟨hq, hr⟩
  · have hnot : p' = !p := by
      cases p <;> cases p' <;> simp_all
    subst hnot
    rw [hf.requests, hf.responses]
    exact hs !p

theorem sorted_of_next (env : Environment) {s : Session} (hs : Sorted s) (p : Bool) :
    Sorted (nextPendingResponse env s p).1 := by
  obtain ⟨hpolls, hframe, -⟩ := nextPendingResponse_spec env s p
  obtain ⟨hq, hr⟩ := hpolls.mem_requests
  exact hframe.sorted hs (fun q hx => (hs p).1 q (hq q hx)) fun r hx => (hs p).2 r (hr r hx)

/-- The lane after a response was taken, written and recycled. -/
theorem lane_of_iteration {s s' : Session} {p : Bool} {r r' : PendingResponse} (hs : Sorted s)
    (hnext : nextPendingResponse env s p = (s', .response r)) (hr : r'.priority = r.priority)
    (bytes : List Byte) :
    let t := recyclePendingResponse (s'.write bytes) r'
    ∃ rs', Polls env s.loggedIn (s.lane p).requests (s.lane p).responses
        (t.lane p).requests rs' (.response r) ∧
      (t.lane p).responses = rs' ++ kept r' ∧ Frame p s t ∧ Sorted t := by
  obtain ⟨hpolls, hframe, -⟩ := nextPendingResponse_spec env s p
  have hsorted' := sorted_of_next env hs p
  rw [hnext] at hpolls hframe hsorted'
  have hp : r'.priority = p := hr.trans (hpolls.priority_eq hs)
  have hresponses := responses_recycle (s := s'.write bytes) hp
  have hall := (hframe.trans (frame_write s' p bytes)).trans (frame_recycle (s := s'.write bytes) hp)
  have hrequests := requests_recycle (s'.write bytes) p r'
  refine ⟨(s'.lane p).responses, ?_, hresponses, hall, hall.sorted hs ?_ ?_⟩
  · rw [hrequests]
    exact hpolls
  · rw [hrequests]
    exact (hsorted' p).1
  · rw [hresponses]
    intro x hx
    rcases List.mem_append.mp hx with hx | hx
    · exact (hsorted' p).2 x hx
    · split_ifs at hx
      · rw [List.mem_singleton.mp hx]
        exact hp
      · cases hx

/-- With one to five bytes left, a response that waits is put back and taken again, for ever. -/
theorem not_halts_of_laneWaiting (hlt : bytesSent < limit) (hle : limit ≤ bytesSent + 5)
    {s : Session} {p : Bool} (hs : Sorted s) (hw : LaneWaiting env s p) :
    ¬ Halts (processStep env) (s, .loop p limit bytesSent) := by
  apply not_halts_of_recurs (fun c => ∃ s, c = (s, .loop p limit bytesSent) ∧ Sorted s ∧
    LaneWaiting env s p) ?_ ⟨s, rfl, hs, hw⟩
  rintro c ⟨s, rfl, hs, hloads, hbytes⟩
  obtain ⟨hpolls, -⟩ := nextPendingResponse_spec env s p
  cases hnext : nextPendingResponse env s p with
  | mk s' n =>
    rw [hnext] at hpolls
    cases n with
    | none => exact absurd hbytes hpolls.of_none.2
    | thrown => exact absurd hloads hpolls.of_thrown
    | response r =>
      have hwrite := writeResponseBlock_of_le s'.xorKey (payloadBytes_nonpos (r := r) hle)
      obtain ⟨rs', hp, hresponses, hframe, hsorted⟩ := lane_of_iteration hs hnext (rfl : r.priority = r.priority) []
      have hsteps := steps_of_write env (p := p) hwrite
      rw [add_zero] at hsteps
      refine ⟨_, step_of_response hlt hnext, _, hsteps, _, rfl, hsorted, ?_⟩
      unfold LaneWaiting
      rw [hframe.loggedIn, hresponses]
      exact ⟨hp.loadsAll_iff.mp hloads, hp.hasBytes_iff.mp hbytes⟩

/-- With one to five bytes left, the loop over one priority ends in an exception, or drops the
responses without bytes and goes on. -/
theorem halts_leftover (hlt : bytesSent < limit) (hle : limit ≤ bytesSent + 5)
    {s : Session} {p : Bool} (hs : Sorted s) (hw : ¬ LaneWaiting env s p) :
    (¬ LoadsAll env s.loggedIn (s.lane p).requests ∧
      Halts (processStep env) (s, .loop p limit bytesSent)) ∨
    (LoadsAll env s.loggedIn (s.lane p).requests ∧ ∃ t, Frame p s t ∧ Sorted t ∧
      (Halts (processStep env) (s, .loop p limit bytesSent) ↔
        Halts (processStep env) (t, leaveLoop p limit bytesSent))) := by
  induction hn : 2 * (s.lane p).requests.length + (s.lane p).responses.length
    using Nat.strongRecOn generalizing s with
  | _ n ih =>
    obtain ⟨hpolls, hframe₀, -⟩ := nextPendingResponse_spec env s p
    have hsorted₀ := sorted_of_next env hs p
    cases hnext : nextPendingResponse env s p with
    | mk s' next =>
      rw [hnext] at hpolls hframe₀ hsorted₀
      cases next with
      | none => exact Or.inr ⟨hpolls.of_none.1, s', hframe₀, hsorted₀, halts_of_none hlt hnext⟩
      | thrown => exact Or.inl ⟨hpolls.of_thrown, halts_of_thrown hlt hnext⟩
      | response r =>
        have hwrite := writeResponseBlock_of_le s'.xorKey (payloadBytes_nonpos (r := r) hle)
        obtain ⟨rs', hp, hresponses, hframe, hsorted⟩ := lane_of_iteration hs hnext (rfl : r.priority = r.priority) []
        have hsteps := steps_of_write env (p := p) hwrite
        rw [add_zero] at hsteps
        have hhalts := (halts_iff_of_step (step_of_response hlt hnext)).trans
          (halts_iff_of_steps hsteps)
        have hnot : ¬ LaneWaiting env (recyclePendingResponse (s'.write []) r) p := by
          unfold LaneWaiting at hw ⊢
          rw [hframe.loggedIn, hresponses, ← hp.loadsAll_iff, ← hp.hasBytes_iff]
          exact hw
        have hsize := hp.length_lt hw
        rw [← hresponses, hn] at hsize
        rcases ih _ hsize hsorted hnot rfl with ⟨hloads, hend⟩ | ⟨hloads, t, hft, hst, hend⟩
        · rw [hframe.loggedIn, ← hp.loadsAll_iff] at hloads
          exact Or.inl ⟨hloads, hhalts.mpr hend⟩
        · rw [hframe.loggedIn, ← hp.loadsAll_iff] at hloads
          exact Or.inr ⟨hloads, t, hframe.trans hft, hst, hhalts.trans hend⟩

/-- With one to five bytes left, the call ends exactly if no response waits. -/
theorem halts_iff_not_waiting (hlt : bytesSent < limit) (hle : limit ≤ bytesSent + 5)
    {s : Session} {p : Bool} (hs : Sorted s) :
    Halts (processStep env) (s, .loop p limit bytesSent) ↔ ¬ Waiting env s p := by
  have hlow : ∀ s, Sorted s → (Halts (processStep env) (s, .loop false limit bytesSent) ↔
      ¬ LaneWaiting env s false) := by
    intro s hs
    constructor
    · intro hhalts hw
      exact not_halts_of_laneWaiting hlt hle hs hw hhalts
    · intro hw
      rcases halts_leftover hlt hle hs hw with ⟨-, hend⟩ | ⟨-, t, -, -, hend⟩
      · exact hend
      · exact hend.mpr (.stop rfl)
  cases p with
  | false =>
    rw [hlow s hs]
    simp [Waiting]
  | true =>
    by_cases hw : LaneWaiting env s true
    · have hspins := not_halts_of_laneWaiting hlt hle hs hw
      simp [Waiting, hw, hspins]
    · have hboth : Waiting env s true ↔
          LoadsAll env s.loggedIn (s.lane true).requests ∧ LaneWaiting env s false := by
        simp [Waiting, hw]
      rw [hboth]
      rcases halts_leftover hlt hle hs hw with ⟨hloads, hend⟩ | ⟨hloads, t, hframe, hst, hend⟩
      · simp [hloads, hend]
      · have hlane : LaneWaiting env t false ↔ LaneWaiting env s false := by
          have hq := hframe.requests
          have hr := hframe.responses
          simp only [Bool.not_true] at hq hr
          unfold LaneWaiting
          rw [hframe.loggedIn, hq, hr]
        rw [hend]
        change Halts (processStep env) (t, .loop false limit bytesSent) ↔ _
        rw [hlow t hst, hlane]
        simp [hloads]

end Leftover

/-- A budget that lets every block through whole. -/
def fullBudget : ℤ := 102400

/-- The states in front of an iteration of `process`, and the bytes sent before them, as they
are when no budget cuts a block: the loop over the high priority, then the one over the low. -/
inductive Uncut (env : Environment) (s₀ : Session) : Bool → Session → ℤ → Prop
  | start : Uncut env s₀ true s₀ 0
  | block {p : Bool} {s s' : Session} {n sent : ℤ} {r r' : PendingResponse} {bytes : List Byte}
      (h : Uncut env s₀ p s n) (hnext : nextPendingResponse env s p = (s', .response r))
      (hwrite : writeResponseBlock s'.xorKey r fullBudget = some (sent, r', bytes)) :
      Uncut env s₀ p (recyclePendingResponse (s'.write bytes) r') (n + sent)
  | lane {s s' : Session} {n : ℤ} (h : Uncut env s₀ true s n)
      (hnext : nextPendingResponse env s true = (s', .none)) : Uncut env s₀ false s' n

/-- The uncut blocks never leave one to five bytes of the limit while a response waits. -/
def NoLeftover (env : Environment) (s₀ : Session) (limit : ℤ) : Prop :=
  ∀ p s n, Uncut env s₀ p s n → n < limit → limit ≤ n + 5 → ¬ Waiting env s p

section Uncut
variable {env : Environment} {s₀ : Session} {limit : ℤ}

/-- Budgets that let the same payload through write the same block. -/
private theorem writeResponseBlock_congr {r : PendingResponse} {b b' : ℤ} (xor : Word)
    (h : payloadBytes r b = payloadBytes r b' ∨ payloadBytes r b ≤ 0 ∧ payloadBytes r b' ≤ 0) :
    writeResponseBlock xor r b = writeResponseBlock xor r b' := by
  rcases h with h | ⟨h, h'⟩
  · unfold payloadBytes at h
    unfold writeResponseBlock
    simp only [h]
  · rw [writeResponseBlock_of_le xor h, writeResponseBlock_of_le xor h']

private theorem priority_writeResponseBlock {r r' : PendingResponse} {b sent : ℤ} {xor : Word}
    {bytes : List Byte} (h : writeResponseBlock xor r b = some (sent, r', bytes)) :
    r'.priority = r.priority := by
  by_cases hpos : 0 < payloadBytes r b
  · obtain ⟨-, rfl, -⟩ := writeResponseBlock_of_lt hpos h
    rfl
  · rw [writeResponseBlock_of_le xor (not_lt.mp hpos)] at h
    cases h
    rfl

theorem Uncut.sorted {p : Bool} {s : Session} {n : ℤ} (hs : Sorted s₀) (h : Uncut env s₀ p s n) :
    Sorted s := by
  induction h with
  | start => exact hs
  | block _ hnext hwrite ih =>
    obtain ⟨-, -, -, -, hsorted⟩ := lane_of_iteration ih hnext (priority_writeResponseBlock hwrite) _
    exact hsorted
  | lane _ hnext ih =>
    have := sorted_of_next env ih true
    rw [hnext] at this
    exact this

/-- Below the limit, the call goes through the uncut states. -/
private theorem Uncut.steps {p : Bool} {s : Session} {n : ℤ} (h : Uncut env s₀ p s n)
    (hlt : n < limit) : Steps (processStep env) (s₀, process limit) (s, .loop p limit n) := by
  induction h with
  | start => exact .refl
  | @block p s s' n sent r r' bytes h hnext hwrite ih =>
    have hsent : 0 ≤ sent ∧ writeResponseBlock s'.xorKey r (limit - n) =
        some (sent, r', bytes) := by
      by_cases hpos : 0 < payloadBytes r fullBudget
      · obtain ⟨hsent, -, -⟩ := writeResponseBlock_of_lt hpos hwrite
        refine ⟨by omega, ?_⟩
        rw [← hwrite]
        apply writeResponseBlock_congr
        left
        unfold payloadBytes fullBudget maxResponseBlockPayloadBytes at *
        omega
      · have hnone := not_lt.mp hpos
        have hzero := hwrite
        rw [writeResponseBlock_of_le _ hnone] at hzero
        cases hzero
        refine ⟨le_rfl, ?_⟩
        rw [← hwrite]
        apply writeResponseBlock_congr
        right
        unfold payloadBytes fullBudget maxResponseBlockPayloadBytes at *
        omega
    have hbefore : n < limit := by omega
    exact ((ih hbefore).tail (step_of_response hbefore hnext)).trans (steps_of_write env hsent.2)
  | lane _ hnext ih =>
    apply (ih hlt).tail
    rw [processStep, if_pos hlt, hnext]
    rfl

/-- What a lane still has to do. -/
def load? (env : Environment) (loggedIn : Bool) (q : RequestFile) : ℕ :=
  match load env loggedIn q with
  | .loaded r => 2 + r.remaining.toNat
  | _ => 2

def laneWeight (env : Environment) (loggedIn : Bool) (qs : List RequestFile)
    (rs : List PendingResponse) : ℕ :=
  (qs.map (load? env loggedIn)).sum + (rs.map fun r => 1 + r.remaining.toNat).sum

theorem Polls.weight_lt {loggedIn : Bool} {qs qs' : List RequestFile}
    {rs rs' : List PendingResponse} {r r' : PendingResponse} {k : ℤ}
    (h : Polls env loggedIn qs rs qs' rs' (.response r)) (hr : r'.remaining = r.remaining - k)
    (hk : 0 < k ∨ k = 0 ∧ r.remaining ≤ 0) :
    laneWeight env loggedIn qs' (rs' ++ kept r') < laneWeight env loggedIn qs rs := by
  have hkept : ((kept r').map fun r => 1 + r.remaining.toNat).sum ≤
      if 0 < r'.remaining then 1 + r'.remaining.toNat else 0 := by
    unfold kept
    split_ifs <;> simp
  unfold laneWeight
  cases h with
  | loaded pre post q rs r hm hl =>
    have hq : load? env loggedIn q = 2 + r.remaining.toNat := by
      unfold load?
      rw [hl]
    simp only [List.map_append, List.map_cons, List.sum_append, List.sum_cons, hq]
    split_ifs at hkept <;> omega
  | pending qs r rest hm =>
    simp only [List.map_append, List.map_cons, List.sum_append, List.sum_cons, List.map_nil,
      List.sum_nil]
    split_ifs at hkept <;> omega

/-- The call ends from every uncut state, if no leftover stops it. -/
private theorem halts_of_uncut (hs₀ : Sorted s₀) (hno : NoLeftover env s₀ limit) {p : Bool}
    (hexit : ∀ s n, Uncut env s₀ p s n → ∀ s', nextPendingResponse env s p = (s', .none) →
      Halts (processStep env) (s', leaveLoop p limit n))
    {s : Session} {n : ℤ} (h : Uncut env s₀ p s n) :
    Halts (processStep env) (s, .loop p limit n) := by
  induction hw : laneWeight env s.loggedIn (s.lane p).requests (s.lane p).responses
    using Nat.strongRecOn generalizing s n with
  | _ w ih =>
    have hs := h.sorted hs₀
    by_cases hlt : n < limit
    · by_cases hle : limit ≤ n + 5
      · exact (halts_iff_not_waiting hlt hle hs).mpr (hno p s n h hlt hle)
      · cases hnext : nextPendingResponse env s p with
        | mk s' next =>
          cases next with
          | none => exact (halts_of_none hlt hnext).mpr (hexit s n h s' hnext)
          | thrown => exact halts_of_thrown hlt hnext
          | response r =>
            rw [halts_iff_of_step (step_of_response hlt hnext)]
            cases hwrite : writeResponseBlock s'.xorKey r (limit - n) with
            | none => exact halts_of_write_none hwrite
            | some block =>
              obtain ⟨sent, r', bytes⟩ := block
              rw [halts_iff_of_steps (steps_of_write env hwrite)]
              obtain ⟨rs', hp, hresponses, hframe, -⟩ :=
                lane_of_iteration hs hnext (priority_writeResponseBlock hwrite) bytes
              have hgoOn : ∀ k, r'.remaining = r.remaining - k → 0 < k ∨ k = 0 ∧ r.remaining ≤ 0 →
                  writeResponseBlock s'.xorKey r fullBudget = some (sent, r', bytes) →
                  Halts (processStep env)
                    (recyclePendingResponse (s'.write bytes) r', .loop p limit (n + sent)) := by
                intro k hr hk hfull
                have hlighter := hp.weight_lt hr hk
                rw [hw, ← hresponses, ← hframe.loggedIn] at hlighter
                exact ih _ hlighter (h.block hnext hfull) rfl
              by_cases hpos : 0 < payloadBytes r (limit - n)
              · obtain ⟨hsent, hr', -⟩ := writeResponseBlock_of_lt hpos hwrite
                by_cases hfull : payloadBytes r (limit - n) = payloadBytes r fullBudget
                · rw [writeResponseBlock_congr _ (Or.inl hfull)] at hwrite
                  exact hgoOn _ (by rw [hr']) (Or.inl hpos) hwrite
                · -- The limit cuts this block, and is used up by it.
                  apply halts_of_limit_le
                  unfold payloadBytes fullBudget maxResponseBlockPayloadBytes at *
                  omega
              · have hnone := not_lt.mp hpos
                have hfull : payloadBytes r fullBudget ≤ 0 ∧ r.remaining ≤ 0 := by
                  unfold payloadBytes fullBudget maxResponseBlockPayloadBytes at *
                  omega
                have hzero := hwrite
                rw [writeResponseBlock_of_le _ hnone] at hzero
                rw [writeResponseBlock_congr _ (Or.inr ⟨hnone, hfull.1⟩)] at hwrite
                cases hzero
                exact hgoOn 0 (by omega) (Or.inr ⟨rfl, hfull.2⟩) hwrite
    · exact halts_of_limit_le (not_lt.mp hlt)

theorem halts_iff_noLeftover (hs : Sorted s₀) :
    Halts (processStep env) (s₀, process limit) ↔ NoLeftover env s₀ limit := by
  constructor
  · intro hhalts p s n h hlt hle hwaits
    have hstuck := (halts_iff_of_steps (h.steps hlt)).mp hhalts
    exact (halts_iff_not_waiting hlt hle (h.sorted hs)).mp hstuck hwaits
  · intro hno
    have hlow : ∀ s n, Uncut env s₀ false s n →
        Halts (processStep env) (s, .loop false limit n) := by
      intro s n h
      apply halts_of_uncut hs hno _ h
      intro s n _ s' _
      exact .stop rfl
    apply halts_of_uncut hs hno _ .start
    intro s n h s' hnext
    exact hlow s' n (h.lane hnext)

end Uncut

section Reachable
variable {env : Environment}

/-- The thread holds responses of the priority it is at. -/
def SortedThread : Thread → Prop
  | .idle | .loop .. => True
  | .write p _ _ r | .recycle p _ _ r => r.priority = p

private theorem sorted_setRequests {s : Session} (hs : Sorted s) (r : RequestFile) :
    Sorted (addRequest s r) := by
  unfold addRequest
  apply (frame_setRequests s r.priority _).sorted hs
  · intro q hq
    rw [requests_setRequests] at hq
    rcases List.mem_append.mp hq with hq | hq
    · exact (hs r.priority).1 q hq
    · rw [List.mem_singleton.mp hq]
  · intro x hx
    rw [responses_setRequests] at hx
    exact (hs r.priority).2 x hx

theorem sorted_of_lanes {s t : Session} (hs : Sorted s)
    (hq : ∀ p, (t.lane p).requests = (s.lane p).requests)
    (hr : ∀ p, (t.lane p).responses = (s.lane p).responses) : Sorted t := by
  intro p
  rw [hq, hr]
  exact hs p

theorem sorted_enqueueRequest (env : Environment) {s : Session} (hs : Sorted s) (r : RequestFile) :
    Sorted (enqueueRequest env s r) := by
  have hadd : Sorted (addInFlight s r.priority r.archiveKey) := by
    apply sorted_of_lanes hs <;> intro p <;> cases p <;> cases hp : r.priority <;> rfl
  have hremove : ∀ {t : Session}, Sorted t → Sorted (removeInFlight t r.priority r.archiveKey) := by
    intro t ht
    apply sorted_of_lanes ht <;> intro p <;> simp
  unfold enqueueRequest
  split_ifs
  · exact hs
  · simp only
    split
    · apply hremove
      exact hadd
    · exact sorted_setRequests (hremove hadd) r
  · exact sorted_setRequests hadd r

theorem sorted_processStep {c d : Session × Thread} (hs : Sorted c.1)
    (ht : SortedThread c.2) (h : processStep env c = some d) : Sorted d.1 ∧ SortedThread d.2 := by
  obtain ⟨s, t⟩ := c
  have hleave : ∀ p limit n, SortedThread (leaveLoop p limit n) := by
    intro p limit n
    cases p <;> trivial
  cases t with
  | idle => cases h
  | loop p limit n =>
    rw [processStep] at h
    split_ifs at h
    · obtain ⟨hpolls, -⟩ := nextPendingResponse_spec env s p
      have hsorted := sorted_of_next env hs p
      cases hnext : nextPendingResponse env s p with
      | mk s' next =>
        rw [hnext] at h hpolls hsorted
        cases next with
        | none =>
          cases h
          exact ⟨hsorted, hleave p limit n⟩
        | thrown =>
          cases h
          exact ⟨hsorted, trivial⟩
        | response r =>
          cases h
          exact ⟨hsorted, hpolls.priority_eq hs⟩
    · cases h
      exact ⟨hs, hleave p limit n⟩
  | write p limit n r =>
    rw [processStep] at h
    split at h
    · cases h
      exact ⟨hs, trivial⟩
    · next sent r' bytes hwrite =>
      cases h
      exact ⟨hs, (priority_writeResponseBlock hwrite).trans ht⟩
  | recycle p limit n r =>
    cases h
    have hp : r.priority = p := ht
    refine ⟨(frame_recycle hp).sorted hs ?_ ?_, trivial⟩
    · rw [requests_recycle]
      exact (hs p).1
    · rw [responses_recycle hp]
      intro x hx
      rcases List.mem_append.mp hx with hx | hx
      · exact (hs p).2 x hx
      · split_ifs at hx
        · rw [List.mem_singleton.mp hx]
          exact hp
        · cases hx

theorem sorted_of_reachable {c : Session × Thread} (h : Reachable env c) :
    Sorted c.1 ∧ SortedThread c.2 := by
  induction h with
  | refl =>
    constructor
    · intro p
      cases p <;> simp [Session.lane]
    · trivial
  | tail _ hstep ih =>
    obtain ⟨hs, ht⟩ := ih
    cases hstep with
    | enqueue s t r => exact ⟨sorted_enqueueRequest env hs r, ht⟩
    | updateLoggedInState s t b => exact ⟨sorted_of_lanes hs (fun p => by cases p <;> rfl) fun p => by cases p <;> rfl, ht⟩
    | xorRequest s t x => exact ⟨sorted_of_lanes hs (fun p => by cases p <;> rfl) fun p => by cases p <;> rfl, ht⟩
    | call s limit => exact ⟨hs, trivial⟩
    | process c d hd => exact sorted_processStep hs ht hd

/-- A call of `process` ends exactly if no block leaves it one to five bytes of its limit while a
response waits. -/
theorem process_halts_iff (env : Environment) (s : Session) (limit : ℤ)
    (h : Reachable env (s, .idle)) :
    Halts (processStep env) (s, process limit) ↔ NoLeftover env s limit :=
  halts_iff_noLeftover (sorted_of_reachable h).1

/-- One uncompressed file with one byte of payload, stored with its version. -/
def sampleEnvironment : Environment where
  codecs := { compress := fun _ data => data, decompress := fun _ data _ => some data }
  build := 947
  checksumTable := []
  readReferenceTable _ := some none
  read index archive :=
    some (if index = 2 ∧ archive = 10 then some [0, 0, 0, 0, 1, 77, 0, 3] else none)
  fetchRetailLoggedOutArchive _ _ _ _ := some none
  preferRetailLoggedOutArchives _ := false

def sampleRequest : RequestFile where
  priority := true
  index := 2
  archive := 10

/-- A session with one request. -/
def sampleSession : Session := enqueueRequest sampleEnvironment {} sampleRequest

theorem load_sampleRequest : load sampleEnvironment false sampleRequest = .loaded
    { priority := true, index := 2, archive := 10, data := [0, 0, 0, 0, 1, 77]
      remaining := 6, totalLength := 6 } := by
  decide

theorem reachable_sampleSession : Reachable sampleEnvironment (sampleSession, .idle) :=
  .single (.enqueue {} .idle sampleRequest)

theorem process_halts_iff_sample : Halts (processStep sampleEnvironment) (sampleSession, process 100) ↔
    NoLeftover sampleEnvironment sampleSession 100 :=
  process_halts_iff sampleEnvironment sampleSession 100 reachable_sampleSession

/-- Three bytes are not enough for the block that waits, and the call spins. -/
theorem not_halts_sampleSession : Reachable sampleEnvironment (sampleSession, .idle) ∧
    ¬ Halts (processStep sampleEnvironment) (sampleSession, process 3) := by
  refine ⟨reachable_sampleSession, ?_⟩
  apply not_halts_of_laneWaiting (by decide) (by decide)
    (sorted_of_reachable reachable_sampleSession).1
  have hrequests : (sampleSession.lane true).requests = [sampleRequest] := by decide
  constructor
  · intro q hq
    rw [hrequests] at hq
    rw [List.mem_singleton.mp hq]
    change load sampleEnvironment false sampleRequest ≠ .thrown
    rw [load_sampleRequest]
    exact Load.noConfusion
  · rw [hrequests]
    exact Or.inr ⟨sampleRequest, by simp, _, load_sampleRequest, by decide⟩

end Reachable

end Js5Session

end OpenNXT.Net
