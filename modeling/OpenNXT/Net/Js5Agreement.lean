import OpenNXT.Net.Js5InFlight
import OpenNXT.Transition.Always

/-! Stored files whose headers disagree with their sizes, and what `process` does with them. -/
namespace OpenNXT.Net.Js5Session
open Buffer Filesystem Transition

/-- The header of a file announces its size. -/
def Agrees (data : List Byte) : Prop :=
  (js5ResponseLength data).map BitVec.toInt = some (data.length : ℤ)

/-- The requests of a lane load files that agree, and its responses have the bytes they count. -/
def LaneAgrees (env : Environment) (loggedIn : Bool) (qs : List RequestFile)
    (rs : List PendingResponse) : Prop :=
  (∀ q ∈ qs, ∀ data, loadFileData env loggedIn q = some data → Agrees data) ∧ ∀ r ∈ rs, Counted r

def SessionAgrees (env : Environment) (s : Session) : Prop :=
  ∀ p, LaneAgrees env s.loggedIn (s.lane p).requests (s.lane p).responses

section Lane
variable {env : Environment} {loggedIn : Bool} {q : RequestFile} {qs qs' : List RequestFile}
  {rs rs' : List PendingResponse} {r : PendingResponse}

theorem loadFileData_of_missing (h : load env loggedIn q = .missing) :
    loadFileData env loggedIn q = none := by
  unfold load at h
  cases hdata : loadFileData env loggedIn q with
  | none => rfl
  | some data =>
    rw [hdata] at h
    dsimp only at h
    split at h <;> cases h

theorem loadFileData_of_thrown (h : load env loggedIn q = .thrown) :
    ∃ data, loadFileData env loggedIn q = some data ∧ ¬ Agrees data := by
  unfold load at h
  cases hdata : loadFileData env loggedIn q with
  | none =>
    rw [hdata] at h
    cases h
  | some data =>
    rw [hdata] at h
    refine ⟨data, rfl, fun hagrees => ?_⟩
    rw [Agrees] at hagrees
    cases hlength : js5ResponseLength data with
    | none =>
      rw [hlength] at hagrees
      cases hagrees
    | some length => simp [hlength] at h

theorem loadFileData_of_loaded (h : load env loggedIn q = .loaded r) :
    loadFileData env loggedIn q = some r.data ∧ (Agrees r.data ↔ Counted r) := by
  unfold load at h
  cases hdata : loadFileData env loggedIn q with
  | none =>
    rw [hdata] at h
    cases h
  | some data =>
    rw [hdata] at h
    cases hlength : js5ResponseLength data with
    | none => simp [hlength] at h
    | some length =>
      simp only [hlength, Load.loaded.injEq] at h
      subst h
      simp [Agrees, Counted, hlength]

theorem Polls.laneAgrees_of_none (h : Polls env loggedIn qs rs qs' rs' .none) :
    LaneAgrees env loggedIn qs rs ∧ qs' = [] ∧ rs' = [] := by
  cases h with
  | none qs hm =>
    refine ⟨⟨fun q hq data hdata => ?_, by simp⟩, rfl, rfl⟩
    rw [loadFileData_of_missing (hm q hq)] at hdata
    cases hdata

theorem Polls.not_laneAgrees_of_thrown (h : Polls env loggedIn qs rs qs' rs' .thrown) :
    ¬ LaneAgrees env loggedIn qs rs := by
  cases h with
  | thrown pre post q rs hm hl =>
    intro hagrees
    obtain ⟨data, hdata, hnot⟩ := loadFileData_of_thrown hl
    exact hnot (hagrees.1 q (by simp) data hdata)

theorem Polls.laneAgrees_iff (h : Polls env loggedIn qs rs qs' rs' (.response r)) :
    LaneAgrees env loggedIn qs rs ↔ Counted r ∧ LaneAgrees env loggedIn qs' rs' := by
  cases h with
  | loaded pre post q rs r hm hl =>
    obtain ⟨hdata, hiff⟩ := loadFileData_of_loaded hl
    constructor
    · rintro ⟨hqs, hrs⟩
      exact ⟨hiff.mp (hqs q (by simp) r.data hdata), fun x hx => hqs x (by simp [hx]), hrs⟩
    · rintro ⟨hcounted, hqs, hrs⟩
      refine ⟨fun x hx data hx' => ?_, hrs⟩
      obtain hx | hx := List.mem_append.mp hx
      · rw [loadFileData_of_missing (hm x hx)] at hx'
        cases hx'
      · obtain rfl | hx := List.mem_cons.mp hx
        · rw [hdata] at hx'
          cases hx'
          exact hiff.mpr hcounted
        · exact hqs x hx data hx'
  | pending qs r rest hm =>
    constructor
    · rintro ⟨-, hrs⟩
      exact ⟨hrs r (List.mem_cons_self ..), by simp, fun x hx => hrs x (List.mem_cons_of_mem r hx)⟩
    · rintro ⟨hcounted, -, hrs⟩
      refine ⟨fun q hq data hdata => ?_, List.forall_mem_cons.mpr ⟨hcounted, hrs⟩⟩
      rw [loadFileData_of_missing (hm q hq)] at hdata
      cases hdata

/-- A response that has the bytes it counts has them after every block. -/
theorem Counted.write (h : Counted r) (xor : Word) (budget : ℤ) :
    ∃ sent r' bytes, writeResponseBlock xor r budget = some (sent, r', bytes) ∧ Counted r' ∧
      r'.priority = r.priority := by
  by_cases hpos : payloadBytes r budget ≤ 0
  · exact ⟨0, r, [], writeResponseBlock_of_le xor hpos, h, rfl⟩
  · unfold payloadBytes at hpos
    unfold writeResponseBlock
    rw [if_neg hpos]
    unfold Counted at h
    have hle : ¬ (r.data.length : ℤ) <
        min (min (maxResponseBlockPayloadBytes : ℤ) r.remaining) (budget - 5) := by omega
    rw [if_neg hle]
    refine ⟨_, _, _, rfl, ?_, rfl⟩
    unfold Counted
    simp only [List.length_drop]
    omega

end Lane

section Calls
variable (env : Environment)

/-- The thread on its own: `process` is called again and again, with any limits. -/
inductive CallStep : Session × Thread → Session × Thread → Prop
  | call (s : Session) (limit : ℤ) : CallStep (s, .idle) (s, process limit)
  | process {c d : Session × Thread} (h : processStep env c = some d) : CallStep c d

end Calls

section Agreement
variable {env : Environment} {s : Session} {p : Bool}

/-- What agreement of the files keeps up in every state. -/
structure Agreement (env : Environment) (c : Session × Thread) : Prop where
  sorted : Sorted c.1
  thread : SortedThread c.2
  session : SessionAgrees env c.1
  counted : CountedThread c.2

theorem SessionAgrees.of_frame {t : Session} (h : SessionAgrees env s) (hframe : Frame p s t)
    (hlane : LaneAgrees env s.loggedIn (t.lane p).requests (t.lane p).responses) :
    SessionAgrees env t := by
  intro p'
  rw [hframe.loggedIn]
  by_cases hp : p' = p
  · rw [hp]
    exact hlane
  · rw [Bool.eq_not_of_ne hp, hframe.requests, hframe.responses]
    exact h !p

private theorem session_of_processStep {c d : Session × Thread} (h : Agreement env c)
    (hstep : processStep env c = some d) : SessionAgrees env d.1 ∧ CountedThread d.2 := by
  obtain ⟨s, t⟩ := c
  have hleave (p : Bool) (limit n : ℤ) : CountedThread (leaveLoop p limit n) := by
    cases p <;> trivial
  cases t with
  | idle => cases hstep
  | loop p limit n =>
    rw [processStep] at hstep
    split_ifs at hstep
    · obtain ⟨hpolls, hframe, -⟩ := nextPendingResponse_spec env s p
      have hlane : LaneAgrees env s.loggedIn (s.lane p).requests (s.lane p).responses := h.session p
      cases hnext : nextPendingResponse env s p with
      | mk s' next =>
        rw [hnext] at hstep hpolls hframe
        cases next with
        | none =>
          cases hstep
          obtain ⟨-, hrequests, hresponses⟩ := hpolls.laneAgrees_of_none
          refine ⟨h.session.of_frame hframe ?_, hleave p limit n⟩
          rw [hrequests, hresponses]
          exact ⟨by simp, by simp⟩
        | thrown => exact absurd hlane hpolls.not_laneAgrees_of_thrown
        | response r =>
          cases hstep
          obtain ⟨hr, hrest⟩ := hpolls.laneAgrees_iff.mp hlane
          exact ⟨h.session.of_frame hframe hrest, hr⟩
    · cases hstep
      exact ⟨h.session, hleave p limit n⟩
  | write p limit n r =>
    obtain ⟨sent, r', bytes, hwrite, hr', -⟩ := Counted.write h.counted s.xorKey (limit - n)
    rw [processStep, hwrite] at hstep
    cases hstep
    exact ⟨h.session, hr'⟩
  | recycle p limit n r =>
    cases hstep
    have hp : r.priority = p := h.thread
    refine ⟨h.session.of_frame (frame_recycle hp) ?_, trivial⟩
    obtain ⟨hrequests, hresponses⟩ := h.session p
    rw [requests_recycle, responses_recycle hp]
    refine ⟨hrequests, fun x hx => ?_⟩
    obtain hx | hx := List.mem_append.mp hx
    · exact hresponses x hx
    · split_ifs at hx
      · rw [List.mem_singleton.mp hx]
        exact h.counted
      · cases hx

theorem Agreement.step {c d : Session × Thread} (h : Agreement env c) (hstep : CallStep env c d) :
    Agreement env d := by
  cases hstep with
  | call s limit => exact ⟨h.sorted, trivial, h.session, trivial⟩
  | process hstep =>
    obtain ⟨hsorted, hthread⟩ := sorted_processStep h.sorted h.thread hstep
    obtain ⟨s, t⟩ := c
    obtain ⟨hsession, hcounted⟩ := session_of_processStep h hstep
    exact ⟨hsorted, hthread, hsession, hcounted⟩

end Agreement

section Progress
variable {env : Environment}

end Progress

end OpenNXT.Net.Js5Session
