import Mathlib.Data.Nat.Notation
import Mathlib.Logic.Function.Basic
import Mathlib.Tactic.SplitIfs

/-! Jobs on the host, one at a time: what a call runs between two of its awaits is one step, and the
steps of different calls come in any order. -/
namespace OpenNXT.Ops

inductive JobStatus
  | running | succeeded | failed | rejected
  deriving DecidableEq

/-- A row of the store. -/
structure JobRecord where
  kind : String
  status : JobStatus
  summary : String
  deriving DecidableEq

/-- How a promise settles, or what a call of the store comes to. -/
abbrev Outcome := Except String Unit

def fulfilled : Outcome → Bool
  | .ok _ => true
  | .error _ => false

@[simp] theorem fulfilled_ok (u : Unit) : fulfilled (.ok u) = true := rfl

@[simp] theorem fulfilled_error (message : String) : fulfilled (.error message) = false := rfl

/-- Where an accepted call waits, and whether its work resolved once that is known. -/
inductive Stage
  | starting
  | working
  | finishing
  | failing (resolved : Bool)
  | settled (resolved : Option Bool)
  deriving DecidableEq

inductive Event (JobId : Type)
  | call (id : JobId) (kind : String) (created : Outcome)
  | startSettles (id : JobId) (outcome : Outcome)
  | workSettles (id : JobId) (outcome updatedSucceeded updatedFailed : Outcome)
  | finishSettles (id : JobId) (outcome updatedFailed : Outcome)
  | failureSettles (id : JobId) (outcome : Outcome)

/-- The status that a job is to end with. -/
def final (resolved : Bool) : JobStatus := if resolved then .succeeded else .failed

/-- What the row of a call says at each stage of it. -/
def Stage.Accords : Stage → Option JobStatus → Prop
  | .starting, status => status = some .running
  | .working, status => status = some .running
  | .finishing, status => status = some .succeeded
  | .failing resolved, status => status = some (final resolved)
  | .settled (some resolved), status => status = some (final resolved)
  | .settled none, _ => False

/-- What an event does to one call: its stage, the status of its job, whether the coordinator is
released, and whether the event was foreseen. -/
inductive Moves : Option Stage → Option JobStatus → Stage → Option JobStatus → Bool → Bool → Prop
  | created (status : Option JobStatus) : Moves none status .starting (some .running) false true
  | notCreated (status : Option JobStatus) :
      Moves none status (.settled none) status false false
  | started (status : Option JobStatus) : Moves (some .starting) status .working status false true
  | notStarted (status : Option JobStatus) :
      Moves (some .starting) status (.settled (some false)) status false false
  | worked (status : Option JobStatus) :
      Moves (some .working) status .finishing (status.map fun _ => .succeeded) false true
  | failed (stage : Stage) (resolved : Bool) (status : Option JobStatus)
      (h : stage = .working ∨ stage = .finishing ∧ resolved = true) :
      Moves (some stage) status (.failing resolved) (status.map fun _ => .failed) false (!resolved)
  | notFailed (resolved : Bool) (status : Option JobStatus) :
      Moves (some .working) status (.settled (some resolved)) status true false
  | finished (status : Option JobStatus) :
      Moves (some .finishing) status (.settled (some true)) status true true
  | reported (resolved : Bool) (status : Option JobStatus) :
      Moves (some (.failing resolved)) status (.settled (some resolved)) status true true

namespace Moves
variable {old : Option Stage} {before after : Option JobStatus} {stage : Stage}
variable {released foreseen : Bool}

theorem not_settled {o : Stage} (h : Moves (some o) before stage after released foreseen)
    (resolved : Option Bool) : o ≠ .settled resolved := by
  cases h with
  | started => exact fun heq => nomatch heq
  | notStarted => exact fun heq => nomatch heq
  | worked => exact fun heq => nomatch heq
  | failed _ _ _ hstage => rcases hstage with rfl | ⟨rfl, -⟩ <;> exact fun heq => nomatch heq
  | notFailed => exact fun heq => nomatch heq
  | finished => exact fun heq => nomatch heq
  | reported => exact fun heq => nomatch heq

theorem settled_of_released (h : Moves old before stage after true foreseen) :
    ∃ resolved, stage = .settled resolved := by
  cases h with
  | notFailed resolved => exact ⟨_, rfl⟩
  | finished => exact ⟨_, rfl⟩
  | reported resolved => exact ⟨_, rfl⟩

theorem goes_on (h : Moves old before stage after false foreseen) (hforeseen : foreseen = true)
    (resolved : Option Bool) : stage ≠ .settled resolved := by
  cases h with
  | created => exact fun heq => nomatch heq
  | notCreated => cases hforeseen
  | started => exact fun heq => nomatch heq
  | notStarted => cases hforeseen
  | worked => exact fun heq => nomatch heq
  | failed => exact fun heq => nomatch heq

/-- An event that was foreseen leaves the row in step with its call. -/
theorem accords (h : Moves old before stage after released true)
    (hold : ∀ o, old = some o → o.Accords before) : stage.Accords after := by
  generalize htrue : true = foreseen at h
  cases h with
  | created => rfl
  | notCreated => cases htrue
  | started => exact hold .starting rfl
  | notStarted => cases htrue
  | worked =>
    have hrunning : before = some .running := hold _ rfl
    rw [hrunning]
    rfl
  | failed o resolved _ hstage =>
    obtain ⟨status, hstatus⟩ : ∃ status, before = some status := by
      rcases hstage with rfl | ⟨rfl, -⟩
      · exact ⟨_, hold _ rfl⟩
      · exact ⟨_, hold _ rfl⟩
    have hresolved : resolved = false := by
      cases resolved with
      | true => cases htrue
      | false => rfl
    rw [hstatus, hresolved]
    rfl
  | notFailed => cases htrue
  | finished => exact hold .finishing rfl
  | reported resolved => exact hold (.failing resolved) rfl

/-- One that was not leaves the coordinator held by a call that is over, or a wrong row. -/
theorem wrong (h : Moves old before stage after released false)
    (hold : ∀ o, old = some o → o.Accords before) :
    released = false ∧ (∃ resolved, stage = .settled resolved) ∨
      ∃ resolved, (stage = .failing resolved ∨ stage = .settled (some resolved)) ∧
        ∃ status, after = some status ∧ status ≠ final resolved := by
  generalize hfalse : false = foreseen at h
  cases h with
  | created => cases hfalse
  | notCreated => exact Or.inl ⟨rfl, _, rfl⟩
  | started => cases hfalse
  | notStarted => exact Or.inl ⟨rfl, _, rfl⟩
  | worked => cases hfalse
  | failed o resolved _ hstage =>
    obtain ⟨status, hstatus⟩ : ∃ status, before = some status := by
      rcases hstage with rfl | ⟨rfl, -⟩
      · exact ⟨_, hold _ rfl⟩
      · exact ⟨_, hold _ rfl⟩
    have hresolved : resolved = true := by
      cases resolved with
      | true => rfl
      | false => cases hfalse
    rw [hstatus, hresolved]
    exact Or.inr ⟨true, Or.inl rfl, .failed, rfl, by decide⟩
  | notFailed resolved =>
    have hrunning : before = some .running := hold _ rfl
    exact Or.inr ⟨resolved, Or.inr rfl, .running, hrunning, by cases resolved <;> decide⟩
  | finished => cases hfalse
  | reported => cases hfalse

/-- A call that reports its failure is as good as over. -/
theorem of_failing {resolved : Bool}
    (h : Moves (some (.failing resolved)) before stage after released foreseen) :
    stage = .settled (some resolved) ∧ after = before := by
  cases h with
  | failed _ _ _ hstage => rcases hstage with hstage | ⟨hstage, -⟩ <;> cases hstage
  | reported => exact ⟨rfl, rfl⟩

end Moves

structure JobCoordinator (JobId : Type) where
  currentJobId : Option JobId := none
  jobs : JobId → Option JobRecord := fun _ => none
  calls : JobId → Option Stage := fun _ => none
  /-- How many calls were turned away. -/
  rejected : ℕ := 0

namespace JobCoordinator
variable {JobId : Type} [DecidableEq JobId] (s : JobCoordinator JobId)

def isBusy : Bool := s.currentJobId.isSome

def enter (id : JobId) (stage : Stage) : JobCoordinator JobId :=
  { s with calls := Function.update s.calls id (some stage) }

def createJob (id : JobId) (job : JobRecord) : JobCoordinator JobId :=
  { s with jobs := Function.update s.jobs id (some job) }

/-- The row keeps its kind. -/
def updateJobStatus (id : JobId) (status : JobStatus) (summary : String) : JobCoordinator JobId :=
  { s with
    jobs := Function.update s.jobs id
      ((s.jobs id).map fun job => { job with status, summary }) }

/-- The `finally` of a call. -/
def settle (id : JobId) (resolved : Option Bool) : JobCoordinator JobId :=
  { s.enter id (.settled resolved) with currentJobId := none }

/-- The `catch` of a call; where the store fails as well, its error leaves the block. -/
def fail (id : JobId) (resolved : Bool) (message : String) : Outcome → JobCoordinator JobId
  | .ok _ => (s.updateJobStatus id .failed message).enter id (.failing resolved)
  | .error _ => s.settle id (some resolved)

/-- `none` where an event cannot happen. -/
def next : Event JobId → Option (JobCoordinator JobId)
  | .call id kind created =>
    if s.currentJobId.isSome then some { s with rejected := s.rejected + 1 }
    -- an identifier does not come twice
    else if (s.calls id).isSome then none
    else
      let entered := { s with currentJobId := some id }
      match created with
      | .ok _ => some ((entered.createJob id ⟨kind, .running, "Starting"⟩).enter id .starting)
      | .error _ => some (entered.enter id (.settled none))
  | .startSettles id outcome =>
    if s.calls id ≠ some .starting then none
    else
      match outcome with
      | .ok _ => some (s.enter id .working)
      | .error _ => some (s.enter id (.settled (some false)))
  | .workSettles id outcome updatedSucceeded updatedFailed =>
    if s.calls id ≠ some .working then none
    else
      match outcome, updatedSucceeded with
      | .ok _, .ok _ =>
        let kind := ((s.jobs id).map JobRecord.kind).getD ""
        some ((s.updateJobStatus id .succeeded (kind ++ " completed")).enter id .finishing)
      | .ok _, .error message => some (s.fail id true message updatedFailed)
      | .error message, _ => some (s.fail id false message updatedFailed)
  | .finishSettles id outcome updatedFailed =>
    if s.calls id ≠ some .finishing then none
    else
      match outcome with
      | .ok _ => some (s.settle id (some true))
      | .error message => some (s.fail id true message updatedFailed)
  | .failureSettles id _ =>
    match s.calls id with
    | some (.failing resolved) => some (s.settle id (some resolved))
    | _ => none

/-- From a coordinator that was not called yet. -/
def run : JobCoordinator JobId → List (Event JobId) → Option (JobCoordinator JobId)
  | s, [] => some s
  | s, e :: events => (s.next e).bind fun s' => s'.run events

/-- What an event must be for the coordinator to come through it: the store and the start do not
fail, and neither does the report of a success, unless the store keeps it for one nevertheless. -/
def Foreseen : Event JobId → Prop
  | .call _ _ created => s.isBusy ∨ fulfilled created
  | .startSettles _ outcome => fulfilled outcome
  | .workSettles _ outcome updatedSucceeded updatedFailed =>
    if fulfilled outcome then fulfilled updatedSucceeded else fulfilled updatedFailed
  | .finishSettles _ outcome updatedFailed => fulfilled outcome ∨ ¬ fulfilled updatedFailed
  | .failureSettles _ _ => True

/-- Each event of a run in the state that it meets. -/
def AllForeseen : JobCoordinator JobId → List (Event JobId) → Prop
  | _, [] => True
  | s, e :: events => s.Foreseen e ∧ ∀ s', s.next e = some s' → AllForeseen s' events

/-- Every accepted call has settled. -/
def AllSettled : Prop := ∀ id stage, s.calls id = some stage → ∃ resolved, stage = .settled resolved

def statusOf (id : JobId) : Option JobStatus := (s.jobs id).map JobRecord.status

/-- One work runs at a time, a call made meanwhile leaves no job, and when all calls have settled
the next one is accepted and each job has the status of its work. -/
structure Right : Prop where
  exclusive : ∀ i j, s.calls i = some .working → s.calls j = some .working → i = j
  rejects : ∀ i, s.calls i = some .working → ∀ id kind created,
    s.next (.call id kind created) = some { s with rejected := s.rejected + 1 }
  idle : s.AllSettled → s.isBusy = false ∧ ∀ id job, s.jobs id = some job →
    ∃ resolved, s.calls id = some (.settled (some resolved)) ∧ job.status = final resolved

/-- One call moves, the others stay as they are. -/
structure Step (s s' : JobCoordinator JobId) (id : JobId) (stage : Stage)
    (released foreseen : Bool) : Prop where
  moves : Moves (s.calls id) (s.statusOf id) stage (s'.statusOf id) released foreseen
  calls : s'.calls = Function.update s.calls id (some stage)
  jobs : ∀ j, j ≠ id → s'.jobs j = s.jobs j
  current : s'.currentJobId =
    if released then none else if s.calls id = none then some id else s.currentJobId
  free : s.calls id = none → s.isBusy = false

section Steps
variable {s}
variable {s' : JobCoordinator JobId} {e : Event JobId} {id : JobId} {stage : Stage}

@[simp] theorem statusOf_enter (j : JobId) : (s.enter id stage).statusOf j = s.statusOf j := rfl

@[simp] theorem statusOf_settle (resolved : Option Bool) (j : JobId) :
    (s.settle id resolved).statusOf j = s.statusOf j := rfl

@[simp] theorem statusOf_createJob (job : JobRecord) :
    (s.createJob id job).statusOf id = some job.status := by
  simp only [statusOf, createJob, Function.update_self, Option.map_some]

@[simp] theorem statusOf_updateJobStatus (status : JobStatus) (summary : String) :
    (s.updateJobStatus id status summary).statusOf id = (s.statusOf id).map fun _ => status := by
  simp only [statusOf, updateJobStatus, Function.update_self, Option.map_map]
  rfl

theorem jobs_updateJobStatus (status : JobStatus) (summary : String) {j : JobId} (h : j ≠ id) :
    (s.updateJobStatus id status summary).jobs j = s.jobs j := Function.update_of_ne h _ _

/-- A call that is accepted already keeps the coordinator, or releases it. -/
theorem step_of_moves {released foreseen : Bool} {old : Stage} (h : s.calls id = some old)
    (hmoves : Moves (some old) (s.statusOf id) stage (s'.statusOf id) released foreseen)
    (hcalls : s'.calls = Function.update s.calls id (some stage))
    (hjobs : ∀ j, j ≠ id → s'.jobs j = s.jobs j)
    (hcurrent : s'.currentJobId = if released then none else s.currentJobId) :
    Step s s' id stage released foreseen := by
  have hcalled : s.calls id ≠ none := by
    rw [h]
    exact Option.some_ne_none old
  rw [← h] at hmoves
  exact ⟨hmoves, hcalls, hjobs, by rw [hcurrent, if_neg hcalled], fun hnone => absurd hnone hcalled⟩

/-- The two ways out of a `catch`. -/
theorem step_fail (resolved : Bool) (message : String) (updated : Outcome)
    (h : s.calls id = some stage) (hstage : stage = .working ∨ stage = .finishing ∧ resolved = true) :
    ∃ stage' released foreseen,
      Step s (s.fail id resolved message updated) id stage' released foreseen ∧
        (foreseen = true ↔ if fulfilled updated then resolved = false else stage = .finishing) := by
  cases updated with
  | ok _ =>
    refine ⟨.failing resolved, false, !resolved, ?_, by rw [fulfilled_ok, if_pos rfl, Bool.not_eq_true']⟩
    refine step_of_moves h ?_ rfl (fun j hj => jobs_updateJobStatus _ _ hj) rfl
    rw [fail, statusOf_enter, statusOf_updateJobStatus]
    exact .failed stage resolved _ hstage
  | error _ =>
    rcases hstage with rfl | ⟨rfl, rfl⟩
    · exact ⟨.settled (some resolved), true, false,
        step_of_moves h (.notFailed resolved _) rfl (fun _ _ => rfl) rfl, by simp⟩
    · exact ⟨.settled (some true), true, true,
        step_of_moves h (.finished _) rfl (fun _ _ => rfl) rfl, by simp⟩

/-- All that an event can do. -/
theorem next_cases (h : s.next e = some s') :
    (s.isBusy ∧ s.Foreseen e ∧ s' = { s with rejected := s.rejected + 1 }) ∨
      ∃ id stage released foreseen, Step s s' id stage released foreseen ∧
        (s.Foreseen e ↔ foreseen = true) := by
  cases e with
  | call id kind created =>
    rw [next] at h
    split_ifs at h with hbusy hcalled
    · cases h
      exact Or.inl ⟨hbusy, Or.inl hbusy, rfl⟩
    · have hnone : s.calls id = none := by
        rw [Bool.not_eq_true, Option.isSome_eq_false_iff, Option.isNone_iff_eq_none] at hcalled
        exact hcalled
      have hidle : s.isBusy = false := Bool.eq_false_iff.mpr hbusy
      have hforeseen : s.Foreseen (.call id kind created) ↔ fulfilled created = true :=
        or_iff_right hbusy
      right
      cases created with
      | ok _ =>
        cases h
        refine ⟨id, .starting, false, true, ⟨?_, rfl, ?_, ?_, fun _ => hidle⟩, hforeseen⟩
        · rw [hnone, statusOf_enter, statusOf_createJob]
          exact .created _
        · exact fun j hj => Function.update_of_ne hj _ _
        · rw [if_pos hnone]
          rfl
      | error _ =>
        cases h
        refine ⟨id, .settled none, false, false, ⟨?_, rfl, fun _ _ => rfl, ?_, fun _ => hidle⟩,
          hforeseen⟩
        · rw [hnone]
          exact .notCreated _
        · rw [if_pos hnone]
          rfl
  | startSettles id outcome =>
    simp only [next] at h
    split_ifs at h with hstage
    rw [not_not] at hstage
    right
    cases outcome with
    | ok _ =>
      cases h
      exact ⟨id, .working, false, true,
        step_of_moves hstage (.started _) rfl (fun _ _ => rfl) rfl, Iff.rfl⟩
    | error _ =>
      cases h
      exact ⟨id, .settled (some false), false, false,
        step_of_moves hstage (.notStarted _) rfl (fun _ _ => rfl) rfl, Iff.rfl⟩
  | workSettles id outcome updatedSucceeded updatedFailed =>
    simp only [next] at h
    split_ifs at h with hstage
    rw [not_not] at hstage
    right
    cases outcome with
    | error message =>
      cases h
      obtain ⟨stage, released, foreseen, hstep, hiff⟩ :=
        step_fail false message updatedFailed hstage (Or.inl rfl)
      refine ⟨id, stage, released, foreseen, hstep, ?_⟩
      rw [hiff]
      cases updatedFailed <;> simp [Foreseen]
    | ok _ =>
      cases updatedSucceeded with
      | ok _ =>
        cases h
        refine ⟨id, .finishing, false, true, step_of_moves hstage ?_ rfl
          (fun j hj => jobs_updateJobStatus _ _ hj) rfl, Iff.rfl⟩
        rw [statusOf_enter, statusOf_updateJobStatus]
        exact .worked _
      | error message =>
        cases h
        obtain ⟨stage, released, foreseen, hstep, hiff⟩ :=
          step_fail true message updatedFailed hstage (Or.inl rfl)
        refine ⟨id, stage, released, foreseen, hstep, ?_⟩
        rw [hiff]
        cases updatedFailed <;> simp [Foreseen]
  | finishSettles id outcome updatedFailed =>
    simp only [next] at h
    split_ifs at h with hstage
    rw [not_not] at hstage
    right
    cases outcome with
    | ok _ =>
      cases h
      refine ⟨id, .settled (some true), true, true,
        step_of_moves hstage (.finished _) rfl (fun _ _ => rfl) rfl, ?_⟩
      exact iff_of_true (Or.inl rfl) rfl
    | error message =>
      cases h
      obtain ⟨stage, released, foreseen, hstep, hiff⟩ :=
        step_fail true message updatedFailed hstage (Or.inr ⟨rfl, rfl⟩)
      refine ⟨id, stage, released, foreseen, hstep, ?_⟩
      rw [hiff]
      cases updatedFailed <;> simp [Foreseen]
  | failureSettles id outcome =>
    rw [next] at h
    split at h
    next resolved hstage =>
      cases h
      exact Or.inr ⟨id, .settled (some resolved), true, true,
        step_of_moves hstage (.reported resolved _) rfl (fun _ _ => rfl) rfl, iff_of_true trivial rfl⟩
    next => cases h

end Steps

/-- A call that has not settled holds the coordinator. -/
def Locked : Prop := ∀ id stage, s.calls id = some stage →
  (∃ resolved, stage = .settled resolved) ∨ s.currentJobId = some id

/-- The rows are in step with the calls, and the coordinator is held by a call that goes on. -/
structure Sound : Prop where
  held : ∀ id, s.currentJobId = some id →
    ∃ stage, s.calls id = some stage ∧ ∀ resolved, stage ≠ .settled resolved
  accords : ∀ id stage, s.calls id = some stage → stage.Accords (s.statusOf id)
  called : ∀ id, s.calls id = none → s.jobs id = none

/-- Held for ever, or with a row that nothing puts right any more. -/
def Broken : Prop :=
  (∃ id resolved, s.currentJobId = some id ∧ s.calls id = some (.settled resolved)) ∨
    ∃ id resolved, (s.calls id = some (.failing resolved) ∨
      s.calls id = some (.settled (some resolved))) ∧
      ∃ status, s.statusOf id = some status ∧ status ≠ final resolved

namespace Step
variable {s}
variable {s' : JobCoordinator JobId} {id : JobId} {stage : Stage} {released foreseen : Bool}

theorem calls_self (h : Step s s' id stage released foreseen) : s'.calls id = some stage := by
  rw [h.calls, Function.update_self]

theorem calls_of_ne (h : Step s s' id stage released foreseen) {j : JobId} (hj : j ≠ id) :
    s'.calls j = s.calls j := by
  rw [h.calls, Function.update_of_ne hj]

theorem statusOf_of_ne (h : Step s s' id stage released foreseen) {j : JobId} (hj : j ≠ id) :
    s'.statusOf j = s.statusOf j := congrArg (Option.map JobRecord.status) (h.jobs j hj)

/-- The call that moves holds the coordinator, unless nothing does yet. -/
theorem holds (h : Step s s' id stage released foreseen) (hlocked : s.Locked) :
    s.calls id = none ∧ s.currentJobId = none ∨ s.currentJobId = some id := by
  cases hcalls : s.calls id with
  | none =>
    have hfree := h.free hcalls
    rw [isBusy, Option.isSome_eq_false_iff, Option.isNone_iff_eq_none] at hfree
    exact Or.inl ⟨rfl, hfree⟩
  | some old =>
    have hmoves := h.moves
    rw [hcalls] at hmoves
    rcases hlocked id old hcalls with ⟨resolved, hsettled⟩ | hcurrent
    · exact absurd hsettled (hmoves.not_settled resolved)
    · exact Or.inr hcurrent

theorem current_of_kept (h : Step s s' id stage released foreseen) (hlocked : s.Locked)
    (hkept : released = false) : s'.currentJobId = some id := by
  rw [h.current, hkept, if_neg (by decide)]
  split_ifs with hnone
  · rfl
  · rcases h.holds hlocked with ⟨habsent, -⟩ | hcurrent
    · exact absurd habsent hnone
    · exact hcurrent

/-- Every other call is over. -/
theorem settled_of_ne (h : Step s s' id stage released foreseen) (hlocked : s.Locked) {j : JobId}
    (hj : j ≠ id) {other : Stage} (hother : s.calls j = some other) :
    ∃ resolved, other = .settled resolved := by
  rcases hlocked j other hother with hsettled | hcurrent
  · exact hsettled
  · rcases h.holds hlocked with ⟨-, hnone⟩ | hid
    · rw [hnone] at hcurrent
      cases hcurrent
    · rw [hid] at hcurrent
      exact absurd (Option.some.inj hcurrent).symm hj

theorem locked (h : Step s s' id stage released foreseen) (hlocked : s.Locked) : s'.Locked := by
  intro j other hother
  by_cases hj : j = id
  · rw [hj, h.calls_self] at hother
    cases hother
    cases hreleased : released with
    | true =>
      have hmoves := h.moves
      rw [hreleased] at hmoves
      exact Or.inl hmoves.settled_of_released
    | false => exact Or.inr (hj ▸ h.current_of_kept hlocked hreleased)
  · rw [h.calls_of_ne hj] at hother
    exact Or.inl (h.settled_of_ne hlocked hj hother)

theorem sound (h : Step s s' id stage released true) (hlocked : s.Locked) (hsound : s.Sound) :
    s'.Sound where
  held := by
    intro j hcurrent
    cases hreleased : released with
    | true =>
      rw [h.current, hreleased, if_pos rfl] at hcurrent
      cases hcurrent
    | false =>
      rw [h.current_of_kept hlocked hreleased] at hcurrent
      cases hcurrent
      have hmoves := h.moves
      rw [hreleased] at hmoves
      exact ⟨stage, h.calls_self, hmoves.goes_on rfl⟩
  accords := by
    intro j other hother
    by_cases hj : j = id
    · rw [hj, h.calls_self] at hother
      cases hother
      rw [hj]
      exact h.moves.accords fun o ho => hsound.accords id o ho
    · rw [h.calls_of_ne hj] at hother
      rw [h.statusOf_of_ne hj]
      exact hsound.accords j other hother
  called := by
    intro j hnone
    by_cases hj : j = id
    · rw [hj, h.calls_self] at hnone
      cases hnone
    · rw [h.calls_of_ne hj] at hnone
      rw [h.jobs j hj]
      exact hsound.called j hnone

theorem broken_of_sound (h : Step s s' id stage released false) (hlocked : s.Locked)
    (hsound : s.Sound) : s'.Broken := by
  rcases h.moves.wrong fun o ho => hsound.accords id o ho with ⟨hkept, resolved, rfl⟩ |
    ⟨resolved, hstage, hstatus⟩
  · exact Or.inl ⟨id, resolved, h.current_of_kept hlocked hkept, h.calls_self⟩
  · refine Or.inr ⟨id, resolved, ?_, hstatus⟩
    rw [h.calls_self, Option.some_inj, Option.some_inj]
    exact hstage

theorem broken (h : Step s s' id stage released foreseen) (hlocked : s.Locked)
    (hbroken : s.Broken) : s'.Broken := by
  have hmoves := h.moves
  rcases hbroken with ⟨j, resolved, hcurrent, hsettled⟩ | ⟨j, resolved, hstage, status, hstatus, hne⟩
  · rcases h.holds hlocked with ⟨-, hnone⟩ | hid
    · rw [hnone] at hcurrent
      cases hcurrent
    · rw [hid] at hcurrent
      cases hcurrent
      rw [hsettled] at hmoves
      exact absurd rfl (hmoves.not_settled resolved)
  · refine Or.inr ⟨j, resolved, ?_⟩
    by_cases hj : j = id
    · rw [hj] at hstage hstatus ⊢
      rcases hstage with hfailing | hsettled
      · rw [hfailing] at hmoves
        obtain ⟨hstage, hafter⟩ := hmoves.of_failing
        rw [h.calls_self, hstage, hafter]
        exact ⟨Or.inr rfl, status, hstatus, hne⟩
      · rw [hsettled] at hmoves
        exact absurd rfl (hmoves.not_settled _)
    · rw [h.calls_of_ne hj, h.statusOf_of_ne hj]
      exact ⟨hstage, status, hstatus, hne⟩

end Step

section Runs
variable {s}
variable {s' : JobCoordinator JobId} {e : Event JobId} {events : List (Event JobId)}

theorem locked_next (h : s.next e = some s') (hlocked : s.Locked) : s'.Locked := by
  rcases next_cases h with ⟨-, -, rfl⟩ | ⟨id, stage, released, foreseen, hstep, -⟩
  · exact hlocked
  · exact hstep.locked hlocked

theorem sound_next (h : s.next e = some s') (hlocked : s.Locked) (hsound : s.Sound)
    (hforeseen : s.Foreseen e) : s'.Sound := by
  rcases next_cases h with ⟨-, -, rfl⟩ | ⟨id, stage, released, foreseen, hstep, hiff⟩
  · exact ⟨hsound.held, hsound.accords, hsound.called⟩
  · rw [hiff.mp hforeseen] at hstep
    exact hstep.sound hlocked hsound

theorem broken_of_not_foreseen (h : s.next e = some s') (hlocked : s.Locked) (hsound : s.Sound)
    (hnot : ¬ s.Foreseen e) : s'.Broken := by
  rcases next_cases h with ⟨-, hforeseen, -⟩ | ⟨id, stage, released, foreseen, hstep, hiff⟩
  · exact absurd hforeseen hnot
  · rw [hiff, Bool.not_eq_true] at hnot
    rw [hnot] at hstep
    exact hstep.broken_of_sound hlocked hsound

theorem broken_next (h : s.next e = some s') (hlocked : s.Locked) (hbroken : s.Broken) :
    s'.Broken := by
  rcases next_cases h with ⟨-, -, rfl⟩ | ⟨id, stage, released, foreseen, hstep, -⟩
  · exact hbroken
  · exact hstep.broken hlocked hbroken

theorem run_cons (h : s.run (e :: events) = some s') :
    ∃ t, s.next e = some t ∧ t.run events = some s' := Option.bind_eq_some_iff.mp h

theorem locked_run (h : s.run events = some s') (hlocked : s.Locked) : s'.Locked := by
  induction events generalizing s with
  | nil =>
    cases h
    exact hlocked
  | cons e events ih =>
    obtain ⟨t, ht, hrest⟩ := run_cons h
    exact ih hrest (locked_next ht hlocked)

/-- Nothing repairs a coordinator. -/
theorem broken_run (h : s.run events = some s') (hlocked : s.Locked) (hbroken : s.Broken) :
    s'.Broken := by
  induction events generalizing s with
  | nil =>
    cases h
    exact hbroken
  | cons e events ih =>
    obtain ⟨t, ht, hrest⟩ := run_cons h
    exact ih hrest (locked_next ht hlocked) (broken_next ht hlocked hbroken)

/-- The first event that was not foreseen decides. -/
theorem sound_or_broken (h : s.run events = some s') (hlocked : s.Locked) (hsound : s.Sound) :
    s.AllForeseen events ∧ s'.Sound ∨ ¬ s.AllForeseen events ∧ s'.Broken := by
  induction events generalizing s with
  | nil =>
    cases h
    exact Or.inl ⟨trivial, hsound⟩
  | cons e events ih =>
    obtain ⟨t, ht, hrest⟩ := run_cons h
    have hlockedNext := locked_next ht hlocked
    by_cases hforeseen : s.Foreseen e
    · rcases ih hrest hlockedNext (sound_next ht hlocked hsound hforeseen) with ⟨hall, hend⟩ |
        ⟨hnot, hend⟩
      · refine Or.inl ⟨⟨hforeseen, fun u hu => ?_⟩, hend⟩
        rw [ht] at hu
        cases hu
        exact hall
      · exact Or.inr ⟨fun hall => hnot (hall.2 t ht), hend⟩
    · have hbroken := broken_of_not_foreseen ht hlocked hsound hforeseen
      exact Or.inr ⟨fun hall => hforeseen hall.1, broken_run hrest hlockedNext hbroken⟩

omit [DecidableEq JobId] in
theorem idle_of_sound (hsound : s.Sound) (hsettled : s.AllSettled) :
    s.isBusy = false ∧ ∀ id job, s.jobs id = some job →
      ∃ resolved, s.calls id = some (.settled (some resolved)) ∧ job.status = final resolved := by
  constructor
  · cases hcurrent : s.currentJobId with
    | none => rw [isBusy, hcurrent, Option.isSome_none]
    | some id =>
      obtain ⟨stage, hstage, hgoes⟩ := hsound.held id hcurrent
      obtain ⟨resolved, hresolved⟩ := hsettled id stage hstage
      exact absurd hresolved (hgoes resolved)
  · intro id job hjob
    cases hcalls : s.calls id with
    | none =>
      rw [hsound.called id hcalls] at hjob
      cases hjob
    | some stage =>
      have haccords := hsound.accords id stage hcalls
      obtain ⟨resolved, rfl⟩ := hsettled id stage hcalls
      cases resolved with
      | none => exact haccords.elim
      | some resolved =>
        have hstatus : s.statusOf id = some (final resolved) := haccords
        rw [statusOf, hjob] at hstatus
        exact ⟨resolved, rfl, Option.some.inj hstatus⟩

/-- A coordinator that is broken is not right once its calls have settled. -/
theorem not_right_of_broken (hbroken : s.Broken) (hsettled : s.AllSettled) : ¬ s.Right := by
  intro hright
  obtain ⟨hidle, hjobs⟩ := hright.idle hsettled
  rcases hbroken with ⟨id, resolved, hcurrent, -⟩ | ⟨id, resolved, hstage, status, hstatus, hne⟩
  · rw [isBusy, hcurrent] at hidle
    cases hidle
  · obtain ⟨job, hjob, hjobStatus⟩ := Option.map_eq_some_iff.mp hstatus
    obtain ⟨other, hother, hfinal⟩ := hjobs id job hjob
    have hsame : other = resolved := by
      rcases hstage with hfailing | hover
      · rw [hfailing] at hother
        cases hother
      · rw [hover] at hother
        cases hother
        rfl
    rw [hsame, hjobStatus] at hfinal
    exact hne hfinal

omit [DecidableEq JobId] in
theorem locked_init : ({} : JobCoordinator JobId).Locked := fun _ _ h => nomatch h

omit [DecidableEq JobId] in
theorem sound_init : ({} : JobCoordinator JobId).Sound :=
  ⟨(fun _ h => nomatch h), (fun _ _ h => nomatch h), fun _ _ => rfl⟩

end Runs

/-- In every run one work goes on at a time and other calls are turned away; and once the calls have
settled, the coordinator is free and its jobs are told right if and only if each event was foreseen. -/
theorem right_iff (events : List (Event JobId)) (s : JobCoordinator JobId)
    (h : run {} events = some s) : s.Right ↔ (s.AllSettled → AllForeseen {} events) := by
  have hlocked := locked_run h locked_init
  have hworking : ∀ id, s.calls id = some .working → s.currentJobId = some id := by
    intro id hid
    rcases hlocked id .working hid with ⟨resolved, hsettled⟩ | hcurrent
    · cases hsettled
    · exact hcurrent
  have hexclusive : ∀ i j, s.calls i = some .working → s.calls j = some .working → i = j := by
    intro i j hi hj
    have hboth := (hworking i hi).symm.trans (hworking j hj)
    exact Option.some.inj hboth
  have hrejects : ∀ i, s.calls i = some .working → ∀ id kind created,
      s.next (.call id kind created) = some { s with rejected := s.rejected + 1 } := by
    intro i hi id kind created
    rw [next, if_pos]
    rw [hworking i hi, Option.isSome_some]
  rcases sound_or_broken h locked_init sound_init with ⟨hall, hsound⟩ | ⟨hnot, hbroken⟩
  · exact iff_of_true ⟨hexclusive, hrejects, idle_of_sound hsound⟩ fun _ => hall
  · constructor
    · intro hright hsettled
      exact absurd hright (not_right_of_broken hbroken hsettled)
    · intro himplies
      exact ⟨hexclusive, hrejects, fun hsettled => absurd (himplies hsettled) hnot⟩

/-- A work that rejects, while another call is turned away. -/
theorem right_iff_rejecting : ∃ s : JobCoordinator ℕ,
    run {} [.call 1 "server.start" (.ok ()), .startSettles 1 (.ok ()),
      .call 2 "server.stop" (.ok ()), .workSettles 1 (.error "exit 1") (.ok ()) (.ok ()),
      .failureSettles 1 (.ok ())] = some s ∧ s.Right := by
  obtain ⟨s, hrun⟩ : ∃ s : JobCoordinator ℕ,
      run {} [.call 1 "server.start" (.ok ()), .startSettles 1 (.ok ()),
        .call 2 "server.stop" (.ok ()), .workSettles 1 (.error "exit 1") (.ok ()) (.ok ()),
        .failureSettles 1 (.ok ())] = some s := ⟨_, rfl⟩
  refine ⟨s, hrun, (right_iff _ s hrun).mpr fun _ => ?_⟩
  refine ⟨Or.inr rfl, fun started hstarted => ?_⟩
  cases hstarted
  refine ⟨rfl, fun working hworking => ?_⟩
  cases hworking
  refine ⟨Or.inl rfl, fun turned hturned => ?_⟩
  cases hturned
  refine ⟨rfl, fun failing hfailing => ?_⟩
  cases hfailing
  exact ⟨trivial, fun _ _ => trivial⟩

/-- The report of the start rejects, and the coordinator is never free again. -/
theorem not_right_start : ∃ s : JobCoordinator ℕ,
    run {} [.call 1 "server.start" (.ok ()), .startSettles 1 (.error "Unknown interaction")] =
      some s ∧ s.AllSettled ∧ s.isBusy = true ∧ ¬ s.Right := by
  obtain ⟨s, hrun⟩ : ∃ s : JobCoordinator ℕ,
      run {} [.call 1 "server.start" (.ok ()), .startSettles 1 (.error "Unknown interaction")] =
        some s := ⟨_, rfl⟩
  have hbusy : s.isBusy = true := by
    cases hrun
    rfl
  have hsettled : s.AllSettled := by
    cases hrun
    intro id stage hstage
    by_cases hid : id = 1
    · rw [hid] at hstage
      cases hstage
      exact ⟨_, rfl⟩
    · change Function.update (Function.update (fun _ => none) 1 (some Stage.starting)) 1
        (some (Stage.settled (some false))) id = some stage at hstage
      rw [Function.update_of_ne hid, Function.update_of_ne hid] at hstage
      cases hstage
  refine ⟨s, hrun, hsettled, hbusy, fun hright => ?_⟩
  have hidle := (hright.idle hsettled).1
  rw [hbusy] at hidle
  cases hidle

end JobCoordinator

end OpenNXT.Ops
