import OpenNXT.Net.Js5Turns
import Mathlib.Data.Multiset.AddSub

/-! The keys in flight are those of the requests and responses that wait. -/
namespace OpenNXT.Net
open Buffer

namespace Js5Session

/-- The keys of all that a lane has in hand. -/
def Books.keys (b : Books) : List ArchiveKey :=
  b.requests.map RequestFile.archiveKey ++ (b.held.map PendingResponse.archiveKey ++ b.lost)

/-- Every key in flight is in hand once, and nothing else is. -/
def Books.Exact (b : Books) : Prop := b.inFlight.val = (b.keys : Multiset ArchiveKey)

namespace Books.Exact
variable {I : Finset ArchiveKey} {b : Books}

theorem nodup (h : b.Exact) : b.keys.Nodup := by
  have hnodup := b.inFlight.nodup
  rw [h] at hnodup
  exact Multiset.coe_nodup.mp hnodup

theorem mem_iff (h : b.Exact) (k : ArchiveKey) : k ∈ b.inFlight ↔ k ∈ b.keys := by
  rw [← Finset.mem_val, h]
  exact Multiset.mem_coe

/-- Only the keys matter, and not their order. -/
theorem perm {b' : Books} (h : b.Exact) (hI : b'.inFlight = b.inFlight)
    (hk : b.keys.Perm b'.keys) : b'.Exact := by
  unfold Books.Exact
  rw [hI, h]
  exact Multiset.coe_eq_coe.mpr hk

theorem insert {b' : Books} {k : ArchiveKey} (h : b.Exact) (hk : k ∉ b.inFlight)
    (hI : b'.inFlight = insert k b.inFlight) (hkeys : (k :: b.keys).Perm b'.keys) :
    b'.Exact := by
  unfold Books.Exact
  rw [hI, Finset.insert_val_of_notMem hk, h, Multiset.cons_coe]
  exact Multiset.coe_eq_coe.mpr hkeys

theorem erase {b' : Books} {k : ArchiveKey} (h : b.Exact)
    (hI : b'.inFlight = b.inFlight.erase k) (hkeys : b.keys.Perm (k :: b'.keys)) : b'.Exact := by
  unfold Books.Exact
  rw [hI, Finset.erase_val, h, Multiset.coe_eq_coe.mpr hkeys, ← Multiset.cons_coe,
    Multiset.erase_cons_head]

end Books.Exact

section Turns
variable {env : Environment} {p : Bool} {b b' : Books} {log : List Block}

/-- A response has the key of its request. -/
theorem archiveKey_load {loggedIn : Bool} {q : RequestFile} {r : PendingResponse}
    (h : load env loggedIn q = .loaded r) : r.archiveKey = q.archiveKey := by
  unfold load at h
  split at h
  · cases h
  · split at h
    · cases h
    · cases h
      rfl

theorem Turn.exact (h : Turn env p b log b') (hb : b.Exact) : b'.Exact := by
  cases h with
  | accept q hq hnew =>
    refine hb.insert hnew rfl ?_
    unfold Books.keys
    rw [List.map_append, List.append_assoc]
    exact List.perm_middle.symm
  | inline => exact hb
  | skip q => exact hb.erase rfl (List.Perm.refl _)
  | load q hl =>
    refine hb.perm rfl ?_
    unfold Books.keys
    rw [List.map_cons, List.map_cons, archiveKey_load hl]
    exact List.perm_middle.symm
  | lose q =>
    refine hb.perm rfl ?_
    unfold Books.keys
    rw [List.map_cons, ← List.append_assoc, ← List.append_assoc]
    exact List.perm_middle.symm
  | send xor r n => exact hb.perm rfl (List.Perm.refl _)
  | drop r =>
    refine hb.perm rfl ?_
    unfold Books.keys
    apply List.Perm.append_left
    exact List.perm_middle.symm
  | finish r hr =>
    refine hb.erase rfl ?_
    exact List.perm_middle
  | pass hp =>
    refine hb.perm rfl ?_
    unfold Books.keys
    exact ((hp.map _).append_right _).append_left _

theorem Turns.exact (h : Turns env p b log b') (hb : b.Exact) : b'.Exact := by
  induction h with
  | refl => exact hb
  | tail _ ht ih => exact ht.exact ih

end Turns

section Run
variable {env : Environment} {admits : Session → RequestFile → Prop}
  {allowed : Session × Thread → Prop}

@[simp] theorem responses_enqueueRequest (env : Environment) (s : Session) (q : RequestFile)
    (p : Bool) : ((enqueueRequest env s q).lane p).responses = (s.lane p).responses := by
  have hadd : ((addInFlight s q.priority q.archiveKey).lane p).responses =
      (s.lane p).responses := by
    cases p <;> cases hp : q.priority <;> rfl
  have hqueue : ∀ s : Session, ((addRequest s q).lane p).responses = (s.lane p).responses := by
    intro s
    cases p <;> cases hp : q.priority <;> simp [addRequest, setRequests, Session.lane, hp,
      Session.setLane]
  unfold enqueueRequest
  split_ifs
  · rfl
  · simp only
    split
    · rw [responses_removeInFlight, Session.lane_write, hadd]
    · rw [hqueue, responses_removeInFlight, hadd]
  · rw [hqueue, hadd]

private theorem unfinished_process {c d : Session × Thread} (ht : SortedThread c.2)
    (hc : ∀ p, ∀ r ∈ (c.1.lane p).responses, 0 < r.remaining)
    (hstep : processStep env c = some d) :
    ∀ p, ∀ r ∈ (d.1.lane p).responses, 0 < r.remaining := by
  obtain ⟨s, t⟩ := c
  cases t with
  | idle => cases hstep
  | loop p limit n =>
    obtain ⟨hpolls, hframe, -⟩ := nextPendingResponse_spec env s p
    have hsame : ∀ s', s' = (nextPendingResponse env s p).1 →
        ∀ p, ∀ r ∈ (s'.lane p).responses, 0 < r.remaining := by
      rintro s' rfl p'
      rcases Bool.eq_or_eq_not p' p with rfl | rfl
      · intro r hr
        exact hc _ r (hpolls.mem_requests.2 r hr)
      · rw [hframe.responses]
        exact hc !p
    rw [processStep] at hstep
    split_ifs at hstep
    · cases hnext : nextPendingResponse env s p with
      | mk s' next =>
        rw [hnext] at hstep
        cases next <;> cases hstep <;> exact hsame s' (by rw [hnext])
    · cases hstep
      exact hc
  | write p limit n r =>
    rw [processStep] at hstep
    split at hstep
    · cases hstep
      exact hc
    · cases hstep
      exact hc
  | recycle p limit n r =>
    cases hstep
    have hp : r.priority = p := ht
    intro p'
    rcases Bool.eq_or_eq_not p' p with rfl | rfl
    · intro x hx
      rw [responses_recycle hp] at hx
      rcases List.mem_append.mp hx with hx | hx
      · exact hc _ x hx
      · split_ifs at hx with hmore
        · rw [List.mem_singleton.mp hx]
          exact hmore
        · cases hx
    · rw [(frame_recycle (s := s) hp).responses]
      exact hc !p

/-- A response that was finished is not in a queue. -/
theorem unfinished_of_run {c : Session × Thread} {log : List Block}
    (h : Run env admits allowed c log) :
    ∀ p, ∀ r ∈ (c.1.lane p).responses, 0 < r.remaining := by
  induction h with
  | start =>
    intro p r hr
    cases p <;> cases hr
  | enqueue _ q _ ih =>
    intro p r hr
    rw [responses_enqueueRequest] at hr
    exact ih p r hr
  | updateLoggedInState _ _ ih =>
    intro p
    cases p
    · exact ih false
    · exact ih true
  | xorRequest _ _ ih =>
    intro p
    cases p
    · exact ih false
    · exact ih true
  | call _ _ ih => exact ih
  | process h _ hstep ih =>
    have hsorted := sorted_of_reachable (reachable_of_run h)
    exact unfinished_process hsorted.2 ih hstep

/-- In every run without exceptions that lets no duplicate through, the keys in flight are those of
the requests and the unfinished responses that wait. -/
theorem mem_inFlight_iff (env : Environment) (s : Session) (log : List Block)
    (h : Run env (fun s r => ¬ LetsThrough s r) (fun c => ¬ Throws env c) (s, .idle) log)
    (p : Bool) (key : ArchiveKey) :
    key ∈ (s.lane p).inFlight ↔
      (∃ q ∈ (s.lane p).requests, q.archiveKey = key) ∨
        ∃ r ∈ (s.lane p).responses, 0 < r.remaining ∧ r.archiveKey = key := by
  obtain ⟨L, hturns, hL⟩ := turns_of_run h p
  have hnil : L = [] := hL fun c hc => hc
  subst hnil
  have hexact : (books (s, .idle) p []).Exact := hturns.exact rfl
  have hunfinished := unfinished_of_run h p
  have hmem := hexact.mem_iff key
  unfold books Books.keys Thread.held at hmem
  simp only [List.nil_append, List.append_nil, List.mem_append, List.mem_map] at hmem
  rw [hmem]
  apply or_congr Iff.rfl
  constructor
  · rintro ⟨r, hr, hkey⟩
    exact ⟨r, hr, hunfinished r hr, hkey⟩
  · rintro ⟨r, hr, -, hkey⟩
    exact ⟨r, hr, hkey⟩

/-- One reference table of six bytes. -/
def tableEnvironment : Environment :=
  { sampleEnvironment with
    readReferenceTable := fun archive =>
      some (if archive = 3 then some [0, 0, 0, 0, 1, 77] else none) }

def tableRequest : RequestFile where
  priority := true
  index := 255
  archive := 3

/-- The table is requested and sent, with room for nothing more. -/
theorem mem_inFlight_iff_table : ∃ s log,
    Run tableEnvironment (fun s r => ¬ LetsThrough s r) (fun c => ¬ Throws tableEnvironment c)
      (s, .idle) log ∧ log ≠ [] ∧
    (tableRequest.archiveKey ∈ (s.lane true).inFlight ↔
      (∃ q ∈ (s.lane true).requests, q.archiveKey = tableRequest.archiveKey) ∨
        ∃ r ∈ (s.lane true).responses, 0 < r.remaining ∧
          r.archiveKey = tableRequest.archiveKey) := by
  have hcall : Run tableEnvironment (fun s r => ¬ LetsThrough s r)
      (fun c => ¬ Throws tableEnvironment c) _ _ :=
    (Run.start.enqueue tableRequest (by unfold LetsThrough; decide)).call 11
  have hrun := hcall.runFor 6
  refine ⟨_, _, hrun, by decide, ?_⟩
  exact mem_inFlight_iff tableEnvironment _ _ hrun true tableRequest.archiveKey

/-- Two requests for the table are let through; when the first is answered, the second waits with
its key gone. -/
theorem not_mem_inFlight_duplicate : ∃ s log,
    Run tableEnvironment (fun _ _ => True) (fun c => ¬ Throws tableEnvironment c) (s, .idle) log ∧
      tableRequest ∈ (s.lane true).requests ∧
      tableRequest.archiveKey ∉ (s.lane true).inFlight := by
  have hcall : Run tableEnvironment (fun _ _ => True) (fun c => ¬ Throws tableEnvironment c) _ _ :=
    ((Run.start.enqueue tableRequest trivial).enqueue tableRequest trivial).call 11
  refine ⟨_, _, hcall.runFor 6, ?_, ?_⟩
  · decide
  · decide

end Run

end Js5Session

end OpenNXT.Net
