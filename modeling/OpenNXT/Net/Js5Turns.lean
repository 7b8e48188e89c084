import OpenNXT.Net.Js5Serving
import Mathlib.Data.Finset.Erase
import Mathlib.Data.Finset.Insert

/-! What one lane of a session does, turn by turn: requests are accepted, looked up and answered,
and responses go out block by block. -/
namespace OpenNXT.Net
open Buffer

namespace Js5Session

def PendingResponse.archiveKey (r : PendingResponse) : ArchiveKey := ⟨r.index, r.archive⟩

/-- No block of a response is left to cut. -/
def PendingResponse.Ended (r : PendingResponse) : Prop := r.data = [] ∨ r.remaining ≤ 0

instance (r : PendingResponse) : Decidable r.Ended := inferInstanceAs (Decidable (_ ∨ _))

/-- What is left of a response behind its next `n` bytes. -/
def PendingResponse.cut (r : PendingResponse) (n : ℕ) : PendingResponse :=
  { r with data := r.data.drop n, remaining := r.remaining - n }

@[simp] theorem PendingResponse.archiveKey_cut (r : PendingResponse) (n : ℕ) :
    (r.cut n).archiveKey = r.archiveKey := rfl

@[simp] theorem PendingResponse.target_cut (r : PendingResponse) (n : ℕ) :
    (r.cut n).target = r.target := rfl

/-- A block as it was written, between two states of its response. -/
structure Block where
  xor : Word
  before : PendingResponse
  after : PendingResponse
  deriving DecidableEq

namespace Block

def target (b : Block) : Target := b.before.target

def payload (b : Block) : List Byte :=
  b.before.data.take (b.before.remaining - b.after.remaining).toNat

def bytes (b : Block) : List Byte :=
  blockHeader b.xor b.before.priority b.before.index b.before.archive ++
    b.payload.map (xorByte b.xor)

end Block

/-- The blocks of a response that is written at once. -/
def inlineBlocks (xor : Word) (r : PendingResponse) : List Block :=
  if _h : r.Ended then []
  else
    let next := r.cut (min (maxResponseBlockPayloadBytes : ℤ) r.remaining).toNat
    ⟨xor, r, next⟩ :: inlineBlocks xor next
termination_by r.data.length
decreasing_by
  have hdata := List.length_pos_iff.mpr (not_or.mp _h).1
  have hremaining := (not_or.mp _h).2
  simp only [PendingResponse.cut, List.length_drop, maxResponseBlockPayloadBytes]
  omega

/-- The blocks of a response that is written at once belong to it. -/
theorem target_of_inlineBlocks {xor : Word} {r : PendingResponse} {b : Block}
    (hb : b ∈ inlineBlocks xor r) : b.target = r.target := by
  induction hn : r.data.length using Nat.strongRecOn generalizing r with
  | _ n ih =>
    rw [inlineBlocks] at hb
    split_ifs at hb with hend
    · cases hb
    · rcases List.mem_cons.mp hb with rfl | hb
      · rfl
      · have hdata := List.length_pos_iff.mpr (not_or.mp hend).1
        have hremaining := (not_or.mp hend).2
        apply ih _ _ hb rfl
        simp only [PendingResponse.cut, List.length_drop, maxResponseBlockPayloadBytes]
        omega

theorem priority_of_inlineBlocks {xor : Word} {r : PendingResponse} {b : Block}
    (hb : b ∈ inlineBlocks xor r) : b.before.priority = r.priority :=
  congrArg Target.priority (target_of_inlineBlocks hb)

/-- What `enqueueRequest` writes itself. -/
def enqueueBlocks (env : Environment) (s : Session) (r : RequestFile) : List Block :=
  if r.archiveKey ∈ (s.lane r.priority).inFlight ∧
      ¬ shouldAllowDuplicateWhileLoggedOut s.loggedIn r then []
  else if isInlineCriticalRequest r then
    match load env s.loggedIn r with
    | .loaded response =>
      if (Js5Encoder.encode s.xorKey true r.index r.archive response.data).isSome then
        inlineBlocks s.xorKey response
      else []
    | _ => []
  else []

/-- What a step of `process` writes. -/
def processBlocks : Session × Thread → List Block
  | (s, .write _ limit bytesSent r) =>
    match writeResponseBlock s.xorKey r (limit - bytesSent) with
    | some (sent, next, _) => if sent = 0 then [] else [⟨s.xorKey, r, next⟩]
    | none => []
  | _ => []

/-- The step of `process` is an exception. -/
def Throws (env : Environment) : Session × Thread → Prop
  | (s, .loop priority limit bytesSent) =>
    bytesSent < limit ∧ (nextPendingResponse env s priority).2 = .thrown
  | (s, .write _ limit bytesSent r) => writeResponseBlock s.xorKey r (limit - bytesSent) = none
  | _ => False

/-- The runs of a fresh session, with the blocks they write. Requests are admitted ones, and the
thread's steps are taken from allowed states. -/
inductive Run (env : Environment) (admits : Session → RequestFile → Prop)
    (allowed : Session × Thread → Prop) : Session × Thread → List Block → Prop
  | start : Run env admits allowed ({}, .idle) []
  | enqueue {s : Session} {t : Thread} {log : List Block} (h : Run env admits allowed (s, t) log)
      (r : RequestFile) (hr : admits s r) :
      Run env admits allowed (enqueueRequest env s r, t) (log ++ enqueueBlocks env s r)
  | updateLoggedInState {s : Session} {t : Thread} {log : List Block}
      (h : Run env admits allowed (s, t) log) (loggedIn : Bool) :
      Run env admits allowed ({ s with loggedIn := loggedIn }, t) log
  | xorRequest {s : Session} {t : Thread} {log : List Block}
      (h : Run env admits allowed (s, t) log) (xor : Word) :
      Run env admits allowed ({ s with xorKey := xor }, t) log
  | call {s : Session} {log : List Block} (h : Run env admits allowed (s, .idle) log) (limit : ℤ) :
      Run env admits allowed (s, process limit) log
  | process {c d : Session × Thread} {log : List Block} (h : Run env admits allowed c log)
      (hc : allowed c) (hstep : processStep env c = some d) :
      Run env admits allowed d (log ++ processBlocks c)

/-- The duplicate that is let through: a reference table, while logged out. -/
def LetsThrough (s : Session) (r : RequestFile) : Prop :=
  r.archiveKey ∈ (s.lane r.priority).inFlight ∧
    shouldAllowDuplicateWhileLoggedOut s.loggedIn r = true

/-- What a lane has in hand: the keys in flight, the requests that wait, the responses in its queue
and with the thread, and the keys an exception left behind. -/
structure Books where
  inFlight : Finset ArchiveKey := ∅
  requests : List RequestFile := []
  held : List PendingResponse := []
  lost : List ArchiveKey := []

/-- One turn of the lane `p`, and the blocks it writes. -/
inductive Turn (env : Environment) (p : Bool) : Books → List Block → Books → Prop
  | accept {I : Finset ArchiveKey} {Q : List RequestFile} {H : List PendingResponse}
      {L : List ArchiveKey} (q : RequestFile) (hq : q.priority = p) (hnew : q.archiveKey ∉ I) :
      Turn env p ⟨I, Q, H, L⟩ [] ⟨insert q.archiveKey I, Q ++ [q], H, L⟩
  | inline {I : Finset ArchiveKey} {Q : List RequestFile} {H : List PendingResponse}
      {L : List ArchiveKey} (q : RequestFile) (hq : q.priority = p) (hnew : q.archiveKey ∉ I)
      {loggedIn : Bool} {r : PendingResponse} (hl : load env loggedIn q = .loaded r) (xor : Word)
      (hfits : (Js5Encoder.encodeBlocks xor r.priority r.index r.archive r.data r.remaining).isSome) :
      Turn env p ⟨I, Q, H, L⟩ (inlineBlocks xor r) ⟨I, Q, H, L⟩
  | skip {I : Finset ArchiveKey} {Q : List RequestFile} {H : List PendingResponse}
      {L : List ArchiveKey} (q : RequestFile) :
      Turn env p ⟨I, q :: Q, H, L⟩ [] ⟨I.erase q.archiveKey, Q, H, L⟩
  | load {I : Finset ArchiveKey} {Q : List RequestFile} {H : List PendingResponse}
      {L : List ArchiveKey} (q : RequestFile) {loggedIn : Bool} {r : PendingResponse}
      (hl : load env loggedIn q = .loaded r) : Turn env p ⟨I, q :: Q, H, L⟩ [] ⟨I, Q, r :: H, L⟩
  | lose {I : Finset ArchiveKey} {Q : List RequestFile} {H : List PendingResponse}
      {L : List ArchiveKey} (q : RequestFile) :
      Turn env p ⟨I, q :: Q, H, L⟩ [] ⟨I, Q, H, q.archiveKey :: L⟩
  | send {I : Finset ArchiveKey} {Q : List RequestFile} {H : List PendingResponse}
      {L : List ArchiveKey} (xor : Word) (r : PendingResponse) (n : ℕ) (hn : 0 < n)
      (hdata : n ≤ r.data.length) (hremaining : n ≤ r.remaining) :
      Turn env p ⟨I, Q, r :: H, L⟩ [⟨xor, r, r.cut n⟩] ⟨I, Q, r.cut n :: H, L⟩
  | drop {I : Finset ArchiveKey} {Q : List RequestFile} {H : List PendingResponse}
      {L : List ArchiveKey} (r : PendingResponse) :
      Turn env p ⟨I, Q, r :: H, L⟩ [] ⟨I, Q, H, r.archiveKey :: L⟩
  | finish {I : Finset ArchiveKey} {Q : List RequestFile} {H : List PendingResponse}
      {L : List ArchiveKey} (r : PendingResponse) (hr : r.remaining ≤ 0) :
      Turn env p ⟨I, Q, r :: H, L⟩ [] ⟨I.erase r.archiveKey, Q, H, L⟩
  | pass {I : Finset ArchiveKey} {Q : List RequestFile} {H H' : List PendingResponse}
      {L : List ArchiveKey} (hp : H.Perm H') : Turn env p ⟨I, Q, H, L⟩ [] ⟨I, Q, H', L⟩

inductive Turns (env : Environment) (p : Bool) : Books → List Block → Books → Prop
  | refl (b : Books) : Turns env p b [] b
  | tail {b b' b'' : Books} {log new : List Block} (h : Turns env p b log b')
      (ht : Turn env p b' new b'') : Turns env p b (log ++ new) b''

theorem Turns.single {env : Environment} {p : Bool} {b b' : Books} {log : List Block}
    (h : Turn env p b log b') : Turns env p b log b' := by
  have := (Turns.refl b).tail h
  rwa [List.nil_append] at this

theorem Turns.trans {env : Environment} {p : Bool} {b b' b'' : Books} {log new : List Block}
    (h : Turns env p b log b') (h' : Turns env p b' new b'') : Turns env p b (log ++ new) b'' := by
  induction h' with
  | refl => rwa [List.append_nil]
  | tail _ ht ih =>
    rw [← List.append_assoc]
    exact ih.tail ht

section Process
variable {env : Environment} {s : Session} {p : Bool} {L : List ArchiveKey}

/-- What the thread holds of a lane. -/
def Thread.held : Thread → Bool → List PendingResponse
  | .idle, _ | .loop .., _ => []
  | .write p _ _ r, p' | .recycle p _ _ r, p' => if p = p' then [r] else []

def Next.held : Next → List PendingResponse
  | .none | .thrown => []
  | .response r => [r]

def books (c : Session × Thread) (p : Bool) (lost : List ArchiveKey) : Books where
  inFlight := (c.1.lane p).inFlight
  requests := (c.1.lane p).requests
  held := c.2.held p ++ (c.1.lane p).responses
  lost := lost

@[simp] theorem inFlight_removeInFlight_self (s : Session) (p : Bool) (key : ArchiveKey) :
    ((removeInFlight s p key).lane p).inFlight = (s.lane p).inFlight.erase key := by
  unfold removeInFlight
  rw [Session.lane_setLane, if_pos rfl]

@[simp] theorem lane_removeInFlight_not (s : Session) (p : Bool) (key : ArchiveKey) :
    (removeInFlight s p key).lane (!p) = s.lane !p := by
  unfold removeInFlight
  rw [Session.lane_setLane, if_neg (by cases p <;> simp)]

@[simp] theorem lane_setRequests_not (s : Session) (p : Bool) (qs : List RequestFile) :
    (setRequests s p qs).lane (!p) = s.lane !p := by
  unfold setRequests
  rw [Session.lane_setLane, if_neg (by cases p <;> simp)]

@[simp] theorem lane_setResponses_not (s : Session) (p : Bool) (rs : List PendingResponse) :
    (setResponses s p rs).lane (!p) = s.lane !p := by
  unfold setResponses
  rw [Session.lane_setLane, if_neg (by cases p <;> simp)]

/-- Taking the next response is a series of turns; an exception loses its request. -/
private theorem pollRequests_turns (env : Environment) (s : Session) (L : List ArchiveKey)
    (qs : List RequestFile) (hq : ∀ q ∈ qs, q.priority = p) :
    (∃ L', Turns env p ⟨(s.lane p).inFlight, qs, (s.lane p).responses, L⟩ []
        ⟨((pollRequests env p qs s).1.lane p).inFlight,
          ((pollRequests env p qs s).1.lane p).requests,
          (pollRequests env p qs s).2.held ++ ((pollRequests env p qs s).1.lane p).responses, L'⟩ ∧
        ((pollRequests env p qs s).2 ≠ .thrown → L' = L)) ∧
      (pollRequests env p qs s).1.lane (!p) = s.lane !p := by
  induction qs generalizing s with
  | nil =>
    unfold pollRequests
    cases hr : (s.lane p).responses with
    | nil =>
      refine ⟨⟨L, ?_, fun _ => rfl⟩, lane_setRequests_not s p []⟩
      simp only [inFlight_setRequests, requests_setRequests, responses_setRequests, hr]
      exact .refl _
    | cons r rest =>
      refine ⟨⟨L, ?_, fun _ => rfl⟩, by simp⟩
      simp only [inFlight_setResponses, inFlight_setRequests, requests_setResponses,
        requests_setRequests, responses_setResponses]
      exact .refl _
  | cons q qs ih =>
    have hp : q.priority = p := hq q List.mem_cons_self
    unfold pollRequests
    cases hl : load env s.loggedIn q with
    | missing =>
      obtain ⟨⟨L', hturns, hL⟩, hother⟩ := ih (removeInFlight s q.priority q.archiveKey)
        (fun x hx => hq x (List.mem_cons_of_mem _ hx))
      rw [responses_removeInFlight, hp, inFlight_removeInFlight_self] at hturns
      rw [hp, lane_removeInFlight_not] at hother
      refine ⟨⟨L', ?_, ?_⟩, ?_⟩
      · have hskip : Turns env p ⟨(s.lane p).inFlight, q :: qs, (s.lane p).responses, L⟩ [] _ :=
          .single (.skip q)
        rw [hp]
        exact hskip.trans hturns
      · exact hL
      · rw [hp]
        exact hother
    | thrown =>
      refine ⟨⟨q.archiveKey :: L, ?_, fun hne => absurd rfl hne⟩, lane_setRequests_not s p qs⟩
      simp only [inFlight_setRequests, requests_setRequests, responses_setRequests]
      exact .single (.lose q)
    | loaded r =>
      refine ⟨⟨L, ?_, fun _ => rfl⟩, lane_setRequests_not s p qs⟩
      simp only [inFlight_setRequests, requests_setRequests, responses_setRequests]
      exact .single (.load q hl)

/-- A block that is written cuts its response. -/
private theorem writeResponseBlock_cut {xor : Word} {r r' : PendingResponse} {budget sent : ℤ}
    {bytes : List Byte} (h : writeResponseBlock xor r budget = some (sent, r', bytes)) :
    (sent = 0 ∧ r' = r ∧ bytes = []) ∨
      ∃ n : ℕ, 0 < n ∧ n ≤ r.data.length ∧ (n : ℤ) ≤ r.remaining ∧ sent ≠ 0 ∧ r' = r.cut n ∧
        bytes = (Block.mk xor r r').bytes := by
  by_cases hpos : 0 < payloadBytes r budget
  · obtain ⟨hsent, hr', hbytes⟩ := writeResponseBlock_of_lt hpos h
    obtain ⟨n, hn⟩ : ∃ n : ℕ, payloadBytes r budget = n := ⟨_, (Int.toNat_of_nonneg hpos.le).symm⟩
    have hdata : n ≤ r.data.length := by
      unfold payloadBytes at hn hpos
      unfold writeResponseBlock at h
      rw [if_neg (not_le.mpr hpos)] at h
      split_ifs at h with hlen
      omega
    have hremaining : (n : ℤ) ≤ r.remaining := by
      unfold payloadBytes at hn
      omega
    rw [hn] at hsent hr' hbytes hpos
    rw [Int.toNat_natCast] at hr' hbytes
    have hsize : r.remaining - r'.remaining = n := by
      rw [hr']
      exact sub_sub_cancel _ _
    refine Or.inr ⟨n, by omega, hdata, hremaining, by omega, hr', ?_⟩
    unfold Block.bytes Block.payload
    rw [hbytes, hsize, Int.toNat_natCast]
  · rw [writeResponseBlock_of_le xor (not_lt.mp hpos)] at h
    cases h
    exact Or.inl ⟨rfl, rfl, rfl⟩

private theorem held_self (p : Bool) (limit n : ℤ) (r : PendingResponse) :
    (Thread.write p limit n r).held p = [r] ∧ (Thread.recycle p limit n r).held p = [r] := by
  simp [Thread.held]

private theorem held_not (p : Bool) (limit n : ℤ) (r : PendingResponse) :
    (Thread.write p limit n r).held (!p) = [] ∧ (Thread.recycle p limit n r).held (!p) = [] := by
  cases p <;> simp [Thread.held]

@[simp] theorem held_leaveLoop (p p' : Bool) (limit n : ℤ) :
    (leaveLoop p limit n).held p' = [] := by
  cases p <;> rfl

/-- In either lane a step is a series of turns, and only a lossy one loses keys. -/
def Advances (env : Environment) (c : Session × Thread) (blocks : List Block)
    (d : Session × Thread) (lossless : Prop) : Prop :=
  ∀ p L, ∃ L', Turns env p (books c p L) (blocks.filter fun b => b.before.priority = p)
    (books d p L') ∧ (lossless → L' = L)

private theorem advances_of_lane {c d : Session × Thread} {blocks : List Block} {lossless : Prop}
    (p : Bool)
    (h : ∀ L, ∃ L', Turns env p (books c p L) blocks (books d p L') ∧ (lossless → L' = L))
    (hblocks : ∀ b ∈ blocks, b.before.priority = p)
    (hother : ∀ L, books d (!p) L = books c (!p) L) : Advances env c blocks d lossless := by
  intro p' L
  by_cases hp : p' = p
  · subst hp
    have hall : blocks.filter (fun b => b.before.priority = p') = blocks := by
      apply List.filter_eq_self.mpr
      intro b hb
      simp [hblocks b hb]
    rw [hall]
    exact h L
  · have hnot : p' = !p := by
      cases p <;> cases p' <;> simp_all
    have hnone : blocks.filter (fun b => b.before.priority = p') = [] := by
      apply List.filter_eq_nil_iff.mpr
      intro b hb
      simp [hblocks b hb, Ne.symm hp]
    rw [hnone, hnot]
    refine ⟨L, ?_, fun _ => rfl⟩
    rw [hother]
    exact .refl _

private theorem advances_of_eq {c d : Session × Thread} (lossless : Prop)
    (h : ∀ p L, books d p L = books c p L) : Advances env c [] d lossless := by
  intro p L
  refine ⟨L, ?_, fun _ => rfl⟩
  rw [h]
  exact .refl _

private theorem books_eq {c d : Session × Thread} {p : Bool} (hlane : d.1.lane p = c.1.lane p)
    (hheld : d.2.held p = c.2.held p) (L : List ArchiveKey) : books d p L = books c p L := by
  unfold books
  rw [hlane, hheld]

private theorem advances_loop {limit n : ℤ} {d : Session × Thread} (hs : Sorted s)
    (hstep : processStep env (s, .loop p limit n) = some d) :
    Advances env (s, .loop p limit n) [] d (¬ Throws env (s, .loop p limit n)) := by
  rw [processStep] at hstep
  split_ifs at hstep with hlt
  · cases hnext : nextPendingResponse env s p with
    | mk s' next =>
      have hturns : ∀ L, ∃ L', Turns env p (books (s, .loop p limit n) p L) []
          ⟨(s'.lane p).inFlight, (s'.lane p).requests, next.held ++ (s'.lane p).responses, L'⟩ ∧
          (next ≠ .thrown → L' = L) := by
        intro L
        have := (pollRequests_turns env s L _ (hs p).1).1
        unfold nextPendingResponse at hnext
        rw [hnext] at this
        exact this
      have hother : s'.lane (!p) = s.lane !p := by
        have := (pollRequests_turns env s [] _ (hs p).1).2
        unfold nextPendingResponse at hnext
        rwa [hnext] at this
      rw [hnext] at hstep
      apply advances_of_lane p
      · intro L
        obtain ⟨L', ht, hL⟩ := hturns L
        cases next with
        | none =>
          cases hstep
          refine ⟨L', ?_, fun _ => hL Next.noConfusion⟩
          unfold books
          rw [held_leaveLoop]
          exact ht
        | thrown =>
          cases hstep
          refine ⟨L', ht, fun hno => absurd ⟨hlt, ?_⟩ hno⟩
          rw [hnext]
        | response r =>
          cases hstep
          refine ⟨L', ?_, fun _ => hL Next.noConfusion⟩
          unfold books
          rw [(held_self p limit n r).1]
          exact ht
      · exact fun b hb => (List.not_mem_nil hb).elim
      · intro L
        cases next with
        | none =>
          cases hstep
          apply books_eq hother
          exact held_leaveLoop ..
        | thrown =>
          cases hstep
          apply books_eq hother
          rfl
        | response r =>
          cases hstep
          apply books_eq hother
          exact (held_not p limit n r).1
  · cases hstep
    apply advances_of_eq
    intro p' L
    apply books_eq
    · rfl
    · exact held_leaveLoop ..

private theorem advances_write {limit n : ℤ} {r : PendingResponse} {d : Session × Thread}
    (hr : r.priority = p) (hstep : processStep env (s, .write p limit n r) = some d) :
    Advances env (s, .write p limit n r) (processBlocks (s, .write p limit n r)) d
      (¬ Throws env (s, .write p limit n r)) := by
  rw [processStep] at hstep
  cases hwrite : writeResponseBlock s.xorKey r (limit - n) with
  | none =>
    have hblocks : processBlocks (s, .write p limit n r) = [] := by
      simp only [processBlocks, hwrite]
    have hthrows : Throws env (s, .write p limit n r) := hwrite
    rw [hwrite] at hstep
    cases hstep
    rw [hblocks]
    apply advances_of_lane p
    · intro L
      refine ⟨r.archiveKey :: L, ?_, fun hno => absurd hthrows hno⟩
      unfold books
      rw [(held_self p limit n r).1]
      exact .single (.drop r)
    · exact fun b hb => (List.not_mem_nil hb).elim
    · intro L
      apply books_eq
      · rfl
      · exact (held_not p limit n r).1.symm
  | some block =>
    obtain ⟨sent, r', bytes⟩ := block
    have hblocks : processBlocks (s, .write p limit n r) =
        if sent = 0 then [] else [⟨s.xorKey, r, r'⟩] := by
      simp only [processBlocks, hwrite]
    rw [hwrite] at hstep
    cases hstep
    rw [hblocks]
    apply advances_of_lane p
    · intro L
      refine ⟨L, ?_, fun _ => rfl⟩
      unfold books
      rw [(held_self p limit n r).1, (held_self p limit (n + sent) r').2]
      rcases writeResponseBlock_cut hwrite with ⟨rfl, rfl, -⟩ | ⟨k, hk, hdata, hrem, hne, rfl, -⟩
      · exact .refl _
      · rw [if_neg hne]
        exact .single (.send s.xorKey r k hk hdata hrem)
    · intro b hb
      split_ifs at hb
      · cases hb
      · rw [List.mem_singleton.mp hb]
        exact hr
    · intro L
      apply books_eq
      · rfl
      · exact (held_not p limit (n + sent) r').2.trans (held_not p limit n r).1.symm

private theorem advances_recycle {limit n : ℤ} {r : PendingResponse} {d : Session × Thread}
    (hr : r.priority = p) (hstep : processStep env (s, .recycle p limit n r) = some d) :
    Advances env (s, .recycle p limit n r) [] d (¬ Throws env (s, .recycle p limit n r)) := by
  cases hstep
  apply advances_of_lane p
  · intro L
    refine ⟨L, ?_, fun _ => rfl⟩
    unfold books recyclePendingResponse
    simp only [(held_self p limit n r).2, hr]
    split_ifs with hmore
    · simp only [inFlight_setResponses, requests_setResponses, responses_setResponses]
      exact .single (.pass List.perm_append_comm)
    · simp only [inFlight_removeInFlight_self, requests_removeInFlight, responses_removeInFlight]
      exact .single (.finish r (not_lt.mp hmore))
  · exact fun b hb => (List.not_mem_nil hb).elim
  · intro L
    apply books_eq
    · unfold recyclePendingResponse
      simp only [hr]
      split_ifs
      · exact lane_setResponses_not s p _
      · exact lane_removeInFlight_not s p _
    · exact (held_not p limit n r).2.symm

/-- A step of the thread. -/
theorem advances_process {c d : Session × Thread} (hs : Sorted c.1) (ht : SortedThread c.2)
    (hstep : processStep env c = some d) :
    Advances env c (processBlocks c) d (¬ Throws env c) := by
  obtain ⟨s, t⟩ := c
  cases t with
  | idle => cases hstep
  | loop p limit n => exact advances_loop hs hstep
  | write p limit n r => exact advances_write ht hstep
  | recycle p limit n r => exact advances_recycle ht hstep

end Process

section Enqueue
variable {env : Environment} {s : Session} {t : Thread}

private theorem priority_master {q : RequestFile} (h : isInlineCriticalRequest q = true) :
    q.priority = true := by
  unfold isInlineCriticalRequest at h
  simp only [Bool.and_eq_true, decide_eq_true_eq] at h
  exact h.1.1

/-- The master table is always there. -/
theorem loadFileData_master (env : Environment) (loggedIn : Bool) {q : RequestFile}
    (h : isInlineCriticalRequest q = true) :
    loadFileData env loggedIn q = some env.checksumTable := by
  unfold isInlineCriticalRequest at h
  simp only [Bool.and_eq_true, decide_eq_true_eq] at h
  have hlocal : localData env q = some (some env.checksumTable) := by
    unfold localData
    rw [if_pos ⟨h.1.2, h.2⟩]
  unfold loadFileData
  simp [h.1.2, h.2, hlocal]

/-- A loaded response is encoded with its length. -/
private theorem encode_load {loggedIn : Bool} {q : RequestFile} {r : PendingResponse} (xor : Word)
    (hl : load env loggedIn q = .loaded r) :
    Js5Encoder.encode xor q.priority q.index q.archive r.data =
      Js5Encoder.encodeBlocks xor r.priority r.index r.archive r.data r.remaining := by
  unfold load at hl
  split at hl
  · cases hl
  · split at hl
    · cases hl
    · next data _ length hlength =>
      cases hl
      unfold Js5Encoder.encode
      rw [hlength]
      rfl

private theorem lane_addInFlight (s : Session) (p : Bool) (key : ArchiveKey) :
    (addInFlight s p key).lane p =
      { s.lane p with inFlight := insert key (s.lane p).inFlight } := by
  unfold addInFlight
  rw [Session.lane_setLane, if_pos rfl]

private theorem lane_addInFlight_not (s : Session) (p : Bool) (key : ArchiveKey) :
    (addInFlight s p key).lane (!p) = s.lane !p := by
  unfold addInFlight
  rw [Session.lane_setLane, if_neg (by cases p <;> simp)]

/-- A request whose key is not in flight is queued, or answered at once. -/
private theorem advances_new {q : RequestFile}
    (hnew : q.archiveKey ∉ (s.lane q.priority).inFlight) :
    Advances env (s, t) (enqueueBlocks env s q) (enqueueRequest env s q, t) True := by
  have hdup : ¬ (q.archiveKey ∈ (s.lane q.priority).inFlight ∧
      ¬ shouldAllowDuplicateWhileLoggedOut s.loggedIn q) := fun h => hnew h.1
  unfold enqueueRequest enqueueBlocks
  rw [if_neg hdup, if_neg hdup]
  by_cases hinline : isInlineCriticalRequest q = true
  · have hmaster := fun loggedIn => loadFileData_master env loggedIn hinline
    rw [if_pos hinline, if_pos hinline]
    simp only [hmaster]
    have hback : ∀ (bytes : List Byte) L, books (removeInFlight
        ((addInFlight s q.priority q.archiveKey).write bytes) q.priority q.archiveKey, t)
          q.priority L = books (s, t) q.priority L := by
      intro bytes L
      unfold books
      simp only [inFlight_removeInFlight_self, requests_removeInFlight, responses_removeInFlight,
        Session.lane_write, lane_addInFlight, Finset.erase_insert hnew]
    apply advances_of_lane q.priority
    · intro L
      refine ⟨L, ?_, fun _ => rfl⟩
      rw [hback]
      cases hl : load env s.loggedIn q with
      | missing => exact .refl _
      | thrown => exact .refl _
      | loaded r =>
        simp only
        split_ifs with hfits
        · have hencode := encode_load s.xorKey hl
          rw [priority_master hinline] at hencode
          rw [hencode] at hfits
          exact .single (.inline q rfl hnew hl s.xorKey hfits)
        · exact .refl _
    · intro b hb
      cases hl : load env s.loggedIn q with
      | missing =>
        rw [hl] at hb
        cases hb
      | thrown =>
        rw [hl] at hb
        cases hb
      | loaded r =>
        rw [hl] at hb
        simp only at hb
        split_ifs at hb
        · exact (priority_of_inlineBlocks hb).trans (priority_load hl)
        · cases hb
    · intro L
      apply books_eq
      · rw [lane_removeInFlight_not, Session.lane_write, lane_addInFlight_not]
      · rfl
  · rw [if_neg hinline, if_neg hinline]
    unfold addRequest
    apply advances_of_lane q.priority
    · intro L
      refine ⟨L, ?_, fun _ => rfl⟩
      unfold books
      simp only [inFlight_setRequests, requests_setRequests, responses_setRequests,
        lane_addInFlight]
      exact .single (.accept q rfl hnew)
    · exact fun b hb => (List.not_mem_nil hb).elim
    · intro L
      apply books_eq
      · rw [lane_setRequests_not, lane_addInFlight_not]
      · rfl

/-- A request that is not a duplicate let through. -/
theorem advances_enqueue {q : RequestFile} (h : ¬ LetsThrough s q) :
    Advances env (s, t) (enqueueBlocks env s q) (enqueueRequest env s q, t) True := by
  by_cases hin : q.archiveKey ∈ (s.lane q.priority).inFlight
  · have hdup : q.archiveKey ∈ (s.lane q.priority).inFlight ∧
        ¬ shouldAllowDuplicateWhileLoggedOut s.loggedIn q := ⟨hin, fun hallow => h ⟨hin, hallow⟩⟩
    unfold enqueueRequest enqueueBlocks
    rw [if_pos hdup, if_pos hdup]
    exact advances_of_eq _ fun _ _ => rfl
  · exact advances_new hin

end Enqueue

section Run
variable {env : Environment} {allowed : Session × Thread → Prop}

private theorem advances_of_lanes {s s' : Session} (t t' : Thread)
    (hlane : ∀ p, s'.lane p = s.lane p) (hheld : ∀ p, t'.held p = t.held p) :
    Advances env (s, t) [] (s', t') True := by
  apply advances_of_eq
  intro p L
  exact books_eq (hlane p) (hheld p) L

theorem reachable_of_run {admits : Session → RequestFile → Prop} {c : Session × Thread}
    {log : List Block} (h : Run env admits allowed c log) : Reachable env c := by
  induction h with
  | start => exact .refl
  | enqueue _ r _ ih => exact ih.tail (.enqueue _ _ r)
  | updateLoggedInState _ loggedIn ih => exact ih.tail (.updateLoggedInState _ _ loggedIn)
  | xorRequest _ xor ih => exact ih.tail (.xorRequest _ _ xor)
  | call _ limit ih => exact ih.tail (.call _ limit)
  | process _ _ hstep ih => exact ih.tail (.process _ _ hstep)

private theorem Advances.turns {c d : Session × Thread} {blocks log : List Block}
    {lossless always : Prop} (h : Advances env c blocks d lossless) (hl : always → lossless)
    {p : Bool} (hc : ∃ L, Turns env p {} (log.filter fun b => b.before.priority = p)
      (books c p L) ∧ (always → L = [])) :
    ∃ L, Turns env p {} ((log ++ blocks).filter fun b => b.before.priority = p) (books d p L) ∧
      (always → L = []) := by
  obtain ⟨L, hturns, hL⟩ := hc
  obtain ⟨L', hnext, hL'⟩ := h p L
  refine ⟨L', ?_, fun ha => (hL' (hl ha)).trans (hL ha)⟩
  rw [List.filter_append]
  exact hturns.trans hnext

/-- A run that lets no duplicate through goes turn by turn in each lane, and loses nothing if no
step throws. -/
theorem turns_of_run {c : Session × Thread} {log : List Block}
    (h : Run env (fun s r => ¬ LetsThrough s r) allowed c log) (p : Bool) :
    ∃ L, Turns env p {} (log.filter fun b => b.before.priority = p) (books c p L) ∧
      ((∀ c, allowed c → ¬ Throws env c) → L = []) := by
  induction h with
  | start =>
    refine ⟨[], ?_, fun _ => rfl⟩
    cases p <;> exact .refl _
  | enqueue _ r hr ih => exact (advances_enqueue hr).turns (fun _ => trivial) ih
  | @updateLoggedInState s t log _ loggedIn ih =>
    have hstep : Advances env (s, t) [] ({ s with loggedIn := loggedIn }, t) True :=
      advances_of_lanes t t (fun p => by cases p <;> rfl) fun _ => rfl
    have := hstep.turns (fun _ => trivial) ih
    rwa [List.append_nil] at this
  | @xorRequest s t log _ xor ih =>
    have hstep : Advances env (s, t) [] ({ s with xorKey := xor }, t) True :=
      advances_of_lanes t t (fun p => by cases p <;> rfl) fun _ => rfl
    have := hstep.turns (fun _ => trivial) ih
    rwa [List.append_nil] at this
  | @call s log _ limit ih =>
    have hstep : Advances env (s, .idle) [] (s, process limit) True :=
      advances_of_lanes .idle (process limit) (fun _ => rfl) fun _ => rfl
    have := hstep.turns (fun _ => trivial) ih
    rwa [List.append_nil] at this
  | @process c d log h hc hstep ih =>
    obtain ⟨hs, ht⟩ := sorted_of_reachable (reachable_of_run h)
    exact (advances_process hs ht hstep).turns (fun ha => ha c hc) ih

end Run

section Steps
variable {env : Environment} {admits : Session → RequestFile → Prop}
  {allowed : Session × Thread → Prop}

deriving instance DecidableEq for Next

instance (env : Environment) : DecidablePred (Throws env) := fun (s, t) =>
  match t with
  | .loop p limit n =>
    inferInstanceAs (Decidable (n < limit ∧ (nextPendingResponse env s p).2 = .thrown))
  | .write _ limit n r => inferInstanceAs (Decidable (writeResponseBlock s.xorKey r (limit - n) = none))
  | .idle | .recycle .. => inferInstanceAs (Decidable False)

/-- At most so many steps of the thread, as long as they are allowed. -/
def runFor (env : Environment) (allowed : Session × Thread → Prop) [DecidablePred allowed] :
    ℕ → Session × Thread → List Block → (Session × Thread) × List Block
  | 0, c, log => (c, log)
  | n + 1, c, log =>
    if allowed c then
      match processStep env c with
      | some d => runFor env allowed n d (log ++ processBlocks c)
      | none => (c, log)
    else (c, log)

theorem Run.runFor [DecidablePred allowed] {c : Session × Thread} {log : List Block}
    (h : Run env admits allowed c log) (n : ℕ) :
    Run env admits allowed (Js5Session.runFor env allowed n c log).1
      (Js5Session.runFor env allowed n c log).2 := by
  induction n generalizing c log with
  | zero => exact h
  | succ n ih =>
    rw [Js5Session.runFor]
    split_ifs with hc
    · cases hstep : processStep env c with
      | some d => exact ih (h.process hc hstep)
      | none => exact h
    · exact h

end Steps

section Written
variable {env : Environment} {admits : Session → RequestFile → Prop}
  {allowed : Session × Thread → Prop}

private theorem bytes_inlineBlocks {xor : Word} {r : PendingResponse} {bytes : List Byte}
    (h : Js5Encoder.encodeBlocks xor r.priority r.index r.archive r.data r.remaining =
      some bytes) : (inlineBlocks xor r).flatMap Block.bytes = bytes := by
  induction hn : r.data.length using Nat.strongRecOn generalizing r bytes with
  | _ n ih =>
    rw [Js5Encoder.encodeBlocks] at h
    rw [inlineBlocks]
    by_cases hend : r.data = [] ∨ r.remaining ≤ 0
    · rw [dif_pos hend] at h
      have hended : r.Ended := hend
      cases h
      rw [dif_pos hended]
      rfl
    · have hended : ¬ r.Ended := hend
      have hdata := List.length_pos_iff.mpr (not_or.mp hend).1
      have hremaining := (not_or.mp hend).2
      rw [dif_neg hend] at h
      rw [dif_neg hended]
      obtain ⟨k, hk⟩ : ∃ k : ℕ, min (maxResponseBlockPayloadBytes : ℤ) r.remaining = k :=
        ⟨_, (Int.toNat_of_nonneg (by unfold maxResponseBlockPayloadBytes; omega)).symm⟩
      have hpos : 0 < k := by
        unfold maxResponseBlockPayloadBytes at hk
        omega
      simp only [hk] at h ⊢
      split_ifs at h with hshort
      obtain ⟨rest, hrest, hbytes⟩ := Option.bind_eq_some_iff.mp h
      have hsmaller : (r.cut k).data.length < n := by
        simp only [PendingResponse.cut, List.length_drop]
        omega
      have hmore := ih _ hsmaller (r := r.cut k) hrest rfl
      have hsize : (r.remaining - (r.cut k).remaining).toNat = k := by
        simp only [PendingResponse.cut]
        omega
      rw [Int.toNat_natCast, List.flatMap_cons, hmore]
      cases hbytes
      unfold Block.bytes Block.payload
      rw [hsize]
      rfl

/-- The master table that is encoded is the one that is loaded. -/
private theorem encode_master (xor : Word) (loggedIn : Bool) {q : RequestFile}
    (h : isInlineCriticalRequest q = true) :
    (Js5Encoder.encode xor true q.index q.archive env.checksumTable).getD [] =
      (match load env loggedIn q with
        | .loaded r =>
          if (Js5Encoder.encode xor true q.index q.archive r.data).isSome then inlineBlocks xor r
          else []
        | _ => []).flatMap Block.bytes := by
  have hfile := loadFileData_master env loggedIn h
  cases hlength : js5ResponseLength env.checksumTable with
  | none =>
    have hload : load env loggedIn q = .thrown := by
      unfold load
      rw [hfile]
      simp only [hlength]
    have hencode : Js5Encoder.encode xor true q.index q.archive env.checksumTable = none := by
      unfold Js5Encoder.encode
      rw [hlength]
      rfl
    rw [hload, hencode]
    rfl
  | some length =>
    have hload : load env loggedIn q = .loaded ⟨q.priority, q.index, q.archive, env.checksumTable,
        length.toInt, length.toInt⟩ := by
      unfold load
      rw [hfile]
      simp only [hlength]
    have hencode := encode_load xor hload
    rw [priority_master h] at hencode hload
    rw [hload]
    simp only at hencode ⊢
    rw [hencode]
    cases hblocks : Js5Encoder.encodeBlocks xor true q.index q.archive env.checksumTable
        length.toInt with
    | none => rfl
    | some bytes =>
      have := bytes_inlineBlocks (r := ⟨true, q.index, q.archive, env.checksumTable,
        length.toInt, length.toInt⟩) hblocks
      simp only [Option.isSome_some, if_true]
      exact this.symm

private theorem written_enqueueRequest (s : Session) (q : RequestFile) :
    (enqueueRequest env s q).written =
      s.written ++ (enqueueBlocks env s q).flatMap Block.bytes := by
  have hadd : (addInFlight s q.priority q.archiveKey).xorKey = s.xorKey ∧
      (addInFlight s q.priority q.archiveKey).written = s.written := by
    unfold addInFlight
    simp
  unfold enqueueRequest enqueueBlocks
  split_ifs with hdup hinline
  · exact (List.append_nil _).symm
  · rw [← encode_master s.xorKey s.loggedIn hinline]
    simp only [loadFileData_master env _ hinline, written_removeInFlight, hadd.1]
    unfold Session.write
    rw [hadd.2]
  · unfold addRequest
    rw [written_setRequests, hadd.2]
    exact (List.append_nil _).symm

private theorem written_processStep {c d : Session × Thread} (hstep : processStep env c = some d) :
    d.1.written = c.1.written ++ (processBlocks c).flatMap Block.bytes := by
  obtain ⟨s, t⟩ := c
  cases t with
  | idle => cases hstep
  | loop p limit n =>
    have hpoll : (nextPendingResponse env s p).1.written = s.written :=
      (nextPendingResponse_spec env s p).2.2
    have hnil : processBlocks (s, .loop p limit n) = [] := rfl
    rw [hnil, List.flatMap_nil, List.append_nil]
    rw [processStep] at hstep
    split_ifs at hstep
    · cases hnext : nextPendingResponse env s p with
      | mk s' next =>
        rw [hnext] at hstep hpoll
        cases next <;> cases hstep <;> exact hpoll
    · cases hstep
      rfl
  | write p limit n r =>
    rw [processStep] at hstep
    cases hwrite : writeResponseBlock s.xorKey r (limit - n) with
    | none =>
      have hnil : processBlocks (s, .write p limit n r) = [] := by
        simp only [processBlocks, hwrite]
      rw [hwrite] at hstep
      cases hstep
      rw [hnil, List.flatMap_nil, List.append_nil]
    | some block =>
      obtain ⟨sent, r', bytes⟩ := block
      have hblocks : processBlocks (s, .write p limit n r) =
          if sent = 0 then [] else [⟨s.xorKey, r, r'⟩] := by
        simp only [processBlocks, hwrite]
      rw [hwrite] at hstep
      cases hstep
      rw [hblocks]
      rcases writeResponseBlock_cut hwrite with ⟨rfl, -, rfl⟩ | ⟨k, -, -, -, hne, -, rfl⟩
      · rfl
      · rw [if_neg hne, List.flatMap_singleton]
        rfl
  | recycle p limit n r =>
    cases hstep
    exact (written_recycle s r).trans (List.append_nil _).symm

/-- The stream is the blocks of the run. -/
theorem written_of_run {c : Session × Thread} {log : List Block}
    (h : Run env admits allowed c log) : c.1.written = log.flatMap Block.bytes := by
  induction h with
  | start => rfl
  | enqueue _ r _ ih =>
    rw [List.flatMap_append, ← ih]
    exact written_enqueueRequest _ r
  | updateLoggedInState _ _ ih => exact ih
  | xorRequest _ _ ih => exact ih
  | call _ _ ih => exact ih
  | process _ _ hstep ih =>
    rw [List.flatMap_append, ← ih]
    exact written_processStep hstep

end Written

end Js5Session

end OpenNXT.Net
