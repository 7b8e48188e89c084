import OpenNXT.CacheDownloader.Js5Agreement

/-! One call of a client's decoder, and one more request in front of what is still to come. -/
namespace OpenNXT.CacheDownloader
open Buffer Data Decoding Net Js5ClientDecoder

/-- A connection on which these requests were completed before. -/
def Connection.withPast (past : List Ref) (c : Connection) : Connection :=
  { c with heap := { c.heap with completions := past ++ c.heap.completions } }

namespace Js5ClientDecoder

section Past
variable (past : List Ref) (c : Connection)

private def withPast (d : Outcome) : Outcome := { d with state := d.state.withPast past }

private theorem complete_withPast (r : Ref) (rest : List Byte) :
    complete (c.withPast past) r rest = withPast past (complete c r rest) := by
  have hremove : (c.withPast past).client.removeRequest ((c.withPast past).heap.requests r) =
      c.client.removeRequest (c.heap.requests r) := rfl
  unfold complete
  rw [hremove]
  cases c.client.removeRequest (c.heap.requests r) with
  | none => rfl
  | some client =>
    unfold withPast Connection.withPast Heap.notifyCompleted
    simp only [List.append_assoc]
    rfl

private theorem readHeader_withPast (buf : List Byte) :
    readHeader (c.withPast past) buf = (readHeader c buf).map (withPast past) := by
  unfold readHeader
  cases readByteInt buf with
  | none => rfl
  | some p =>
    obtain ⟨index, hash, rest⟩ := p
    simp only
    have hget : ∀ q i a, (c.withPast past).client.getRequest q i a = c.client.getRequest q i a :=
      fun _ _ _ => rfl
    rw [hget]
    cases c.client.getRequest (hash &&& 0x80000000 = 0) index (hash &&& 0x7fffffff) <;> rfl

private theorem receive_withPast (r : Ref) (buffer : ByteBuffer) (block rest : List Byte) :
    receive (c.withPast past) r buffer block rest =
      withPast past (receive c r buffer block rest) := by
  unfold receive
  cases buffer.put block with
  | none => rfl
  | some b =>
    have hmodify : modifyRequest (c.withPast past) r (.received b block.length) =
        (modifyRequest c r (.received b block.length)).withPast past := rfl
    simp only [hmodify, complete_withPast]
    have hrequests : ((modifyRequest c r (.received b block.length)).withPast past).heap.requests r =
        (modifyRequest c r (.received b block.length)).heap.requests r := rfl
    rw [hrequests]
    split_ifs <;> rfl

private theorem readContainerHeader_withPast (r : Ref) (buf : List Byte) :
    readContainerHeader (c.withPast past) r buf =
      (readContainerHeader c r buf).map (withPast past) := by
  have hrequests : ∀ c : Connection, (c.withPast past).heap.requests r = c.heap.requests r :=
    fun _ => rfl
  unfold readContainerHeader
  rw [hrequests]
  cases readByteInt buf with
  | none => rfl
  | some p =>
    obtain ⟨compression, fileSize, rest⟩ := p
    simp only
    cases ByteBuffer.allocate (bufferSize (c.heap.requests r) compression fileSize) with
    | none => rfl
    | some fresh =>
      simp only
      cases (fresh.put [compression]).bind (fun b => b.put (putInt fileSize)) with
      | none => rfl
      | some b =>
        have hmodify : ∀ f, modifyRequest (c.withPast past) r f =
            (modifyRequest c r f).withPast past := fun _ => rfl
        simp only [hmodify, hrequests, complete_withPast]
        split_ifs <;> rfl

/-- What was completed before is not looked at. -/
theorem decodeActive_withPast (buf : List Byte) :
    decodeActive (c.withPast past) buf =
      { decodeActive c buf with state := (decodeActive c buf).state.withPast past } := by
  change _ = withPast past (decodeActive c buf)
  have hclient : (c.withPast past).client = c.client := rfl
  have hrequests : ∀ r, (c.withPast past).heap.requests r = c.heap.requests r := fun _ => rfl
  unfold decodeActive
  simp only [hclient, hrequests, readHeader_withPast, readContainerHeader_withPast]
  split_ifs
  · cases readInts 31 buf <;> rfl
  · cases hcur : c.client.current with
    | none => cases readHeader c buf <;> rfl
    | some r =>
      cases hbuf : (c.heap.requests r).buffer with
      | none =>
        simp only [hbuf]
        cases readContainerHeader c r buf <;> rfl
      | some b =>
        simp only [hbuf]
        unfold readBlock
        simp only [hrequests, receive_withPast]
        split_ifs <;> rfl

end Past

section Others
variable {c : Connection} {s : Ref}

theorem requests_complete {r : Ref} (hne : s ≠ r) (rest : List Byte) :
    (complete c r rest).state.heap.requests s = c.heap.requests s := by
  unfold complete
  split
  · rfl
  · exact Heap.requests_notifyCompleted_of_ne _ hne

private theorem requests_modifyRequest {r : Ref} (hne : s ≠ r) (f : ArchiveRequest → ArchiveRequest) :
    (modifyRequest c r f).heap.requests s = c.heap.requests s :=
  Heap.requests_modify_of_ne _ f hne

theorem requests_readHeader {buf : List Byte} {d : Outcome} (h : readHeader c buf = some d)
    (hs : ∀ p k, (c.client.downloading p).get? k ≠ some s) :
    d.state.heap.requests s = c.heap.requests s := by
  unfold readHeader at h
  split at h
  · cases h
  · simp only at h
    split at h
    · cases h
      rfl
    · next r hget =>
      cases h
      apply requests_modifyRequest
      rintro rfl
      exact hs _ _ hget

theorem requests_readContainerHeader {r : Ref} {buf : List Byte} {d : Outcome}
    (h : readContainerHeader c r buf = some d) (hne : s ≠ r) :
    d.state.heap.requests s = c.heap.requests s := by
  unfold readContainerHeader at h
  split at h
  · cases h
  · simp only at h
    split at h
    · cases h
      exact requests_modifyRequest hne _
    · split at h
      · cases h
        exact requests_modifyRequest hne _
      · split_ifs at h
        · cases h
          rw [requests_complete hne]
          exact requests_modifyRequest hne _
        · cases h
          exact requests_modifyRequest hne _

theorem requests_receive {r : Ref} (hne : s ≠ r) (b : ByteBuffer) (block rest : List Byte) :
    (receive c r b block rest).state.heap.requests s = c.heap.requests s := by
  unfold receive
  split
  · rfl
  · simp only
    split_ifs
    · rw [requests_complete hne]
      exact requests_modifyRequest hne _
    · rw [requests_modifyRequest hne]
      exact requests_modifyRequest hne _
    · exact requests_modifyRequest hne _

end Others

/-- Less than a header, where a header is due. -/
def Short (c : Connection) (buf : List Byte) : Prop :=
  buf = [] ∨ buf.length < 5 ∧ ∀ r, c.client.current = some r → (c.heap.requests r).buffer = none

theorem step_of_short {c : Connection} {buf : List Byte} (h : Short c buf) : step c buf = none := by
  cases hstep : step c buf with
  | none => rfl
  | some e =>
    have hlen := (step_some hstep).1
    rcases h with rfl | ⟨hshort, hbuffer⟩
    · exact absurd hlen (Nat.not_lt_zero _)
    · unfold step at hstep
      split at hstep
      · split_ifs at hstep
        obtain ⟨d, hd, -, -⟩ := accept_eq_some.mp hstep
        have := (readHeader_some hd).1
        omega
      · next r hcur =>
        rw [hbuffer r hcur] at hstep
        simp only at hstep
        split_ifs at hstep
        obtain ⟨d, hd, -, -⟩ := accept_eq_some.mp hstep
        have := (readContainerHeader_some hd).1
        omega

/-- What one call of the decoder does in front of a stream that it does not throw on. -/
inductive Call (c : Connection) (buf : List Byte) : Outcome → Prop
  | wait (h : Short c buf) : Call c buf { state := c, unread := buf }
  | header {d : Outcome} (h : readHeader c buf = some d) (hret : d.thrown = false)
      (hstep : step c buf = some d.toConfig) : Call c buf d
  | containerHeader {r : Ref} {d : Outcome} (hcur : c.client.current = some r)
      (h : readContainerHeader c r buf = some d) (hret : d.thrown = false)
      (hstep : step c buf = some d.toConfig) : Call c buf d
  | block {r : Ref} {b : ByteBuffer} {block rest : List Byte} (hroom : Room c r b block)
      (hne : block ≠ []) (hbuf : buf = block ++ rest) : Call c buf (receive c r b block rest)

theorem call_decodeActive {c : Connection} {buf : List Byte} (h : Live c) (hne : buf ≠ [])
    (hfree : ¬ Stuck c buf) : Call c buf (decodeActive c buf) := by
  unfold Stuck at hfree
  cases hcur : c.client.current with
  | none =>
    simp only [hcur] at hfree
    have hidle : c.client.isIdle = false := by
      by_contra hidle
      exact hfree (Or.inl ⟨by simpa using hidle, hne⟩)
    have hactive : decodeActive c buf = (readHeader c buf).getD { state := c, unread := buf } := by
      unfold decodeActive
      simp only [hidle, Bool.false_eq_true, false_and, if_false, hcur]
    cases hd : readHeader c buf with
    | none =>
      rw [hactive, hd]
      apply Call.wait
      right
      constructor
      · unfold readHeader at hd
        split at hd
        · next hread => exact readByteInt_eq_none hread
        · simp only at hd
          split at hd <;> cases hd
      · intro r hr
        rw [hcur] at hr
        cases hr
    | some d =>
      have hret : d.thrown = false := by
        by_contra hthrow
        exact hfree (Or.inr ⟨hidle, d, hd, by simpa using hthrow⟩)
      rw [hactive, hd]
      apply Call.header hd hret
      unfold step
      simp only [hcur, hidle, Bool.false_eq_true, if_false, hd]
      exact accept_eq_some.mpr ⟨d, rfl, hret, rfl⟩
  | some r =>
    simp only [hcur] at hfree
    have hidle : c.client.isIdle = false := by simp [Js5Client.isIdle, hcur]
    cases hbuf : (c.heap.requests r).buffer with
    | none =>
      have hfits : headerFits (c.heap.requests r) buf = true := by
        by_contra hbad
        exact hfree ⟨hbuf, by simpa using hbad⟩
      have hactive : decodeActive c buf =
          (readContainerHeader c r buf).getD { state := c, unread := buf } := by
        unfold decodeActive
        simp only [hidle, Bool.false_eq_true, false_and, if_false, hcur, hbuf]
      cases hd : readContainerHeader c r buf with
      | none =>
        rw [hactive, hd]
        apply Call.wait
        right
        constructor
        · cases hread : readByteInt buf with
          | none => exact readByteInt_eq_none hread
          | some p =>
            obtain ⟨compression, fileSize, rest⟩ := p
            obtain ⟨b, -, -, heq⟩ := readContainerHeader_eq hread hfits
            rw [hd] at heq
            cases heq
        · intro s hs
          cases hcur.symm.trans hs
          exact hbuf
      | some d =>
        obtain ⟨hret, -⟩ := readContainerHeader_live h hcur hfits hd
        rw [hactive, hd]
        apply Call.containerHeader hcur hd hret
        unfold step
        simp only [hcur, hbuf, hfits, if_true, hd]
        exact accept_eq_some.mpr ⟨d, rfl, hret, rfl⟩
    | some b =>
      obtain ⟨hreg, hoff⟩ := h.current r hcur
      have hunfinished := h.unfinished _ _ r hreg b hbuf
      have hpos := List.length_pos_iff.mpr hne
      generalize hn : min (min ((102400 : ℤ) - (c.heap.requests r).offset)
        (totalSize (c.heap.requests r) b - b.position)) buf.length = n
      have hactive : decodeActive c buf = receive c r b (buf.take n.toNat) (buf.drop n.toNat) := by
        unfold decodeActive readBlock
        simp only [hidle, Bool.false_eq_true, false_and, if_false, hcur, hbuf, hn]
        rw [if_neg (by omega)]
      have htake : (buf.take n.toNat).length = n.toNat := by
        rw [List.length_take]
        omega
      have hblock : buf.take n.toNat ≠ [] := by
        rw [← List.length_pos_iff, htake]
        omega
      rw [hactive]
      apply Call.block _ hblock (List.take_append_drop _ _).symm
      exact ⟨h, hcur, hbuf, by omega, by omega⟩

namespace Call
variable {c : Connection} {buf : List Byte} {d : Outcome}

theorem returns (h : Call c buf d) : d.thrown = false := by
  cases h with
  | wait => rfl
  | header _ hret _ => exact hret
  | containerHeader _ _ hret _ => exact hret
  | block hroom hne _ => exact (receive_live hroom hne _).1

theorem out_eq (h : Call c buf d) : d.out = [] := by
  cases h with
  | wait => rfl
  | header hd _ _ => exact (readHeader_some hd).2.1
  | containerHeader _ hd _ _ => exact (readContainerHeader_some hd).2.1
  | block => exact out_receive _ _ _ _ _

/-- A call that reads nothing changes nothing. -/
theorem short (h : Call c buf d) (hlen : d.unread.length = buf.length) :
    d = { state := c, unread := buf } ∧ Short c buf := by
  cases h with
  | wait hshort => exact ⟨rfl, hshort⟩
  | header hd _ _ =>
    have := (readHeader_some hd).1
    omega
  | containerHeader _ hd _ _ =>
    have := (readContainerHeader_some hd).1
    omega
  | @block r b block rest hroom hne hbuf =>
    have hpos := List.length_pos_iff.mpr hne
    rw [hbuf, unread_receive, List.length_append] at hlen
    omega

theorem prefetches_eq (h : Call c buf d) : d.state.client.prefetches = c.client.prefetches := by
  cases h with
  | wait => rfl
  | header hd _ _ => exact prefetches_readHeader hd
  | containerHeader _ hd _ _ => exact prefetches_readContainerHeader hd
  | block => exact prefetches_receive _ _ _ _

/-- A request that is not outstanding stays as it is. -/
theorem requests_eq (h : Call c buf d) (hlive : Live c) {s : Ref}
    (hs : ∀ p k, (c.client.downloading p).get? k ≠ some s) :
    d.state.heap.requests s = c.heap.requests s := by
  have hcurrent : ∀ r, c.client.current = some r → s ≠ r := by
    rintro r hcur rfl
    exact hs _ _ (hlive.current s hcur).1
  cases h with
  | wait => rfl
  | header hd _ _ => exact requests_readHeader hd hs
  | containerHeader hcur hd _ _ => exact requests_readContainerHeader hd (hcurrent _ hcur)
  | block hroom _ _ => exact requests_receive (hcurrent _ hroom.current) _ _ _

end Call

end Js5ClientDecoder

section Call
variable {A : Assignment} {j : Target → ℕ} {c : Connection} {last : Target → List Byte}

private theorem Holding.of_step (h : Holding A j c) {buf more : List Byte}
    (ha : Ahead A j c (buf ++ more) last) {e : Config Connection Byte Js5Packet}
    (hstep : Js5ClientDecoder.step c buf = some e) :
    ∃ j', Holding A j' e.state ∧ Ahead A j' e.state (e.unread ++ more) last := by
  have hmore := (step_some hstep).2.2 more
  rcases h.step ha with ⟨hnil, -⟩ | ⟨e', j', hstep', -, hkeep, hahead⟩
  · have hlen := (step_some hstep).1
    rw [(List.append_eq_nil_iff.mp hnil).1] at hlen
    exact absurd hlen (Nat.not_lt_zero _)
  · cases hmore.symm.trans hstep'
    exact ⟨j', hkeep, hahead⟩

/-- A block is read at once as it is byte by byte. -/
private theorem Holding.receive {r : Ref} {b : ByteBuffer} {block rest more : List Byte}
    (h : Holding A j c) (hroom : Room c r b block) (hne : block ≠ [])
    (ha : Ahead A j c (block ++ rest ++ more) last) :
    ∃ j', Holding A j' (Js5ClientDecoder.receive c r b block rest).state ∧
      Ahead A j' (Js5ClientDecoder.receive c r b block rest).state (rest ++ more) last := by
  induction block generalizing c b j with
  | nil => exact absurd rfl hne
  | cons x block ih =>
    cases block with
    | nil =>
      have ha' : Ahead A j c ((x :: rest) ++ more) last := ha
      obtain ⟨j', hkeep, hahead⟩ := h.of_step ha' (step_byte hroom rest)
      rw [unread_receive] at hahead
      exact ⟨j', hkeep, hahead⟩
    | cons y block =>
      obtain ⟨c', b', hstep, hnext, hjoin⟩ := step_block hroom
      have ha' : Ahead A j c ((x :: (y :: block ++ rest)) ++ more) last := ha
      obtain ⟨j', hkeep, hahead⟩ := h.of_step ha' (hstep _)
      obtain ⟨j'', hkeep', hahead'⟩ := ih hkeep hnext (by simp) hahead
      rw [hjoin] at hkeep' hahead'
      exact ⟨j'', hkeep', hahead'⟩

/-- A call of the decoder goes on along the stream. -/
theorem Holding.call (h : Holding A j c) {buf more : List Byte} {d : Outcome} (hcall : Call c buf d)
    (ha : Ahead A j c (buf ++ more) last) :
    ∃ j', Holding A j' d.state ∧ Ahead A j' d.state (d.unread ++ more) last := by
  cases hcall with
  | wait => exact ⟨j, h, ha⟩
  | header _ _ hstep => exact h.of_step ha hstep
  | containerHeader _ _ _ hstep => exact h.of_step ha hstep
  | block hroom hne hbuf =>
    rw [unread_receive]
    subst hbuf
    exact h.receive hroom hne ha

end Call

section Assign
variable {A : Assignment} {j : Target → ℕ} {c : Connection} {last : Target → List Byte} {r : Ref}
  {data : List Byte}

/-- A request that a client can be given: nothing of it was received, and none for its file is
outstanding. -/
structure Assignable (c : Connection) (r : Ref) (data : List Byte) : Prop where
  buffer : (c.heap.requests r).buffer = none
  archive : (c.heap.requests r).archive.msb = false
  served : Served data
  free : c.client.getRequest (c.heap.requests r).priority (c.heap.requests r).index
    (c.heap.requests r).archive = none

/-- What is still outstanding of a file. -/
def Assignment.Unfinished (A : Assignment) (j : Target → ℕ) (t : Target) : Prop :=
  t ∈ A.requested ∧ j t < (A.file t).length

instance (A : Assignment) (j : Target → ℕ) (t : Target) : Decidable (A.Unfinished j t) :=
  inferInstanceAs (Decidable (_ ∧ _))

theorem Holding.ne_target (h : Holding A j c) (hr : Assignable c r data) {u : Target}
    (hu : A.Unfinished j u) : u ≠ (c.heap.requests r).target := by
  rintro rfl
  have hreg := h.requested _ hu.1 hu.2
  have hfree := hreg.symm.trans hr.free
  cases hfree

theorem Holding.ne_ref (h : Holding A j c) (hr : Assignable c r data) {u : Target}
    (hu : A.Unfinished j u) : A.ref u ≠ r := by
  rintro rfl
  exact h.ne_target hr hu (h.target u hu.1).symm

/-- The files that are outstanding, and that of one more request. -/
def Holding.insert (h : Holding A j c) (hr : Assignable c r data) : Assignment where
  file u := if u = (c.heap.requests r).target then data
    else if A.Unfinished j u then A.file u else []
  requested := Insert.insert (c.heap.requests r).target (A.requested.filter (A.Unfinished j))
  ref := Function.update A.ref (c.heap.requests r).target r
  served u hu := by
    rcases Finset.mem_insert.mp hu with rfl | hu
    · rw [if_pos rfl]
      exact hr.served
    · obtain ⟨hu, hlt⟩ := Finset.mem_filter.mp hu
      rw [if_neg (h.ne_target hr hlt), if_pos hlt]
      exact A.served u hu
  archive u hu := by
    rcases Finset.mem_insert.mp hu with rfl | hu
    · exact hr.archive
    · exact A.archive u (Finset.mem_filter.mp hu).1
  unrequested u hu := by
    rw [Finset.mem_insert, Finset.mem_filter, not_or] at hu
    rw [if_neg hu.1, if_neg fun hlt => hu.2 ⟨hlt.1, hlt⟩]
  injective u hu v hv heq := by
    rcases Finset.mem_insert.mp hu with rfl | hu <;> rcases Finset.mem_insert.mp hv with rfl | hv
    · rfl
    · obtain ⟨-, hlt⟩ := Finset.mem_filter.mp hv
      rw [Function.update_self, Function.update_of_ne (h.ne_target hr hlt)] at heq
      exact absurd heq.symm (h.ne_ref hr hlt)
    · obtain ⟨-, hlt⟩ := Finset.mem_filter.mp hu
      rw [Function.update_self, Function.update_of_ne (h.ne_target hr hlt)] at heq
      exact absurd heq (h.ne_ref hr hlt)
    · obtain ⟨hu, hlt⟩ := Finset.mem_filter.mp hu
      obtain ⟨hv, hlt'⟩ := Finset.mem_filter.mp hv
      rw [Function.update_of_ne (h.ne_target hr hlt),
        Function.update_of_ne (h.ne_target hr hlt')] at heq
      exact A.injective u hu v hv heq

/-- What there is of each file that is outstanding. -/
def Assignment.progress (A : Assignment) (j : Target → ℕ) (t u : Target) : ℕ :=
  if u = t then 0 else if A.Unfinished j u then j u else 0

theorem Holding.mem_insert (h : Holding A j c) (hr : Assignable c r data) {u : Target} :
    u ∈ (h.insert hr).requested ↔ u = (c.heap.requests r).target ∨ A.Unfinished j u := by
  change u ∈ Insert.insert _ (A.requested.filter (A.Unfinished j)) ↔ _
  rw [Finset.mem_insert, Finset.mem_filter]
  exact or_congr_right ⟨fun hu => hu.2, fun hu => ⟨hu.1, hu⟩⟩

theorem Assignment.left_eq_nil {u : Target} (hu : ¬ A.Unfinished j u) :
    A.left j u = [] := by
  unfold Assignment.left
  by_cases hreq : u ∈ A.requested
  · apply List.drop_of_length_le
    by_contra hlt
    exact hu ⟨hreq, not_le.mp hlt⟩
  · rw [A.unrequested u hreq]
    exact List.drop_nil

section Insert
variable (h : Holding A j c) (hr : Assignable c r data)

theorem Holding.insert_self : (h.insert hr).file (c.heap.requests r).target = data ∧
    (h.insert hr).ref (c.heap.requests r).target = r ∧
    A.progress j (c.heap.requests r).target (c.heap.requests r).target = 0 :=
  ⟨if_pos rfl, Function.update_self _ _ _, if_pos rfl⟩

theorem Holding.insert_of_unfinished {u : Target} (hu : A.Unfinished j u) :
    (h.insert hr).file u = A.file u ∧ (h.insert hr).ref u = A.ref u ∧
      A.progress j (c.heap.requests r).target u = j u := by
  have hne := h.ne_target hr hu
  refine ⟨?_, Function.update_of_ne hne _ _, ?_⟩
  · change (if _ then _ else _) = _
    rw [if_neg hne, if_pos hu]
  · unfold Assignment.progress
    rw [if_neg hne, if_pos hu]

theorem Holding.left_insert :
    (h.insert hr).left (A.progress j (c.heap.requests r).target) =
      Function.update (A.left j) (c.heap.requests r).target data := by
  funext u
  by_cases heq : u = (c.heap.requests r).target
  · subst heq
    obtain ⟨hfile, -, hzero⟩ := h.insert_self hr
    rw [Function.update_self]
    unfold Assignment.left
    rw [hfile, hzero, List.drop_zero]
  · rw [Function.update_of_ne heq]
    by_cases hu : A.Unfinished j u
    · obtain ⟨hfile, -, hj⟩ := h.insert_of_unfinished hr hu
      unfold Assignment.left
      rw [hfile, hj]
    · rw [Assignment.left_eq_nil hu]
      have hfile : (h.insert hr).file u = [] := (h.insert hr).unrequested u fun hmem =>
        ((h.mem_insert hr).mp hmem).elim heq hu
      unfold Assignment.left
      rw [hfile]
      exact List.drop_nil

/-- The client with one more request outstanding, and what it completed so far not counted. -/
def Connection.assign (c : Connection) (r : Ref) : Connection :=
  ⟨c.client.assign r (c.heap.requests r), { c.heap with completions := [] }⟩

include h hr in
theorem Holding.live_assign : Live (c.assign r) := by
  have hfree : ∀ p k s, (c.client.downloading p).get? k = some s →
      ¬ ((c.heap.requests r).priority = p ∧ k = (c.heap.requests r).key) := by
    rintro p k s hget ⟨rfl, rfl⟩
    have hnone := hget.symm.trans hr.free
    cases hnone
  constructor
  · exact (Js5Client.setDownloading_state _ _ _).trans h.live.active
  · exact (Js5Client.setDownloading_isOpen _ _ _).trans h.live.isOpen
  · intro p k s hget
    change ((c.client.assign r (c.heap.requests r)).downloading p).get? k = some s at hget
    rw [Js5Client.get?_assign] at hget
    split_ifs at hget with hsame
    · cases hget
      exact ⟨hsame.1, hsame.2.symm⟩
    · exact h.live.filed p k s hget
  · intro p k s hget b hb
    change ((c.client.assign r (c.heap.requests r)).downloading p).get? k = some s at hget
    rw [Js5Client.get?_assign] at hget
    split_ifs at hget
    · cases hget
      have hnone := hb.symm.trans hr.buffer
      cases hnone
    · exact h.live.unfinished p k s hget b hb
  · intro s hs
    have hcur : c.client.current = some s := (Js5Client.setDownloading_current _ _ _).symm.trans hs
    obtain ⟨hreg, hoff⟩ := h.live.current s hcur
    refine ⟨?_, hoff⟩
    change ((c.client.assign r (c.heap.requests r)).downloading (c.heap.requests s).priority).get?
      (c.heap.requests s).key = some s
    rw [Js5Client.get?_assign, if_neg (hfree _ _ s hreg)]
    exact hreg

/-- A client holds nothing yet of a request that it is given. -/
theorem Holding.assign :
    Holding (h.insert hr) (A.progress j (c.heap.requests r).target) (c.assign r) := by
  have hget : ∀ p k, ((c.assign r).client.downloading p).get? k =
      if (c.heap.requests r).priority = p ∧ k = (c.heap.requests r).key then some r
      else (c.client.downloading p).get? k := Js5Client.get?_assign c.client r (c.heap.requests r)
  obtain ⟨hfile, href, hzero⟩ := h.insert_self hr
  have hpos := hr.served.five_le
  constructor
  · exact h.live_assign hr
  · intro u
    unfold Assignment.progress
    split_ifs with heq hu
    · exact Nat.zero_le _
    · rw [(h.insert_of_unfinished hr hu).1]
      exact hu.2.le
    · exact Nat.zero_le _
  · intro u hu
    change (c.heap.requests _).target = u
    rcases (h.mem_insert hr).mp hu with rfl | hu
    · rw [href]
    · rw [(h.insert_of_unfinished hr hu).2.1]
      exact h.target u hu.1
  · intro u hu _
    unfold Js5Client.getRequest
    rw [hget]
    rcases (h.mem_insert hr).mp hu with rfl | hu
    · rw [href, if_pos ⟨rfl, rfl⟩]
    · have hreg := h.requested u hu.1 hu.2
      rw [(h.insert_of_unfinished hr hu).2.1, if_neg]
      · exact hreg
      · rintro ⟨hp, hk⟩
        unfold Js5Client.getRequest at hreg
        rw [← hp, hk] at hreg
        have hnone := hreg.symm.trans hr.free
        cases hnone
  · intro p k s hs
    rw [hget] at hs
    split_ifs at hs with hsame
    · cases hs
      refine ⟨_, (h.mem_insert hr).mpr (Or.inl rfl), href.symm, ?_⟩
      rw [hfile, hzero]
      omega
    · obtain ⟨u, hu, rfl, hlt⟩ := h.outstanding p k s hs
      obtain ⟨hfile', href', hj⟩ := h.insert_of_unfinished hr ⟨hu, hlt⟩
      refine ⟨u, (h.mem_insert hr).mpr (Or.inr ⟨hu, hlt⟩), href'.symm, ?_⟩
      rw [hfile', hj]
      exact hlt
  · intro u hu
    change Holds _ _ (c.heap.requests _)
    rcases (h.mem_insert hr).mp hu with rfl | hu
    · rw [hzero, href]
      exact Or.inl ⟨rfl, hr.buffer⟩
    · obtain ⟨hfile', href', hj⟩ := h.insert_of_unfinished hr hu
      rw [hfile', href', hj]
      exact h.buffer u hu.1
  · exact List.nodup_nil
  · intro s
    constructor
    · intro hs
      cases hs
    · rintro ⟨u, hu, -, hfull⟩
      rcases (h.mem_insert hr).mp hu with rfl | hu
      · rw [hzero, hfile] at hfull
        omega
      · obtain ⟨hfile', -, hj⟩ := h.insert_of_unfinished hr hu
        have := hu.2
        rw [hfile', hj] at hfull
        omega

/-- The stream in front of the client stays, and the new file comes after it. -/
theorem Holding.ahead_assign {stream : List Byte} (ha : Ahead A j c stream last) :
    last (c.heap.requests r).target = [] ∧
      Ahead (h.insert hr) (A.progress j (c.heap.requests r).target) (c.assign r) stream
        (Function.update last (c.heap.requests r).target data) := by
  have hnil : A.left j (c.heap.requests r).target = [] :=
    Assignment.left_eq_nil fun hu => h.ne_target hr hu rfl
  have hcurrent : (c.assign r).client.current = c.client.current :=
    Js5Client.setDownloading_current _ _ _
  unfold Ahead at ha ⊢
  rw [hcurrent]
  cases hcur : c.client.current with
  | none =>
    rw [hcur] at ha
    rw [h.left_insert hr]
    exact Blocks.frame ha hnil data
  | some s =>
    rw [hcur] at ha
    obtain ⟨t, ht, rfl, hopened, more, hstream, hmore⟩ := ha
    have hunfinished : A.Unfinished j t := by
      obtain ⟨u, hu, heq, hlt⟩ := h.current hcur
      rw [A.injective t ht u hu heq]
      exact ⟨hu, hlt⟩
    have hne := h.ne_target hr hunfinished
    obtain ⟨hfile, href, hj⟩ := h.insert_of_unfinished hr hunfinished
    have hleft : (h.insert hr).left (A.progress j (c.heap.requests r).target) t = A.left j t := by
      rw [h.left_insert hr, Function.update_of_ne hne]
    obtain ⟨hlast, hframe⟩ := Blocks.frame hmore
      (by rw [Function.update_of_ne hne.symm]; exact hnil) data
    refine ⟨hlast, t, (h.mem_insert hr).mpr (Or.inr hunfinished), href.symm, hopened, more, ?_, ?_⟩
    · rw [hleft]
      exact hstream
    · rw [hleft, h.left_insert hr, Function.update_comm hne.symm]
      exact hframe

end Insert

end Assign

end OpenNXT.CacheDownloader
