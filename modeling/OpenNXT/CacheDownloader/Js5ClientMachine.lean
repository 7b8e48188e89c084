import OpenNXT.CacheDownloader.Js5Client

/-! The decoder of a client, byte by byte. -/
namespace OpenNXT.CacheDownloader
open Buffer Data Decoding Net

namespace Js5ClientDecoder

section Readers

theorem readInts_eq (n : ℕ) (xs : List Byte) (h : 4 * n ≤ xs.length) :
    ∃ ws, readInts n xs = some (ws, xs.drop (4 * n)) := by
  induction n generalizing xs with
  | zero => exact ⟨[], rfl⟩
  | succ n ih =>
    have hint : Reader.int xs = some (BitVec.ofNat 32 (ofBytes (xs.take 4)), xs.drop 4) :=
      Reader.word_eq (by omega)
    obtain ⟨ws, hws⟩ := ih (xs.drop 4) (by rw [List.length_drop]; omega)
    refine ⟨BitVec.ofNat 32 (ofBytes (xs.take 4)) :: ws, ?_⟩
    have hdrop : (xs.drop 4).drop (4 * n) = xs.drop (4 * (n + 1)) := by
      rw [List.drop_drop]
      congr 1
      omega
    rw [readInts, Reader.bind_apply, hint, Option.bind_some, Reader.bind_apply, hws,
      Option.bind_some, Reader.pure_apply, hdrop]

theorem readInts_flatMap_putInt (ws : List Word) :
    readInts ws.length (ws.flatMap putInt) = some (ws, []) := by
  have hreads : Reads (readInts ws.length) (ws.flatMap putInt) ws := by
    induction ws with
    | nil => exact Reads.pure []
    | cons w ws ih => exact Reads.bind (Reads.word 4 w) (ih.map fun ws => w :: ws)
  exact hreads.run

theorem length_readInts {n : ℕ} {xs rest : List Byte} {ws : List Word}
    (h : readInts n xs = some (ws, rest)) : rest.length ≤ xs.length := by
  induction n generalizing xs ws rest with
  | zero =>
    cases h
    exact Nat.le_refl _
  | succ n ih =>
    rw [readInts, Reader.bind_apply] at h
    obtain ⟨⟨w, ys⟩, hint, h⟩ := Option.bind_eq_some_iff.mp h
    rw [Reader.bind_apply] at h
    obtain ⟨⟨vs, zs⟩, hmore, h⟩ := Option.bind_eq_some_iff.mp h
    have hys : ys.length + 4 = xs.length := Reader.length_word hint
    have hzs : zs.length ≤ ys.length := ih hmore
    cases h
    change zs.length ≤ xs.length
    omega

@[simp] theorem unread_complete (c : Connection) (r : Ref) (rest : List Byte) :
    (complete c r rest).unread = rest := by
  unfold complete
  split <;> rfl

@[simp] theorem out_complete (c : Connection) (r : Ref) (rest : List Byte) :
    (complete c r rest).out = [] := by
  unfold complete
  split <;> rfl

@[simp] theorem unread_receive (c : Connection) (r : Ref) (b : ByteBuffer) (block rest : List Byte) :
    (receive c r b block rest).unread = rest := by
  unfold receive
  split
  · rfl
  · simp only
    split_ifs
    · exact unread_complete _ _ _
    · rfl
    · rfl

@[simp] theorem out_receive (c : Connection) (r : Ref) (b : ByteBuffer) (block rest : List Byte) :
    (receive c r b block rest).out = [] := by
  unfold receive
  split
  · rfl
  · simp only
    split_ifs
    · exact out_complete _ _ _
    · rfl
    · rfl

theorem readByteInt_some {xs rest : List Byte} {b : Byte} {w : Word}
    (h : readByteInt xs = some (b, w, rest)) : xs.length = rest.length + 5 ∧
      ∀ ys, readByteInt (xs ++ ys) = some (b, w, rest ++ ys) := by
  unfold readByteInt at h
  split at h
  · simp only [Option.some.injEq, Prod.mk.injEq] at h
    obtain ⟨rfl, rfl, rfl⟩ := h
    refine ⟨by simp only [List.length_cons], fun ys => ?_⟩
    simp only [List.cons_append, readByteInt]
  · cases h

theorem readByteInt_eq_none {xs : List Byte} (h : readByteInt xs = none) : xs.length < 5 := by
  unfold readByteInt at h
  split at h
  · cases h
  · next hshort =>
    match xs, hshort with
    | [], _ | [_], _ | [_, _], _ | [_, _, _], _ | [_, _, _, _], _ => simp
    | _ :: _ :: _ :: _ :: _ :: _, hshort => exact absurd rfl (hshort _ _ _ _ _ _)

theorem readByteInt_putInt (b : Byte) (w : Word) (rest : List Byte) :
    readByteInt (b :: putInt w ++ rest) = some (b, w, rest) := by
  obtain ⟨b₁, b₂, b₃, b₄, hput⟩ : ∃ b₁ b₂ b₃ b₄, putInt w = [b₁, b₂, b₃, b₄] := ⟨_, _, _, _, rfl⟩
  have hof : ofBytes [b₁, b₂, b₃, b₄] = w.toNat := by
    rw [← hput]
    exact ofBytes_putWord 4 w
  rw [hput]
  simp only [List.cons_append, List.nil_append, readByteInt, hof, BitVec.ofNat_toNat,
    BitVec.setWidth_eq]

/-- Five bytes are read, and nothing behind them is looked at. -/
theorem readHeader_some {c : Connection} {xs : List Byte} {d : Outcome}
    (h : readHeader c xs = some d) : xs.length = d.unread.length + 5 ∧ d.out = [] ∧
      ∀ ys, readHeader c (xs ++ ys) = some { d with unread := d.unread ++ ys } := by
  unfold readHeader at h
  split at h
  · cases h
  · next index hash rest hread =>
    obtain ⟨hlen, happ⟩ := readByteInt_some hread
    simp only at h
    split at h <;> next hget => (
      cases h
      refine ⟨hlen, rfl, fun ys => ?_⟩
      simp only [readHeader, happ, hget])

theorem readHeader_eq {c : Connection} {xs rest : List Byte} {index : Byte} {hash archive : Word}
    {priority : Bool} {r : Ref} (hread : readByteInt xs = some (index, hash, rest))
    (harchive : hash &&& 0x7fffffff = archive) (hpriority : decide (hash &&& 0x80000000 = 0) = priority)
    (hget : c.client.getRequest priority index archive = some r) :
    readHeader c xs = some
      { state := modifyRequest { c with client := { c.client with current := some r } } r
          fun q => { q with offset := 5 },
        unread := rest } := by
  subst harchive hpriority
  simp only [readHeader, hread, hget]

theorem complete_append (c : Connection) (r : Ref) (rest ys : List Byte) :
    complete c r (rest ++ ys) = { complete c r rest with unread := rest ++ ys } := by
  unfold complete
  split <;> rfl

theorem receive_append (c : Connection) (r : Ref) (b : ByteBuffer) (block rest ys : List Byte) :
    receive c r b block (rest ++ ys) = { receive c r b block rest with unread := rest ++ ys } := by
  unfold receive
  split
  · rfl
  · simp only
    split_ifs
    · exact complete_append _ _ _ _
    · rfl
    · rfl

theorem readContainerHeader_some {c : Connection} {r : Ref} {xs : List Byte} {d : Outcome}
    (h : readContainerHeader c r xs = some d) : xs.length = d.unread.length + 5 ∧ d.out = [] ∧
      ∀ ys, readContainerHeader c r (xs ++ ys) = some { d with unread := d.unread ++ ys } := by
  unfold readContainerHeader at h
  split at h
  · cases h
  · next compression fileSize rest hread =>
    obtain ⟨hlen, happ⟩ := readByteInt_some hread
    simp only at h
    split at h
    · next hsize =>
      cases h
      refine ⟨hlen, rfl, fun ys => ?_⟩
      simp only [readContainerHeader, happ, hsize]
    · next hsize =>
      split at h
      · next hput =>
        cases h
        refine ⟨hlen, rfl, fun ys => ?_⟩
        simp only [readContainerHeader, happ, hsize, hput]
      · next hput =>
        split_ifs at h with htotal
        · cases h
          refine ⟨?_, out_complete _ _ _, fun ys => ?_⟩
          · rw [unread_complete]
            exact hlen
          · simp only [readContainerHeader, happ, hsize, hput]
            rw [if_pos htotal, complete_append, unread_complete]
        · cases h
          refine ⟨hlen, rfl, fun ys => ?_⟩
          simp only [readContainerHeader, happ, hsize, hput]
          rw [if_neg htotal]

end Readers

/-- Whether a container's header asks for a buffer that holds that header. -/
def headerFits (q : ArchiveRequest) (buf : List Byte) : Bool :=
  match readByteInt buf with
  | none => true
  | some (compression, fileSize, _) => 5 ≤ (bufferSize q compression fileSize).toInt - q.trailer

/-- What does not throw. -/
def accept (d : Option Outcome) : Option (Config Connection Byte Js5Packet) :=
  match d with
  | none => none
  | some d => if d.thrown then none else some d.toConfig

/-- A header, a container's header or a byte of data. -/
def step (c : Connection) (buf : List Byte) : Option (Config Connection Byte Js5Packet) :=
  match c.client.current with
  | none => if c.client.isIdle then none else accept (readHeader c buf)
  | some r =>
    match (c.heap.requests r).buffer with
    | none =>
      if headerFits (c.heap.requests r) buf then accept (readContainerHeader c r buf) else none
    | some buffer =>
      match buf with
      | [] => none
      | x :: rest => accept (some (receive c r buffer [x] rest))

theorem accept_eq_some {d : Option Outcome} {e : Config Connection Byte Js5Packet} :
    accept d = some e ↔ ∃ d', d = some d' ∧ d'.thrown = false ∧ d'.toConfig = e := by
  cases d with
  | none => simp [accept]
  | some d =>
    cases hd : d.thrown <;> simp [accept, hd]

theorem headerFits_append {q : ArchiveRequest} {xs : List Byte} (ys : List Byte)
    (hlen : 5 ≤ xs.length) : headerFits q (xs ++ ys) = headerFits q xs := by
  cases hread : readByteInt xs with
  | none =>
    have := readByteInt_eq_none hread
    omega
  | some p =>
    simp only [headerFits, hread, (readByteInt_some hread).2]

theorem headerFits_of_append {q : ArchiveRequest} {xs : List Byte} (ys : List Byte)
    (h : headerFits q xs = false) : headerFits q (xs ++ ys) = false := by
  cases hread : readByteInt xs with
  | none => simp [headerFits, hread] at h
  | some p =>
    have hlen := (readByteInt_some hread).1
    rw [headerFits_append ys (by omega), h]

/-- A step reads something, emits nothing, and does not look at what it leaves. -/
theorem step_some {c : Connection} {xs : List Byte} {e : Config Connection Byte Js5Packet}
    (h : step c xs = some e) : e.unread.length < xs.length ∧ e.out = [] ∧
      ∀ ys, step c (xs ++ ys) = some { e with unread := e.unread ++ ys } := by
  unfold step at h
  split at h
  · next hcur =>
    split_ifs at h with hidle
    obtain ⟨d, hd, hret, rfl⟩ := accept_eq_some.mp h
    obtain ⟨hlen, hout, happ⟩ := readHeader_some hd
    refine ⟨by omega, hout, fun ys => ?_⟩
    simp only [step, hcur, hidle, Bool.false_eq_true, if_false, happ]
    exact accept_eq_some.mpr ⟨_, rfl, hret, rfl⟩
  · next r hcur =>
    split at h
    · next hbuf =>
      split_ifs at h with hfits
      obtain ⟨d, hd, hret, rfl⟩ := accept_eq_some.mp h
      obtain ⟨hlen, hout, happ⟩ := readContainerHeader_some hd
      refine ⟨by omega, hout, fun ys => ?_⟩
      simp only [step, hcur, hbuf, headerFits_append ys (by omega : 5 ≤ xs.length), hfits, if_true,
        happ]
      exact accept_eq_some.mpr ⟨_, rfl, hret, rfl⟩
    · next b hbuf =>
      split at h
      · cases h
      · next x rest =>
        obtain ⟨d, hd, hret, rfl⟩ := accept_eq_some.mp h
        cases hd
        refine ⟨by simp, by simp, fun ys => ?_⟩
        simp only [step, hcur, hbuf, List.cons_append, receive_append]
        exact accept_eq_some.mpr ⟨_, rfl, hret, by simp⟩

def machine : Machine Connection Byte Js5Packet where
  step := step
  weight _ buf := buf.length
  step_lt h := (step_some h).1
  step_le h := (step_some h).1.le
  step_append ys h := (step_some h).2.2 ys

/-- An active client whose outstanding requests are filed under their own keys, and not complete. -/
structure Live (c : Connection) : Prop where
  active : c.client.state = .active
  isOpen : c.client.isOpen = true
  filed : ∀ p k r, (c.client.downloading p).get? k = some r →
    (c.heap.requests r).priority = p ∧ (c.heap.requests r).key = k
  unfinished : ∀ p k r, (c.client.downloading p).get? k = some r →
    ∀ b, (c.heap.requests r).buffer = some b → (b.position : ℤ) < totalSize (c.heap.requests r) b
  current : ∀ r, c.client.current = some r →
    (c.client.downloading (c.heap.requests r).priority).get? (c.heap.requests r).key = some r ∧
      (c.heap.requests r).offset < 102400

/-- The input at which the byte-wise reading ends: a client with nothing outstanding, a header of
something that is not, or a container that cannot be. -/
def Stuck (c : Connection) (xs : List Byte) : Prop :=
  match c.client.current with
  | none =>
    (c.client.isIdle ∧ xs ≠ []) ∨
      (c.client.isIdle = false ∧ ∃ d, readHeader c xs = some d ∧ d.thrown = true)
  | some r => (c.heap.requests r).buffer = none ∧ headerFits (c.heap.requests r) xs = false

section Preservation
variable {c : Connection} {r : Ref}

/-- What the decoder does to a request while it receives it. -/
structure Keeps (q q' : ArchiveRequest) : Prop where
  index : q'.index = q.index
  archive : q'.archive = q.archive
  priority : q'.priority = q.priority

theorem Keeps.key {q q' : ArchiveRequest} (h : Keeps q q') : q'.key = q.key := by
  rw [ArchiveRequest.key, ArchiveRequest.key, h.index, h.archive]

theorem Keeps.trailer {q q' : ArchiveRequest} (h : Keeps q q') : q'.trailer = q.trailer := by
  rw [ArchiveRequest.trailer, ArchiveRequest.trailer, h.index]

theorem Keeps.totalSize {q q' : ArchiveRequest} (h : Keeps q q') (b : ByteBuffer) :
    totalSize q' b = totalSize q b := by
  rw [Js5ClientDecoder.totalSize, Js5ClientDecoder.totalSize, h.trailer]

/-- Progress on one outstanding request. -/
theorem live_modify (h : Live c) (f : ArchiveRequest → ArchiveRequest) (current : Option Ref)
    (hkeeps : Keeps (c.heap.requests r) (f (c.heap.requests r)))
    (hunfinished : ∀ b, (f (c.heap.requests r)).buffer = some b →
      (b.position : ℤ) < totalSize (c.heap.requests r) b)
    (hreg : (c.client.downloading (c.heap.requests r).priority).get? (c.heap.requests r).key = some r)
    (hcurrent : current = none ∨
      current = some r ∧ (f (c.heap.requests r)).offset < 102400) :
    Live (modifyRequest { c with client := { c.client with current := current } } r f) := by
  have hother : ∀ s, s ≠ r → (c.heap.modify r f).requests s = c.heap.requests s :=
    fun s hs => c.heap.requests_modify_of_ne f hs
  have hself : (c.heap.modify r f).requests r = f (c.heap.requests r) := c.heap.requests_modify_self r f
  constructor
  · exact h.active
  · exact h.isOpen
  · intro p k s hget
    have hfiled := h.filed p k s hget
    by_cases hs : s = r
    · subst hs
      change (_ : ArchiveRequest).priority = p ∧ (_ : ArchiveRequest).key = k
      simp only [modifyRequest, hself, hkeeps.priority, hkeeps.key]
      exact hfiled
    · simp only [modifyRequest, hother s hs]
      exact hfiled
  · intro p k s hget b hb
    by_cases hs : s = r
    · subst hs
      simp only [modifyRequest, hself] at hb ⊢
      rw [hkeeps.totalSize]
      exact hunfinished b hb
    · simp only [modifyRequest, hother s hs] at hb ⊢
      exact h.unfinished p k s hget b hb
  · intro s hs
    rcases hcurrent with rfl | ⟨rfl, hoff⟩
    · cases hs
    · cases hs
      simp only [modifyRequest, hself, hkeeps.priority, hkeeps.key]
      exact ⟨hreg, hoff⟩

/-- The request is removed, and every other stays as it is. -/
theorem complete_modify (h : Live c) (f : ArchiveRequest → ArchiveRequest) (rest : List Byte)
    (hkeeps : Keeps (c.heap.requests r) (f (c.heap.requests r)))
    (hreg : (c.client.downloading (c.heap.requests r).priority).get? (c.heap.requests r).key = some r) :
    complete (modifyRequest c r f) r rest =
        { state := ⟨{ c.client.withoutRequest (c.heap.requests r) with current := none },
            (c.heap.modify r f).notifyCompleted r⟩,
          unread := rest } ∧
      Live (complete (modifyRequest c r f) r rest).state := by
  have heq : complete (modifyRequest c r f) r rest =
      { state := ⟨{ c.client.withoutRequest (c.heap.requests r) with current := none },
          (c.heap.modify r f).notifyCompleted r⟩,
        unread := rest } := by
    have hself : (modifyRequest c r f).heap.requests r = f (c.heap.requests r) :=
      c.heap.requests_modify_self r f
    have hremove : (modifyRequest c r f).client.removeRequest (f (c.heap.requests r)) =
        some (c.client.withoutRequest (c.heap.requests r)) := by
      change c.client.removeRequest (f (c.heap.requests r)) = _
      unfold Js5Client.removeRequest Js5Client.withoutRequest
      rw [hkeeps.priority, hkeeps.key, hreg, if_neg (Option.some_ne_none r)]
    unfold complete
    rw [hself, hremove]
    rfl
  refine ⟨heq, ?_⟩
  rw [heq]
  have hget : ∀ p k s, ((c.client.withoutRequest (c.heap.requests r)).downloading p).get? k = some s →
      (c.client.downloading p).get? k = some s ∧ s ≠ r := by
    intro p k s hs
    rw [Js5Client.get?_withoutRequest] at hs
    split_ifs at hs with hsame
    refine ⟨hs, ?_⟩
    rintro rfl
    obtain ⟨hp, hk⟩ := h.filed p k s hs
    exact hsame ⟨hp, hk.symm⟩
  have hother : ∀ s, s ≠ r →
      ((c.heap.modify r f).notifyCompleted r).requests s = c.heap.requests s := by
    intro s hs
    rw [Heap.requests_notifyCompleted_of_ne _ hs, c.heap.requests_modify_of_ne f hs]
  constructor
  · exact (Js5Client.setDownloading_state _ _ _).trans h.active
  · exact (Js5Client.setDownloading_isOpen _ _ _).trans h.isOpen
  · intro p k s hs
    obtain ⟨hold, hne⟩ := hget p k s hs
    simp only [hother s hne]
    exact h.filed p k s hold
  · intro p k s hs b hb
    obtain ⟨hold, hne⟩ := hget p k s hs
    simp only [hother s hne] at hb ⊢
    exact h.unfinished p k s hold b hb
  · intro s hs
    cases hs

theorem keeps_received (b : ByteBuffer) (n : ℕ) (q : ArchiveRequest) : Keeps q (q.received b n) :=
  ⟨rfl, rfl, rfl⟩

theorem modifyRequest_current (f : ArchiveRequest → ArchiveRequest) (hcur : c.client.current = some r) :
    modifyRequest { c with client := { c.client with current := some r } } r f =
      modifyRequest c r f := by
  rw [← hcur]

end Preservation

section Data
variable {c : Connection} {r : Ref} {b : ByteBuffer}

/-- A block that neither finishes the buffer nor the 102400 bytes is only stored. -/
theorem receive_of_lt {b' : ByteBuffer} {block : List Byte} (rest : List Byte)
    (hput : b.put block = some b')
    (htotal : (b'.position : ℤ) < totalSize (c.heap.requests r) b)
    (hoffset : (c.heap.requests r).offset + block.length < 102400) :
    receive c r b block rest =
      { state := modifyRequest c r (.received b' block.length), unread := rest } := by
  have hsize : totalSize ((modifyRequest c r (.received b' block.length)).heap.requests r) b' =
      totalSize (c.heap.requests r) b := by
    simp only [modifyRequest, Heap.requests_modify_self, totalSize, (ByteBuffer.put_some hput).1]
    rfl
  have hoff : ((modifyRequest c r (.received b' block.length)).heap.requests r).offset =
      (c.heap.requests r).offset + block.length := by
    simp only [modifyRequest, Heap.requests_modify_self]
    rfl
  unfold receive
  rw [hput]
  simp only
  rw [hsize, hoff, if_neg (by omega), if_neg (by omega)]

theorem receive_received {b' b'' : ByteBuffer} {block more : List Byte} (rest : List Byte)
    (hput : b.put block = some b') (hmore : b'.put more = some b'') :
    receive (modifyRequest c r (.received b' block.length)) r b' more rest =
      receive c r b (block ++ more) rest := by
  have hboth : b.put (block ++ more) = some b'' := by rw [← ByteBuffer.put_put hput, hmore]
  have hmod : modifyRequest (modifyRequest c r (.received b' block.length)) r
      (.received b'' more.length) = modifyRequest c r (.received b'' (block ++ more).length) := by
    simp only [modifyRequest, Heap.modify_modify]
    congr 2
    funext q
    simp only [ArchiveRequest.received, List.length_append, Nat.add_assoc]
  unfold receive
  simp only [hmore, hboth, hmod]

/-- A block within the buffer and the 102400 bytes. -/
structure Room (c : Connection) (r : Ref) (b : ByteBuffer) (block : List Byte) : Prop where
  live : Live c
  current : c.client.current = some r
  buffer : (c.heap.requests r).buffer = some b
  total : (b.position : ℤ) + block.length ≤ totalSize (c.heap.requests r) b
  offset : (c.heap.requests r).offset + block.length ≤ 102400

theorem Room.put {block : List Byte} (h : Room c r b block) : ∃ b', b.put block = some b' ∧
    b'.position = b.position + block.length := by
  have htotal := h.total
  unfold totalSize at htotal
  refine ⟨_, ByteBuffer.put_eq (by omega), ?_⟩
  simp [ByteBuffer.position]

/-- A block is read to its end, and the client goes on. -/
theorem receive_live {block : List Byte} (h : Room c r b block) (hne : block ≠ []) (rest : List Byte) :
    (receive c r b block rest).thrown = false ∧ Live (receive c r b block rest).state := by
  obtain ⟨b', hput, hpos⟩ := h.put
  have htotal := h.total
  have hoffset := h.offset
  have hlen := List.length_pos_iff.mpr hne
  obtain ⟨hreg, -⟩ := h.live.current r h.current
  have hsize : totalSize (c.heap.requests r) b' = totalSize (c.heap.requests r) b := by
    simp only [totalSize, (ByteBuffer.put_some hput).1]
  have hself : (modifyRequest c r (.received b' block.length)).heap.requests r =
      (c.heap.requests r).received b' block.length := Heap.requests_modify_self _ _ _
  unfold receive
  simp only [hput, hself, (keeps_received b' block.length (c.heap.requests r)).totalSize, hsize]
  split_ifs with hfull hblock
  · obtain ⟨heq, hlive⟩ := complete_modify h.live (.received b' block.length) rest
      (keeps_received _ _ _) hreg
    refine ⟨?_, hlive⟩
    rw [heq]
  · refine ⟨rfl, ?_⟩
    have hlive := live_modify h.live (fun q => { q.received b' block.length with offset := 0 }) none
      ⟨rfl, rfl, rfl⟩ (fun b'' hb'' => ?_) hreg (Or.inl rfl)
    · simpa [modifyRequest, Heap.modify_modify] using hlive
    · cases hb''
      omega
  · refine ⟨rfl, ?_⟩
    have hlt : ((c.heap.requests r).received b' block.length).offset < 102400 := by
      simp only [ArchiveRequest.received] at hblock ⊢
      omega
    have hlive := live_modify h.live (.received b' block.length) (some r) (keeps_received _ _ _)
      (fun b'' hb'' => ?_) hreg (Or.inr ⟨rfl, hlt⟩)
    · rwa [modifyRequest_current _ h.current] at hlive
    · cases hb''
      omega

/-- A byte of a block is a step. -/
theorem step_byte {x : Byte} (h : Room c r b [x]) (xs : List Byte) :
    step c (x :: xs) = some (receive c r b [x] xs).toConfig := by
  simp only [step, h.current, h.buffer]
  exact accept_eq_some.mpr ⟨_, rfl, (receive_live h (by simp) xs).1, rfl⟩

/-- The first byte of a longer block is only stored, and the rest of the block is one. -/
theorem step_block {x y : Byte} {block : List Byte} (h : Room c r b (x :: y :: block)) :
    ∃ c' b', (∀ xs, step c (x :: xs) = some { state := c', unread := xs }) ∧
      Room c' r b' (y :: block) ∧
      ∀ rest, receive c' r b' (y :: block) rest = receive c r b (x :: y :: block) rest := by
  have htotal := h.total
  have hoffset := h.offset
  have hfirst : Room c r b [x] := by
    refine ⟨h.live, h.current, h.buffer, ?_, ?_⟩ <;>
      simp only [List.length_cons, List.length_nil] at * <;> omega
  obtain ⟨b', hput, hpos⟩ := hfirst.put
  have hsame : ∀ xs, receive c r b [x] xs =
      { state := modifyRequest c r (.received b' 1), unread := xs } := by
    intro xs
    refine receive_of_lt _ hput ?_ ?_ <;>
      simp only [List.length_cons, List.length_nil] at * <;> omega
  have hnext : Room (modifyRequest c r (.received b' 1)) r b' (y :: block) := by
    have hlive := (receive_live hfirst (by simp) []).2
    rw [hsame] at hlive
    have hself : (modifyRequest c r (.received b' 1)).heap.requests r =
        (c.heap.requests r).received b' 1 := Heap.requests_modify_self _ _ _
    refine ⟨hlive, h.current, ?_, ?_, ?_⟩
    · rw [hself]
      rfl
    · rw [hself, (keeps_received b' 1 _).totalSize]
      simp only [totalSize, (ByteBuffer.put_some hput).1, List.length_cons, List.length_nil] at *
      omega
    · rw [hself]
      simp only [ArchiveRequest.received, List.length_cons] at *
      omega
  obtain ⟨b'', hmore, -⟩ := hnext.put
  refine ⟨_, b', ?_, hnext, fun rest => receive_received rest hput hmore⟩
  intro xs
  rw [step_byte hfirst, hsame]

/-- Reading a block at once is reading it byte by byte. -/
theorem reaches_receive (block : List Byte) (h : Room c r b block) (hne : block ≠ [])
    (rest : List Byte) :
    machine.Reaches c (block ++ rest) (receive c r b block rest).toConfig := by
  induction block generalizing c b with
  | nil => exact absurd rfl hne
  | cons x block ih =>
    cases block with
    | nil => exact Machine.Reaches.of_step (step_byte h rest)
    | cons y block =>
      obtain ⟨c', b', hstep, hnext, hjoin⟩ := step_block h
      have hrest := ih hnext (by simp)
      rw [hjoin] at hrest
      have hgo : machine.Reaches c (x :: (y :: block ++ rest)) _ := Machine.Reaches.of_step (hstep _)
      simpa using hgo.trans hrest

end Data

section Headers
variable {c : Connection} {r : Ref}

theorem readHeader_live {xs : List Byte} {d : Outcome} (h : Live c)
    (hd : readHeader c xs = some d) (hret : d.thrown = false) : Live d.state := by
  unfold readHeader at hd
  split at hd
  · cases hd
  · next index hash rest hread =>
    simp only at hd
    split at hd
    · cases hd
      cases hret
    · next s hget =>
      cases hd
      obtain ⟨hp, hk⟩ := h.filed _ _ s hget
      have hreg : (c.client.downloading (c.heap.requests s).priority).get? (c.heap.requests s).key =
          some s := by
        rw [hp, hk]
        exact hget
      exact live_modify h (fun q => { q with offset := 5 }) (some s) ⟨rfl, rfl, rfl⟩
        (h.unfinished _ _ s hget) hreg (Or.inr ⟨rfl, by simp⟩)

/-- A container's header that fits becomes the first bytes of a new buffer. -/
theorem readContainerHeader_eq {xs rest : List Byte} {compression : Byte} {fileSize : Word}
    (hread : readByteInt xs = some (compression, fileSize, rest))
    (hfits : headerFits (c.heap.requests r) xs = true) :
    ∃ b : ByteBuffer, b.written = compression :: putInt fileSize ∧
      totalSize (c.heap.requests r) b =
        (bufferSize (c.heap.requests r) compression fileSize).toInt - (c.heap.requests r).trailer ∧
      readContainerHeader c r xs = some
        (let f := fun q : ArchiveRequest =>
          { q with size := bufferSize (c.heap.requests r) compression fileSize,
                   buffer := some b, offset := 10 }
        if (5 : ℤ) = totalSize (c.heap.requests r) b then complete (modifyRequest c r f) r rest
        else { state := modifyRequest c r f, unread := rest }) := by
  have hsize : (5 : ℤ) ≤ (bufferSize (c.heap.requests r) compression fileSize).toInt -
      (c.heap.requests r).trailer := by
    simpa [headerFits, hread] using hfits
  generalize hs : bufferSize (c.heap.requests r) compression fileSize = size at hsize ⊢
  have hnat : (size.toNat : ℤ) = size.toInt := by
    have := BitVec.toInt_eq_toNat_cond size
    split_ifs at this <;> omega
  have hcap : 5 ≤ size.toNat := by omega
  have halloc : ByteBuffer.allocate size = some ⟨size.toNat, [], Nat.zero_le _⟩ := by
    unfold ByteBuffer.allocate
    rw [if_neg (by omega)]
  have hfirst : (ByteBuffer.mk size.toNat [] (Nat.zero_le _)).put [compression] =
      some ⟨size.toNat, [compression], by simp only [List.length_singleton]; omega⟩ :=
    ByteBuffer.put_eq (by simp only [ByteBuffer.position, List.length_nil, List.length_singleton]; omega)
  have hlen : (compression :: putInt fileSize).length = 5 := by simp
  have hput : ((ByteBuffer.mk size.toNat [] (Nat.zero_le _)).put [compression]).bind
      (fun b => b.put (putInt fileSize)) =
        some ⟨size.toNat, compression :: putInt fileSize, hlen ▸ hcap⟩ := by
    rw [hfirst]
    refine ByteBuffer.put_eq ?_
    simp only [ByteBuffer.position, List.length_singleton, length_putWord]
    omega
  refine ⟨⟨size.toNat, compression :: putInt fileSize, hlen ▸ hcap⟩, rfl, ?_, ?_⟩
  · unfold totalSize
    simp only
    omega
  · have hself : ∀ f : ArchiveRequest → ArchiveRequest,
        (modifyRequest c r f).heap.requests r = f (c.heap.requests r) :=
      fun f => Heap.requests_modify_self _ _ _
    unfold readContainerHeader
    simp only [hread, hs, halloc, hput, hself, ByteBuffer.position, hlen]
    simp only [totalSize, ArchiveRequest.trailer, Nat.cast_ofNat]
    split_ifs <;> rfl

theorem readContainerHeader_live {xs : List Byte} {d : Outcome} (h : Live c)
    (hcur : c.client.current = some r) (hfits : headerFits (c.heap.requests r) xs = true)
    (hd : readContainerHeader c r xs = some d) : d.thrown = false ∧ Live d.state := by
  cases hread : readByteInt xs with
  | none => simp [readContainerHeader, hread] at hd
  | some p =>
    obtain ⟨compression, fileSize, rest⟩ := p
    obtain ⟨b, hwritten, htotal, heq⟩ := readContainerHeader_eq hread hfits
    have hsize : (5 : ℤ) ≤ totalSize (c.heap.requests r) b := by
      rw [htotal]
      simpa [headerFits, hread] using hfits
    obtain ⟨hreg, -⟩ := h.current r hcur
    rw [heq] at hd
    cases hd
    simp only
    split_ifs with hfull
    · obtain ⟨hcomplete, hlive⟩ := complete_modify h
        (fun q => { q with size := bufferSize (c.heap.requests r) compression fileSize,
                           buffer := some b, offset := 10 }) rest ⟨rfl, rfl, rfl⟩ hreg
      refine ⟨?_, hlive⟩
      rw [hcomplete]
    · refine ⟨rfl, ?_⟩
      have hlive := live_modify h
        (fun q => { q with size := bufferSize (c.heap.requests r) compression fileSize,
                           buffer := some b, offset := 10 }) (some r) ⟨rfl, rfl, rfl⟩
        (fun b' hb' => ?_) hreg (Or.inr ⟨rfl, by simp⟩)
      · rwa [modifyRequest_current _ hcur] at hlive
      · cases hb'
        have hpos : b.position = 5 := by simp [ByteBuffer.position, hwritten]
        omega

end Headers

section Decode

theorem length_decodeActive (c : Connection) (buf : List Byte) :
    (decodeActive c buf).unread.length ≤ buf.length := by
  unfold decodeActive
  simp only
  split_ifs
  · split
    · exact Nat.le_refl _
    · next hread => exact length_readInts hread
  · split
    · cases hd : readHeader c buf with
      | none => exact Nat.le_refl _
      | some d =>
        have := (readHeader_some hd).1
        simp only [Option.getD_some]
        omega
    · next r hcur =>
      split
      · cases hd : readContainerHeader c r buf with
        | none => exact Nat.le_refl _
        | some d =>
          have := (readContainerHeader_some hd).1
          simp only [Option.getD_some]
          omega
      · unfold readBlock
        simp only
        split_ifs
        · exact Nat.le_refl _
        · rw [unread_receive, List.length_drop]
          omega

theorem out_decodeActive (c : Connection) (buf : List Byte) : (decodeActive c buf).out = [] := by
  unfold decodeActive
  simp only
  split_ifs
  · split <;> rfl
  · split
    · cases hd : readHeader c buf with
      | none => rfl
      | some d => exact (readHeader_some hd).2.1
    · next r hcur =>
      split
      · cases hd : readContainerHeader c r buf with
        | none => rfl
        | some d => exact (readContainerHeader_some hd).2.1
      · unfold readBlock
        simp only
        split_ifs
        · rfl
        · exact out_receive _ _ _ _ _

theorem length_decode (c : Connection) (buf : List Byte) :
    (decode c buf).unread.length ≤ buf.length := by
  unfold decode
  by_cases hskip : ¬ c.client.isOpen ∨ ¬ c.client.state.canRead
  · rw [if_pos hskip]
    exact Nat.zero_le _
  · rw [if_neg hskip]
    split
    · split <;> simp
    · split_ifs
      · exact Nat.le_refl _
      · split
        · simp only [List.length_drop]
          omega
        · next hread => exact length_readInts hread
    · exact length_decodeActive c buf
    · exact Nat.le_refl _
    · exact Nat.le_refl _

end Decode

/-- The decoder, with the handler behind it taking each packet. -/
def decoder : Decoder Connection Byte Js5Packet where
  decode c buf :=
    let d := decode c buf
    { d with state := d.out.foldl Js5ClientHandler.channelRead0 d.state }
  exceptionCaught := Js5ClientHandler.exceptionCaught
  isOpen c := c.client.isOpen
  decode_le := length_decode

section Implements
variable {c : Connection}

theorem decoder_decode_of_live (h : Live c) (xs : List Byte) (hout : (decodeActive c xs).out = []) :
    decoder.decode c xs = decodeActive c xs := by
  have hdecode : decode c xs = decodeActive c xs := by
    unfold decode
    rw [if_neg (by simp [h.isOpen, h.active, Js5ClientState.canRead]), h.active]
  change { decode c xs with
    state := (decode c xs).out.foldl Js5ClientHandler.channelRead0 (decode c xs).state } = _
  rw [hdecode, hout]
  rfl

private theorem follows_of_wait {xs : List Byte} (h : Live c) (hw : machine.step c xs = none)
    (heq : decodeActive c xs = { state := c, unread := xs }) :
    Decoder.Follows machine Live decoder.isOpen c xs (decoder.decode c xs) := by
  rw [decoder_decode_of_live h xs (by rw [heq]), heq]
  refine ⟨rfl, Machine.Reaches.refl c xs, h, fun _ => ⟨rfl, hw⟩, fun hcl => ?_⟩
  change c.client.isOpen = false at hcl
  rw [h.isOpen] at hcl
  cases hcl

private theorem follows_of_reaches {xs : List Byte} {d : Outcome} (h : Live c)
    (heq : decodeActive c xs = d) (hout : d.out = []) (hret : d.thrown = false)
    (hreach : machine.Reaches c xs d.toConfig) (hlive : Live d.state)
    (hlt : d.unread.length < xs.length) :
    Decoder.Follows machine Live decoder.isOpen c xs (decoder.decode c xs) := by
  rw [decoder_decode_of_live h xs (by rw [heq, hout]), heq]
  refine ⟨hret, hreach, hlive, fun hlen => ?_, fun hcl => ?_⟩
  · omega
  · change d.state.client.isOpen = false at hcl
    rw [hlive.isOpen] at hcl
    cases hcl

/-- A live client reads its input as the machine does, until that is stuck. -/
theorem implements : decoder.Implements machine Live Stuck where
  waits c h := by
    change step c [] = none
    unfold step
    split
    · split_ifs <;> rfl
    · split
      · split_ifs <;> rfl
      · rfl
  waits_stuck c xs h hst := by
    change step c xs = none
    unfold Stuck at hst
    unfold step
    split
    · next hcur =>
      simp only [hcur] at hst
      rcases hst with ⟨hidle, -⟩ | ⟨hidle, d, hd, hthrow⟩
      · rw [if_pos hidle]
      · rw [if_neg (by simp [hidle]), hd, accept, if_pos hthrow]
    · next r hcur =>
      simp only [hcur] at hst
      simp only [hst.1, hst.2, Bool.false_eq_true, if_false]
  stuck_append c xs ys h hst := by
    unfold Stuck at hst ⊢
    split
    · next hcur =>
      simp only [hcur] at hst
      rcases hst with ⟨hidle, hne⟩ | ⟨hidle, d, hd, hthrow⟩
      · exact Or.inl ⟨hidle, by simp [hne]⟩
      · exact Or.inr ⟨hidle, _, (readHeader_some hd).2.2 ys, hthrow⟩
    · next r hcur =>
      simp only [hcur] at hst
      exact ⟨hst.1, headerFits_of_append ys hst.2⟩
  closed c xs h ho := by
    have := h.isOpen
    change c.client.isOpen = false at ho
    rw [this] at ho
    cases ho
  decode c xs h _ hne hfree := by
    have hnidle : c.client.current = none → c.client.isIdle = false := by
      intro hcur
      by_contra hidle
      apply hfree
      unfold Stuck
      rw [hcur]
      exact Or.inl ⟨by simpa using hidle, hne⟩
    cases hcur : c.client.current with
    | none =>
      have hidle := hnidle hcur
      have hactive : decodeActive c xs = (readHeader c xs).getD { state := c, unread := xs } := by
        unfold decodeActive
        simp only [hidle, Bool.false_eq_true, false_and, if_false, hcur]
      have hstep : machine.step c xs = accept (readHeader c xs) := by
        change step c xs = _
        simp only [step, hcur, hidle, Bool.false_eq_true, if_false]
      cases hd : readHeader c xs with
      | none =>
        rw [hd] at hactive hstep
        exact follows_of_wait h hstep hactive
      | some d =>
        rw [hd] at hactive hstep
        have hret : d.thrown = false := by
          by_contra hthrow
          apply hfree
          unfold Stuck
          rw [hcur]
          exact Or.inr ⟨hidle, d, hd, by simpa using hthrow⟩
        rw [Option.getD_some] at hactive
        obtain ⟨hlen, hout, -⟩ := readHeader_some hd
        refine follows_of_reaches h hactive hout hret ?_ (readHeader_live h hd hret) (by omega)
        exact Machine.Reaches.of_step (hstep.trans (accept_eq_some.mpr ⟨d, rfl, hret, rfl⟩))
    | some r =>
      have hidle : c.client.isIdle = false := by simp [Js5Client.isIdle, hcur]
      cases hbuf : (c.heap.requests r).buffer with
      | none =>
        have hfits : headerFits (c.heap.requests r) xs = true := by
          by_contra hbad
          apply hfree
          unfold Stuck
          rw [hcur]
          exact ⟨hbuf, by simpa using hbad⟩
        have hactive : decodeActive c xs =
            (readContainerHeader c r xs).getD { state := c, unread := xs } := by
          unfold decodeActive
          simp only [hidle, Bool.false_eq_true, false_and, if_false, hcur, hbuf]
        have hstep : machine.step c xs = accept (readContainerHeader c r xs) := by
          change step c xs = _
          simp only [step, hcur, hbuf, hfits, if_true]
        cases hd : readContainerHeader c r xs with
        | none =>
          rw [hd] at hactive hstep
          exact follows_of_wait h hstep hactive
        | some d =>
          rw [hd] at hactive hstep
          rw [Option.getD_some] at hactive
          obtain ⟨hret, hlive⟩ := readContainerHeader_live h hcur hfits hd
          obtain ⟨hlen, hout, -⟩ := readContainerHeader_some hd
          refine follows_of_reaches h hactive hout hret ?_ hlive (by omega)
          exact Machine.Reaches.of_step (hstep.trans (accept_eq_some.mpr ⟨d, rfl, hret, rfl⟩))
      | some b =>
        obtain ⟨hreg, hoff⟩ := h.current r hcur
        have hunfinished := h.unfinished _ _ r hreg b hbuf
        have hpos := List.length_pos_iff.mpr hne
        generalize hn : min (min ((102400 : ℤ) - (c.heap.requests r).offset)
          (totalSize (c.heap.requests r) b - b.position)) xs.length = n
        have hactive : decodeActive c xs =
            receive c r b (xs.take n.toNat) (xs.drop n.toNat) := by
          unfold decodeActive readBlock
          simp only [hidle, Bool.false_eq_true, false_and, if_false, hcur, hbuf, hn]
          rw [if_neg (by omega)]
        have htake : (xs.take n.toNat).length = n.toNat := by
          rw [List.length_take]
          omega
        have hblock : xs.take n.toNat ≠ [] := by
          rw [← List.length_pos_iff, htake]
          omega
        have hroom : Room c r b (xs.take n.toNat) :=
          ⟨h, hcur, hbuf, by omega, by omega⟩
        obtain ⟨hret, hlive⟩ := receive_live hroom hblock (xs.drop n.toNat)
        have hreach := reaches_receive _ hroom hblock (xs.drop n.toNat)
        rw [List.take_append_drop] at hreach
        refine follows_of_reaches h hactive (out_receive _ _ _ _ _) hret hreach hlive ?_
        rw [unread_receive, List.length_drop]
        omega

end Implements

section Idle
variable {c : Connection} {xs : List Byte}

/-- With nothing outstanding, no header is one of a request. -/
theorem readHeader_idle (hidle : c.client.isIdle = true) (hlen : 5 ≤ xs.length) :
    ∃ rest, readHeader c xs = some { state := c, unread := rest, thrown := true } := by
  have hnone := (Js5Client.isIdle_iff.mp hidle).2
  cases hread : readByteInt xs with
  | none =>
    have := readByteInt_eq_none hread
    omega
  | some p =>
    obtain ⟨index, hash, rest⟩ := p
    refine ⟨rest, ?_⟩
    simp only [readHeader, hread, Js5Client.getRequest, hnone]

private theorem decodeActive_idle (hidle : c.client.isIdle = true) (hshort : xs.length < 31 * 4) :
    decodeActive c xs = (readHeader c xs).getD { state := c, unread := xs } := by
  unfold decodeActive
  simp only [hidle, true_and, not_le.mpr hshort, if_false, (Js5Client.isIdle_iff.mp hidle).1]

private theorem decode_active (hactive : c.client.state = .active) (hopen : c.client.isOpen = true)
    (xs : List Byte) : decode c xs = decodeActive c xs := by
  unfold decode
  rw [if_neg (by simp [hopen, hactive, Js5ClientState.canRead]), hactive]

private theorem decoder_decode_active (hactive : c.client.state = .active)
    (hopen : c.client.isOpen = true) (xs : List Byte) :
    decoder.decode c xs = decodeActive c xs := by
  change { decode c xs with
    state := (decode c xs).out.foldl Js5ClientHandler.channelRead0 (decode c xs).state } = _
  rw [decode_active hactive hopen, out_decodeActive]
  rfl

/-- An idle client takes a header for the end of the connection. -/
theorem callDecode_idle (hactive : c.client.state = .active) (hopen : c.client.isOpen = true)
    (hidle : c.client.isIdle = true) (hlen : 5 ≤ xs.length) (hshort : xs.length < 31 * 4) :
    (decoder.callDecode c xs).state = Js5ClientHandler.exceptionCaught c := by
  obtain ⟨rest, hheader⟩ := readHeader_idle hidle hlen
  have hdecode : decoder.decode c xs = { state := c, unread := rest, thrown := true } := by
    rw [decoder_decode_active hactive hopen, decodeActive_idle hidle hshort, hheader]
    rfl
  have hne : xs ≠ [] := List.length_pos_iff.mp (by omega)
  rw [Decoder.callDecode, if_neg hne]
  simp only [hdecode, if_true]
  rfl

theorem decode_idle_short (hactive : c.client.state = .active) (hopen : c.client.isOpen = true)
    (hidle : c.client.isIdle = true) (hlen : xs.length < 5) :
    decoder.decode c xs = { state := c, unread := xs } := by
  have hheader : readHeader c xs = none := by
    cases hread : readByteInt xs with
    | none => simp only [readHeader, hread]
    | some p =>
      have := (readByteInt_some hread).1
      omega
  rw [decoder_decode_active hactive hopen, decodeActive_idle hidle (by omega), hheader]
  rfl

theorem decode_idle_long (hactive : c.client.state = .active) (hopen : c.client.isOpen = true)
    (hidle : c.client.isIdle = true) (hlong : 31 * 4 ≤ xs.length) {ws : List Word}
    {rest : List Byte} (hws : readInts 31 xs = some (ws, rest)) :
    decoder.decode c xs =
      { state := { c with client := c.client.notifyPrefetches ws }, unread := rest } := by
  rw [decoder_decode_active hactive hopen]
  simp only [decodeActive, hidle, hlong, and_self, if_true, hws]

/-- Less than a header waits. -/
theorem callDecode_idle_short (hactive : c.client.state = .active) (hopen : c.client.isOpen = true)
    (hidle : c.client.isIdle = true) (hlen : xs.length < 5) :
    decoder.callDecode c xs = { state := c, unread := xs } := by
  rw [Decoder.callDecode]
  split_ifs with hnil
  · rw [hnil]
  · simp only [decode_idle_short hactive hopen hidle hlen, Bool.false_eq_true, if_false, dite_true]
    rfl

end Idle

section Prefetches
variable {c : Connection}

theorem prefetches_complete (r : Ref) (rest : List Byte) :
    (complete c r rest).state.client.prefetches = c.client.prefetches := by
  unfold complete Js5Client.removeRequest
  split_ifs
  · rfl
  · exact Js5Client.setDownloading_prefetches _ _ _

theorem prefetches_readHeader {xs : List Byte} {d : Outcome} (h : readHeader c xs = some d) :
    d.state.client.prefetches = c.client.prefetches := by
  unfold readHeader at h
  split at h
  · cases h
  · simp only at h
    split at h <;> cases h <;> rfl

theorem prefetches_readContainerHeader {r : Ref} {xs : List Byte} {d : Outcome}
    (h : readContainerHeader c r xs = some d) :
    d.state.client.prefetches = c.client.prefetches := by
  unfold readContainerHeader at h
  split at h
  · cases h
  · simp only at h
    split at h
    · cases h
      rfl
    · split at h
      · cases h
        rfl
      · split_ifs at h
        · cases h
          exact prefetches_complete _ _
        · cases h
          rfl

theorem prefetches_receive (r : Ref) (b : ByteBuffer) (block rest : List Byte) :
    (receive c r b block rest).state.client.prefetches = c.client.prefetches := by
  unfold receive
  split
  · rfl
  · simp only
    split_ifs
    · exact prefetches_complete _ _
    · rfl
    · rfl

theorem prefetches_step {xs : List Byte} {e : Config Connection Byte Js5Packet}
    (h : step c xs = some e) : e.state.client.prefetches = c.client.prefetches := by
  unfold step at h
  split at h
  · split_ifs at h
    obtain ⟨d, hd, -, rfl⟩ := accept_eq_some.mp h
    exact prefetches_readHeader hd
  · split at h
    · split_ifs at h
      obtain ⟨d, hd, -, rfl⟩ := accept_eq_some.mp h
      exact prefetches_readContainerHeader hd
    · split at h
      · cases h
      · obtain ⟨d, hd, -, rfl⟩ := accept_eq_some.mp h
        cases hd
        exact prefetches_receive _ _ _ _

theorem prefetches_decodeActive (xs : List Byte) (h : c.client.prefetches ≠ none) :
    (decodeActive c xs).state.client.prefetches ≠ none := by
  unfold decodeActive
  simp only
  split_ifs
  · split
    · exact h
    · exact Option.some_ne_none _
  · split
    · cases hd : readHeader c xs with
      | none => exact h
      | some d =>
        have heq := prefetches_readHeader hd
        simp only [Option.getD_some, heq]
        exact h
    · next r hcur =>
      split
      · cases hd : readContainerHeader c r xs with
        | none => exact h
        | some d =>
          have heq := prefetches_readContainerHeader hd
          simp only [Option.getD_some, heq]
          exact h
      · unfold readBlock
        simp only
        split_ifs
        · exact h
        · rw [prefetches_receive]
          exact h

/-- A client that was told the prefetches stays told. -/
theorem prefetches_decode (xs : List Byte) (h : c.client.prefetches ≠ none) :
    (decoder.decode c xs).state.client.prefetches ≠ none := by
  change ((decode c xs).out.foldl Js5ClientHandler.channelRead0
    (decode c xs).state).client.prefetches ≠ none
  unfold decode
  by_cases hskip : ¬ c.client.isOpen ∨ ¬ c.client.state.canRead
  · rw [if_pos hskip]
    exact h
  · rw [if_neg hskip]
    split
    · split
      · exact h
      · simp only [List.foldl_cons, List.foldl_nil, Js5ClientHandler.channelRead0]
        split_ifs <;> exact h
    · split_ifs
      · exact h
      · split
        · exact h
        · exact Option.some_ne_none _
    · have hout : (decodeActive c xs).out = [] := out_decodeActive c xs
      rw [hout]
      exact prefetches_decodeActive xs h
    · exact h
    · exact h

/-- The machine reads no prefetches. -/
theorem prefetches_run (xs : List Byte) :
    (machine.run c xs).state.client.prefetches = c.client.prefetches := by
  refine machine.run_induction (motive := fun c xs =>
    (machine.run c xs).state.client.prefetches = c.client.prefetches) ?_ ?_ c xs
  · intro c xs hwaits
    rw [Machine.run_of_waits hwaits]
  · intro c xs e hstep ih
    rw [Machine.run_of_step hstep, Config.state_emit, ih, prefetches_step hstep]

/-- An idle client takes 31 ints for the prefetches. -/
theorem prefetches_callDecode_idle {xs : List Byte} (hactive : c.client.state = .active)
    (hopen : c.client.isOpen = true) (hidle : c.client.isIdle = true) (hlong : 31 * 4 ≤ xs.length) :
    (decoder.callDecode c xs).state.client.prefetches ≠ none := by
  obtain ⟨ws, hws⟩ := readInts_eq 31 xs (by omega)
  have hdecode := decode_idle_long hactive hopen hidle hlong hws
  have hne : xs ≠ [] := List.length_pos_iff.mp (by omega)
  have hlen : (xs.drop (4 * 31)).length ≠ xs.length := by
    rw [List.length_drop]
    omega
  rw [Decoder.callDecode, if_neg hne]
  simp only [hdecode, Bool.false_eq_true, if_false, hlen, dite_false, Config.state_emit]
  exact Decoder.callDecode_invariant (P := fun c : Connection => c.client.prefetches ≠ none)
    (fun c xs h => prefetches_decode xs h) (fun c h => h) _ _ (Option.some_ne_none ws)

/-- A connection that is over, or whose data was taken for prefetches. -/
def Spoiled (c : Connection) : Prop :=
  (c.client.isOpen = false ∧ c.client.state ≠ .active) ∨ c.client.prefetches ≠ none

theorem Spoiled.feed {e : Config Connection Byte Js5Packet} (h : Spoiled e.state)
    (chunks : List (List Byte)) : Spoiled (decoder.feed e chunks).state := by
  rcases h with ⟨hclosed, hcrashed⟩ | hpre
  · rw [Decoder.feed_of_closed hclosed]
    exact Or.inl ⟨hclosed, hcrashed⟩
  · exact Or.inr (Decoder.feed_invariant (P := fun c : Connection => c.client.prefetches ≠ none)
      (fun c xs h => prefetches_decode xs h) (fun c h => h) e chunks hpre)

theorem spoiled_callDecode_idle {xs : List Byte} (hactive : c.client.state = .active)
    (hopen : c.client.isOpen = true) (hidle : c.client.isIdle = true) (hlen : 5 ≤ xs.length) :
    Spoiled (decoder.callDecode c xs).state := by
  rcases Nat.lt_or_ge xs.length (31 * 4) with hshort | hlong
  · rw [callDecode_idle hactive hopen hidle hlen hshort]
    left
    constructor
    · rfl
    · intro hstate
      cases hstate
  · exact Or.inr (prefetches_callDecode_idle hactive hopen hidle hlong)

/-- What reaches an idle client stays unread or spoils it. -/
theorem feed_idle (hactive : c.client.state = .active) (hopen : c.client.isOpen = true)
    (hidle : c.client.isIdle = true) (chunks : List (List Byte)) (xs : List Byte)
    (out : List Js5Packet) (hne : xs ++ chunks.flatten ≠ []) :
    (decoder.feed ((decoder.callDecode c xs).emit out) chunks).unread ≠ [] ∨
      Spoiled (decoder.feed ((decoder.callDecode c xs).emit out) chunks).state := by
  induction chunks generalizing xs out with
  | nil =>
    rcases Nat.lt_or_ge xs.length 5 with hshort | hlen
    · left
      rw [callDecode_idle_short hactive hopen hidle hshort]
      simpa [Decoder.feed] using hne
    · exact Or.inr (spoiled_callDecode_idle hactive hopen hidle hlen)
  | cons chunk chunks ih =>
    rcases Nat.lt_or_ge xs.length 5 with hshort | hlen
    · have hread : decoder.channelRead ((decoder.callDecode c xs).emit out) chunk =
          (decoder.callDecode c (xs ++ chunk)).emit (out ++ []) := by
        rw [callDecode_idle_short hactive hopen hidle hshort, Decoder.channelRead]
        exact if_pos hopen
      rw [Decoder.feed, List.foldl_cons, hread]
      refine ih (xs ++ chunk) (out ++ []) ?_
      rwa [List.append_assoc]
    · right
      have hspoiled := spoiled_callDecode_idle hactive hopen hidle hlen
      exact Spoiled.feed (e := (decoder.callDecode c xs).emit out) hspoiled _

end Prefetches

end Js5ClientDecoder

end OpenNXT.CacheDownloader
