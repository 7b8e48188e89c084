import OpenNXT.CacheDownloader.Js5ClientMachine
import OpenNXT.Net.Js5Blocks
import Mathlib.Data.Finset.Dedup

/-! What a client makes of a stream of blocks. -/
namespace OpenNXT.CacheDownloader
open Buffer Data Decoding Net Js5ClientDecoder

def ArchiveRequest.target (q : ArchiveRequest) : Target := ⟨q.priority, q.index, q.archive⟩

/-- The requests of a client, and the files they are for. -/
structure Assignment where
  file : Target → List Byte
  requested : Finset Target
  ref : Target → Ref
  served : ∀ t ∈ requested, Served (file t)
  archive : ∀ t ∈ requested, t.archive.msb = false
  unrequested : ∀ t, t ∉ requested → file t = []
  injective : ∀ t ∈ requested, ∀ u ∈ requested, ref t = ref u → t = u

namespace Assignment
variable (A : Assignment)

/-- What of each file is still to come after `j t` bytes of it. -/
def left (j : Target → ℕ) (t : Target) : List Byte := (A.file t).drop (j t)

theorem left_update (j : Target → ℕ) (t : Target) (n : ℕ) :
    A.left (Function.update j t n) = Function.update (A.left j) t ((A.file t).drop n) := by
  funext u
  by_cases hu : u = t
  · subst hu
    simp [left]
  · simp [left, hu]

theorem requested_of_ne {A : Assignment} {t : Target} (h : A.file t ≠ []) : t ∈ A.requested := by
  by_contra hnot
  exact h (A.unrequested t hnot)

theorem five_le {A : Assignment} {t : Target} (h : t ∈ A.requested) : 5 ≤ (A.file t).length :=
  (A.served t h).five_le

end Assignment

/-- A request that has the first `n` bytes of its file. -/
def Holds (data : List Byte) (n : ℕ) (q : ArchiveRequest) : Prop :=
  (n = 0 ∧ q.buffer = none) ∨
    ∃ b, q.buffer = some b ∧ 5 ≤ n ∧ b.written = data.take n ∧ b.capacity = data.length + q.trailer

theorem Holds.position {data : List Byte} {n : ℕ} {q : ArchiveRequest} {b : ByteBuffer}
    (h : Holds data n q) (hb : q.buffer = some b) (hn : n ≤ data.length) :
    b.position = n ∧ totalSize q b = data.length := by
  rcases h with ⟨-, hnone⟩ | ⟨b', hb', -, hwritten, hcap⟩
  · rw [hnone] at hb
    cases hb
  · rw [hb'] at hb
    cases hb
    refine ⟨?_, ?_⟩
    · rw [ByteBuffer.position, hwritten, List.length_take, min_eq_left hn]
    · rw [totalSize, hcap]
      omega

/-- A client that has `j t` bytes of each file, and a request outstanding for each that it does
not have all of. -/
structure Holding (A : Assignment) (j : Target → ℕ) (c : Connection) : Prop where
  live : Live c
  bound : ∀ t, j t ≤ (A.file t).length
  target : ∀ t ∈ A.requested, (c.heap.requests (A.ref t)).target = t
  requested : ∀ t ∈ A.requested, j t < (A.file t).length →
    c.client.getRequest t.priority t.index t.archive = some (A.ref t)
  outstanding : ∀ p k r, (c.client.downloading p).get? k = some r →
    ∃ t ∈ A.requested, r = A.ref t ∧ j t < (A.file t).length
  buffer : ∀ t ∈ A.requested, Holds (A.file t) (j t) (c.heap.requests (A.ref t))
  nodup : c.heap.completions.Nodup
  completions : ∀ r, r ∈ c.heap.completions ↔
    ∃ t ∈ A.requested, r = A.ref t ∧ j t = (A.file t).length

/-- The stream in front of a client: the rest of the block it is in, and whole blocks until `last`
is left of the files. -/
def Ahead (A : Assignment) (j : Target → ℕ) (c : Connection) (stream : List Byte)
    (last : Target → List Byte) : Prop :=
  match c.client.current with
  | none => Blocks (A.left j) stream last
  | some r => ∃ t ∈ A.requested, r = A.ref t ∧
      ((c.heap.requests r).buffer = none → (c.heap.requests r).offset = 5) ∧
      ∃ more, stream = (A.left j t).take (102400 - (c.heap.requests r).offset) ++ more ∧
        Blocks (Function.update (A.left j) t
          ((A.left j t).drop (102400 - (c.heap.requests r).offset))) more last

section Ahead
variable {A : Assignment} {j : Target → ℕ} {c : Connection} {stream : List Byte}
  {last : Target → List Byte}

theorem ahead_of_none (hcur : c.client.current = none) :
    Ahead A j c stream last ↔ Blocks (A.left j) stream last := by
  unfold Ahead
  rw [hcur]

theorem ahead_of_some {t : Target} (ht : t ∈ A.requested)
    (hcur : c.client.current = some (A.ref t)) (n : ℕ) (more : List Byte)
    (hoffset : (c.heap.requests (A.ref t)).offset = n)
    (hbuf : (c.heap.requests (A.ref t)).buffer = none → n = 5)
    (hstream : stream = (A.left j t).take (102400 - n) ++ more)
    (hmore : Blocks (Function.update (A.left j) t ((A.left j t).drop (102400 - n))) more
      last) : Ahead A j c stream last := by
  unfold Ahead
  rw [hcur]
  subst hoffset
  exact ⟨t, ht, rfl, hbuf, more, hstream, hmore⟩

end Ahead

section Step
variable {A : Assignment} {j : Target → ℕ} {c : Connection} {last : Target → List Byte}

theorem Holding.current (h : Holding A j c) {r : Ref} (hcur : c.client.current = some r) :
    ∃ t ∈ A.requested, r = A.ref t ∧ j t < (A.file t).length := by
  obtain ⟨hreg, -⟩ := h.live.current r hcur
  exact h.outstanding _ _ r hreg

/-- Progress on one request. -/
theorem Holding.modify (h : Holding A j c) {t : Target} (ht : t ∈ A.requested) {n : ℕ}
    {f : ArchiveRequest → ArchiveRequest} {client : Js5Client}
    (hkeeps : Keeps (c.heap.requests (A.ref t)) (f (c.heap.requests (A.ref t))))
    (hold : Holds (A.file t) n (f (c.heap.requests (A.ref t))))
    (hlt : j t < (A.file t).length) (hn : n < (A.file t).length)
    (hlive : Live ⟨client, c.heap.modify (A.ref t) f⟩)
    (hclient : ∀ p, client.downloading p = c.client.downloading p) :
    Holding A (Function.update j t n) ⟨client, c.heap.modify (A.ref t) f⟩ := by
  have hother : ∀ u ∈ A.requested, u ≠ t →
      (c.heap.modify (A.ref t) f).requests (A.ref u) = c.heap.requests (A.ref u) := by
    intro u hu hne
    exact c.heap.requests_modify_of_ne f fun heq => hne (A.injective u hu t ht heq)
  have hself := c.heap.requests_modify_self (A.ref t) f
  refine ⟨hlive, fun u => ?_, fun u hu => ?_, fun u hu hlt' => ?_, fun p k r hget => ?_,
    fun u hu => ?_, h.nodup, fun r => ?_⟩
  · by_cases hut : u = t
    · subst hut
      rw [Function.update_self]
      exact hn.le
    · rw [Function.update_of_ne hut]
      exact h.bound u
  · by_cases hut : u = t
    · subst hut
      have := h.target u ht
      simp only [hself]
      unfold ArchiveRequest.target at *
      rw [hkeeps.priority, hkeeps.index, hkeeps.archive]
      exact this
    · rw [hother u hu hut]
      exact h.target u hu
  · have hlt'' : j u < (A.file u).length := by
      by_cases hut : u = t
      · subst hut
        exact hlt
      · rwa [Function.update_of_ne hut] at hlt'
    have := h.requested u hu hlt''
    unfold Js5Client.getRequest at *
    rw [hclient]
    exact this
  · rw [hclient] at hget
    obtain ⟨u, hu, hr, hlt'⟩ := h.outstanding p k r hget
    refine ⟨u, hu, hr, ?_⟩
    by_cases hut : u = t
    · subst hut
      rwa [Function.update_self]
    · rwa [Function.update_of_ne hut]
  · by_cases hut : u = t
    · subst hut
      rw [Function.update_self]
      simp only [hself]
      exact hold
    · rw [Function.update_of_ne hut, hother u hu hut]
      exact h.buffer u hu
  · rw [Heap.completions_modify, h.completions]
    refine exists_congr fun u => and_congr_right fun hu => and_congr_right fun _ => ?_
    by_cases hut : u = t
    · subst hut
      rw [Function.update_self]
      omega
    · rw [Function.update_of_ne hut]

/-- The last byte of one request. -/
theorem Holding.complete (h : Holding A j c) {t : Target} (ht : t ∈ A.requested)
    {f : ArchiveRequest → ArchiveRequest} {client : Js5Client}
    (hkeeps : Keeps (c.heap.requests (A.ref t)) (f (c.heap.requests (A.ref t))))
    (hold : Holds (A.file t) (A.file t).length (f (c.heap.requests (A.ref t))))
    (hlt : j t < (A.file t).length)
    (hlive : Live ⟨client, (c.heap.modify (A.ref t) f).notifyCompleted (A.ref t)⟩)
    (hclient : ∀ p, client.downloading p =
      (c.client.withoutRequest (c.heap.requests (A.ref t))).downloading p) :
    Holding A (Function.update j t (A.file t).length)
      ⟨client, (c.heap.modify (A.ref t) f).notifyCompleted (A.ref t)⟩ := by
  have hother : ∀ u ∈ A.requested, u ≠ t →
      ((c.heap.modify (A.ref t) f).notifyCompleted (A.ref t)).requests (A.ref u) =
        c.heap.requests (A.ref u) := by
    intro u hu hne
    have hne' : A.ref u ≠ A.ref t := fun heq => hne (A.injective u hu t ht heq)
    rw [Heap.requests_notifyCompleted_of_ne _ hne', c.heap.requests_modify_of_ne f hne']
  have hself : ((c.heap.modify (A.ref t) f).notifyCompleted (A.ref t)).requests (A.ref t) =
      { f (c.heap.requests (A.ref t)) with completed := true } := by
    rw [Heap.requests_notifyCompleted_self, c.heap.requests_modify_self]
  have htarget := h.target t ht
  refine ⟨hlive, fun u => ?_, fun u hu => ?_, fun u hu hlt' => ?_, fun p k r hget => ?_,
    fun u hu => ?_, ?_, fun r => ?_⟩
  · by_cases hut : u = t
    · subst hut
      rw [Function.update_self]
    · rw [Function.update_of_ne hut]
      exact h.bound u
  · by_cases hut : u = t
    · subst hut
      simp only [hself]
      unfold ArchiveRequest.target at *
      simp only [hkeeps.priority, hkeeps.index, hkeeps.archive]
      exact htarget
    · rw [hother u hu hut]
      exact h.target u hu
  · have hut : u ≠ t := by
      rintro rfl
      rw [Function.update_self] at hlt'
      omega
    rw [Function.update_of_ne hut] at hlt'
    have hold' := h.requested u hu hlt'
    have hget := h.live.filed _ _ _ hold'
    unfold Js5Client.getRequest at *
    simp only [hclient, Js5Client.get?_withoutRequest]
    -- The other request is filed under its own key.
    have hne : ¬ ((c.heap.requests (A.ref t)).priority = u.priority ∧
        longKey u.index u.archive = (c.heap.requests (A.ref t)).key) := by
      rintro ⟨hp, hk⟩
      have hreg := h.requested t ht hlt
      obtain ⟨hp', hk'⟩ := h.live.filed _ _ _ hreg
      rw [hp'] at hp
      rw [hk'] at hk
      unfold Js5Client.getRequest at hreg
      rw [hp, ← hk, hold'] at hreg
      exact hut (A.injective u hu t ht (Option.some.inj hreg))
    rw [if_neg hne]
    exact hold'
  · simp only [hclient, Js5Client.get?_withoutRequest] at hget
    split_ifs at hget with hsame
    obtain ⟨u, hu, rfl, hlt'⟩ := h.outstanding p k r hget
    refine ⟨u, hu, rfl, ?_⟩
    have hut : u ≠ t := by
      rintro rfl
      obtain ⟨hp, hk⟩ := h.live.filed p k _ hget
      exact hsame ⟨hp, hk.symm⟩
    rwa [Function.update_of_ne hut]
  · by_cases hut : u = t
    · subst hut
      rw [Function.update_self]
      simp only [hself]
      exact hold
    · rw [Function.update_of_ne hut, hother u hu hut]
      exact h.buffer u hu
  · rw [Heap.completions_notifyCompleted, Heap.completions_modify]
    refine List.nodup_append.mpr ⟨h.nodup, List.nodup_singleton _, ?_⟩
    intro r hr s hs heq
    rw [List.mem_singleton.mp hs] at heq
    obtain ⟨u, hu, hur, hfull⟩ := (h.completions r).mp hr
    have hut := A.injective u hu t ht (by rw [← hur, heq])
    subst hut
    omega
  · rw [Heap.completions_notifyCompleted, Heap.completions_modify, List.mem_append,
      h.completions, List.mem_singleton]
    constructor
    · rintro (⟨u, hu, rfl, hfull⟩ | rfl)
      · refine ⟨u, hu, rfl, ?_⟩
        by_cases hut : u = t
        · subst hut
          rw [Function.update_self]
        · rwa [Function.update_of_ne hut]
      · exact ⟨t, ht, rfl, Function.update_self _ _ _⟩
    · rintro ⟨u, hu, rfl, hfull⟩
      by_cases hut : u = t
      · subst hut
        exact Or.inr rfl
      · rw [Function.update_of_ne hut] at hfull
        exact Or.inl ⟨u, hu, rfl, hfull⟩

/-- The header of a block is read, whatever follows it. -/
theorem Holding.step_announced (h : Holding A j c) {t : Target} (hcur : c.client.current = none)
    (hlt : j t < (A.file t).length) (rest : List Byte) :
    step c (t.header ++ rest) = some
        { state := modifyRequest { c with client := { c.client with current := some (A.ref t) } }
            (A.ref t) (fun q => { q with offset := 5 }),
          unread := rest } ∧
      Holding A j (modifyRequest { c with client := { c.client with current := some (A.ref t) } }
        (A.ref t) (fun q => { q with offset := 5 })) := by
  have ht : t ∈ A.requested := Assignment.requested_of_ne (List.length_pos_iff.mp (by omega))
  have hreq := h.requested t ht hlt
  have hidle : c.client.isIdle = false := by
    by_contra hidle
    have hnone := (Js5Client.isIdle_iff.mp (by simpa using hidle)).2 t.priority
      (longKey t.index t.archive)
    unfold Js5Client.getRequest at hreq
    rw [hnone] at hreq
    cases hreq
  have harchive := archive_of_header t (A.archive t ht)
  have hpriority := priority_of_header t (A.archive t ht)
  have hread : readHeader c (t.header ++ rest) = some
      { state := modifyRequest { c with client := { c.client with current := some (A.ref t) } }
          (A.ref t) (fun q => { q with offset := 5 }),
        unread := rest } := by
    refine readHeader_eq ?_ harchive hpriority hreq
    rw [t.header_eq, readByteInt_putInt]
  constructor
  · simp only [step, hcur, hidle, Bool.false_eq_true, if_false, hread]
    rfl
  · have hlive : Live ⟨{ c.client with current := some (A.ref t) },
        c.heap.modify (A.ref t) (fun q => { q with offset := 5 })⟩ :=
      readHeader_live h.live hread rfl
    have hkeep := h.modify ht ⟨rfl, rfl, rfl⟩ (h.buffer t ht) hlt hlt hlive fun _ => rfl
    rwa [Function.update_eq_self] at hkeep

/-- The next block is announced. -/
private theorem step_header (h : Holding A j c) {t : Target} (hcur : c.client.current = none)
    (hne : A.left j t ≠ []) {more : List Byte}
    (hmore : Blocks (Function.update (A.left j) t ((A.left j t).drop maxResponseBlockPayloadBytes))
      more last) :
    ∃ e, step c (t.header ++ (A.left j t).take maxResponseBlockPayloadBytes ++ more) = some e ∧
      Holding A j e.state ∧ Ahead A j e.state e.unread last := by
  have hlt : j t < (A.file t).length := by
    by_contra hge
    exact hne (List.drop_of_length_le (by omega))
  have ht : t ∈ A.requested := Assignment.requested_of_ne (List.length_pos_iff.mp (by omega))
  obtain ⟨hstep, hkeep⟩ := h.step_announced hcur hlt
    ((A.left j t).take maxResponseBlockPayloadBytes ++ more)
  rw [← List.append_assoc] at hstep
  refine ⟨_, hstep, hkeep, ?_⟩
  have hself : (c.heap.modify (A.ref t) (fun q => { q with offset := 5 })).requests (A.ref t) =
      { c.heap.requests (A.ref t) with offset := 5 } := c.heap.requests_modify_self _ _
  refine ahead_of_some ht rfl 5 _ ?_ (fun _ => rfl) rfl hmore
  simp only [modifyRequest, hself]

/-- The buffer of a request has room for its file and the trailer. -/
theorem bufferSize_of_served {compression : Byte} {fileSize : Word} {n : ℕ} (q : ArchiveRequest)
    (hsize : (fileSize + if compression = 0 then 5 else 9 : Word).toInt = n) (hn : n + 2 < 2 ^ 31) :
    (bufferSize q compression fileSize).toInt = n + q.trailer := by
  unfold bufferSize ArchiveRequest.trailer
  generalize (fileSize + if compression = 0 then 5 else 9 : Word) = w at *
  have hw := BitVec.toInt_eq_toNat_cond w
  by_cases hindex : q.index = 255
  · rw [if_pos hindex, if_pos hindex]
    have hzero : w + 0 = w := BitVec.add_zero w
    rw [hzero, hsize]
    rfl
  · rw [if_neg hindex, if_neg hindex]
    have hnat : w.toNat = n := by
      split_ifs at hw <;> omega
    have htwo : (w + 2).toNat = n + 2 := by
      rw [BitVec.toNat_add, hnat]
      exact Nat.mod_eq_of_lt (by change n + 2 < 2 ^ 32; omega)
    rw [BitVec.toInt_eq_toNat_of_lt (by omega), htwo]
    rfl

/-- The container's header becomes the first five bytes. -/
theorem step_container (h : Holding A j c) {t : Target} (ht : t ∈ A.requested)
    (hcur : c.client.current = some (A.ref t)) (hlt : j t < (A.file t).length)
    (hbuf : (c.heap.requests (A.ref t)).buffer = none) {more : List Byte}
    (hmore : Blocks (Function.update (A.left j) t ((A.left j t).drop (102400 - 5)))
      more last) :
    ∃ e, step c ((A.left j t).take (102400 - 5) ++ more) = some e ∧
      Holding A (Function.update j t 5) e.state ∧
      Ahead A (Function.update j t 5) e.state e.unread last := by
  obtain ⟨compression, fileSize, payload, hfile, hsize, hbound⟩ := (A.served t ht).header
  have hzero : j t = 0 := by
    rcases h.buffer t ht with ⟨hzero, -⟩ | ⟨b, hb, -⟩
    · exact hzero
    · rw [hbuf] at hb
      cases hb
  have hleft : A.left j t = compression :: putInt fileSize ++ payload := by
    unfold Assignment.left
    rw [hzero, List.drop_zero, hfile]
  have hhead : (compression :: putInt fileSize).length = 5 := by simp
  have htake : (A.left j t).take (102400 - 5) =
      compression :: putInt fileSize ++ payload.take (102400 - 10) := by
    rw [hleft, List.take_append, hhead, List.take_of_length_le (by omega)]
  have hdrop : (A.left j t).drop (102400 - 5) = payload.drop (102400 - 10) := by
    rw [hleft, List.drop_append, hhead, List.drop_of_length_le (by omega), List.nil_append]
  have hfive : (A.file t).drop 5 = payload := by
    rw [hfile, List.drop_append, hhead, List.drop_of_length_le (by omega), List.nil_append,
      Nat.sub_self, List.drop_zero]
  have hlen : (A.file t).length = payload.length + 5 := by
    rw [hfile, List.length_append, hhead, Nat.add_comm]
  have hread : readByteInt ((A.left j t).take (102400 - 5) ++ more) =
      some (compression, fileSize, payload.take (102400 - 10) ++ more) := by
    rw [htake, List.append_assoc, readByteInt_putInt]
  have hasked := bufferSize_of_served (c.heap.requests (A.ref t)) hsize hbound
  have hfits : headerFits (c.heap.requests (A.ref t))
      ((A.left j t).take (102400 - 5) ++ more) = true := by
    unfold headerFits
    rw [hread]
    simp only [decide_eq_true_eq]
    omega
  obtain ⟨b, hwritten, htotal, heq⟩ := readContainerHeader_eq hread hfits
  obtain ⟨hret, hlive⟩ := readContainerHeader_live h.live hcur hfits heq
  obtain ⟨hreg, -⟩ := h.live.current _ hcur
  have hcap : b.capacity = (A.file t).length + (c.heap.requests (A.ref t)).trailer := by
    unfold totalSize at htotal
    omega
  have hholds : Holds (A.file t) 5
      { c.heap.requests (A.ref t) with
        size := bufferSize (c.heap.requests (A.ref t)) compression fileSize
        buffer := some b, offset := 10 } := by
    refine Or.inr ⟨b, rfl, Nat.le_refl _, ?_, hcap⟩
    rw [hwritten, hfile, List.take_append, hhead, Nat.sub_self, List.take_zero, List.append_nil,
      List.take_of_length_le hhead.le]
  have hstep : step c ((A.left j t).take (102400 - 5) ++ more) =
      accept (readContainerHeader c (A.ref t) ((A.left j t).take (102400 - 5) ++ more)) := by
    simp only [step, hcur, hbuf, hfits, if_true]
  rw [heq] at hstep
  refine ⟨_, hstep.trans (accept_eq_some.mpr ⟨_, rfl, hret, rfl⟩), ?_⟩
  · have hsame : A.left (Function.update j t 5) = Function.update (A.left j) t payload := by
      rw [A.left_update, hfive]
    simp only at hlive ⊢
    by_cases hfull : (5 : ℤ) = totalSize (c.heap.requests (A.ref t)) b
    · rw [if_pos hfull] at hlive ⊢
      obtain ⟨hcomplete, -⟩ := complete_modify h.live
        (fun q => { q with size := bufferSize (c.heap.requests (A.ref t)) compression fileSize,
                           buffer := some b, offset := 10 })
        (payload.take (102400 - 10) ++ more) ⟨rfl, rfl, rfl⟩ hreg
      rw [hcomplete] at hlive ⊢
      have hnil : payload = [] := by
        rw [← List.length_eq_zero_iff]
        omega
      have hall : (A.file t).length = 5 := by
        rw [hlen, hnil]
        rfl
      refine ⟨?_, ?_⟩
      · have hdone := h.complete ht
          (f := fun q => { q with
            size := bufferSize (c.heap.requests (A.ref t)) compression fileSize,
            buffer := some b, offset := 10 })
          ⟨rfl, rfl, rfl⟩ (by rw [hall]; exact hholds) hlt hlive fun _ => rfl
        rwa [hall] at hdone
      · change Blocks (A.left (Function.update j t 5)) (payload.take (102400 - 10) ++ more) _
        rw [hdrop] at hmore
        rw [hsame, hnil]
        rw [hnil] at hmore
        simpa using hmore
    · rw [if_neg hfull] at hlive ⊢
      refine ⟨?_, ?_⟩
      · exact h.modify ht ⟨rfl, rfl, rfl⟩ hholds hlt (by omega) hlive fun _ => rfl
      · have hself := c.heap.requests_modify_self (A.ref t)
          (fun q => { q with size := bufferSize (c.heap.requests (A.ref t)) compression fileSize,
                             buffer := some b, offset := 10 })
        refine ahead_of_some ht hcur 10 more ?_ ?_ ?_ ?_
        · simp only [modifyRequest, hself]
        · simp only [modifyRequest, hself]
          intro hnone
          cases hnone
        · rw [hsame, Function.update_self]
        · rw [hsame, Function.update_self, Function.update_idem]
          rwa [hdrop] at hmore

/-- One more byte. -/
private theorem step_data (h : Holding A j c) {t : Target} (ht : t ∈ A.requested)
    (hcur : c.client.current = some (A.ref t)) (hlt : j t < (A.file t).length) {b : ByteBuffer}
    (hbuf : (c.heap.requests (A.ref t)).buffer = some b) {n : ℕ}
    (hn : (c.heap.requests (A.ref t)).offset = n) {more : List Byte}
    (hmore : Blocks (Function.update (A.left j) t ((A.left j t).drop (102400 - n))) more
      last) :
    ∃ e, step c ((A.left j t).take (102400 - n) ++ more) = some e ∧
      Holding A (Function.update j t (j t + 1)) e.state ∧
      Ahead A (Function.update j t (j t + 1)) e.state e.unread last := by
  obtain ⟨hreg, hoff⟩ := h.live.current _ hcur
  rw [hn] at hoff
  have hholds := h.buffer t ht
  obtain ⟨hpos, htotal⟩ := hholds.position hbuf hlt.le
  obtain ⟨x, tail, hleft⟩ : ∃ x tail, A.left j t = x :: tail :=
    List.exists_cons_of_ne_nil (List.length_pos_iff.mp (by
      unfold Assignment.left
      rw [List.length_drop]
      omega))
  have htail : (A.file t).drop (j t + 1) = tail := by
    unfold Assignment.left at hleft
    rw [← List.drop_drop, hleft]
    rfl
  obtain ⟨m, hm⟩ : ∃ m, 102400 - n = m + 1 := ⟨102400 - n - 1, by omega⟩
  have htake : (A.left j t).take (102400 - n) = x :: tail.take m := by
    rw [hleft, hm, List.take_succ_cons]
  have hdrop : (A.left j t).drop (102400 - n) = tail.drop m := by
    rw [hleft, hm, List.drop_succ_cons]
  have hwritten : (A.file t).take (j t) ++ [x] = (A.file t).take (j t + 1) := by
    unfold Assignment.left at hleft
    rw [List.take_add, hleft]
    rfl
  have hsame : A.left (Function.update j t (j t + 1)) = Function.update (A.left j) t tail := by
    rw [A.left_update, htail]
  rw [hdrop] at hmore
  have hroom : Room c (A.ref t) b [x] := by
    refine ⟨h.live, hcur, hbuf, ?_, ?_⟩
    · simp only [List.length_singleton]
      omega
    · simp only [List.length_singleton]
      omega
  obtain ⟨hret, hlive⟩ := receive_live hroom (by simp) (tail.take m ++ more)
  have hstep : step c ((A.left j t).take (102400 - n) ++ more) =
      some (receive c (A.ref t) b [x] (tail.take m ++ more)).toConfig := by
    rw [htake]
    simp only [step, hcur, hbuf, List.cons_append]
    exact accept_eq_some.mpr ⟨_, rfl, hret, rfl⟩
  refine ⟨_, hstep, ?_⟩
  -- What was stored, and where the buffer stands after it.
  obtain ⟨b', hput, hpos'⟩ := hroom.put
  obtain ⟨hcap', hwritten'⟩ := ByteBuffer.put_some hput
  rw [List.length_singleton] at hpos'
  have hstored : Holds (A.file t) (j t + 1) ((c.heap.requests (A.ref t)).received b' 1) := by
    rcases hholds with ⟨-, hnone⟩ | ⟨b₀, hb₀, hfive, hw, hc⟩
    · rw [hbuf] at hnone
      cases hnone
    · rw [hbuf] at hb₀
      cases hb₀
      refine Or.inr ⟨b', rfl, by omega, ?_, hcap'.trans hc⟩
      rw [hwritten', hw, hwritten]
  have htotal' : totalSize ((c.heap.requests (A.ref t)).received b' 1) b' = (A.file t).length := by
    rw [(keeps_received b' 1 _).totalSize, totalSize, hcap']
    exact htotal
  have hself : (modifyRequest c (A.ref t) (.received b' 1)).heap.requests (A.ref t) =
      (c.heap.requests (A.ref t)).received b' 1 := Heap.requests_modify_self _ _ _
  have hoffset : ((c.heap.requests (A.ref t)).received b' 1).offset = n + 1 := by
    rw [← hn]
    rfl
  have hreceive : receive c (A.ref t) b [x] (tail.take m ++ more) =
      if (b'.position : ℤ) = (A.file t).length then
        complete (modifyRequest c (A.ref t) (.received b' 1)) (A.ref t) (tail.take m ++ more)
      else if n + 1 = 102400 then
        { state := modifyRequest { modifyRequest c (A.ref t) (.received b' 1) with
              client := { c.client with current := none } } (A.ref t) fun q => { q with offset := 0 },
          unread := tail.take m ++ more }
      else { state := modifyRequest c (A.ref t) (.received b' 1), unread := tail.take m ++ more } := by
    unfold receive
    simp only [hput, List.length_singleton, hself, htotal', hoffset]
    rfl
  rw [hreceive] at hlive ⊢
  by_cases hfull : (b'.position : ℤ) = (A.file t).length
  · -- The file is complete, and so is its last block.
    rw [if_pos hfull] at hlive ⊢
    obtain ⟨hcomplete, -⟩ := complete_modify h.live (.received b' 1) (tail.take m ++ more)
      (keeps_received _ _ _) hreg
    rw [hcomplete] at hlive ⊢
    have hall : j t + 1 = (A.file t).length := by omega
    have hnil : tail = [] := by
      rw [← htail, hall]
      exact List.drop_length
    rw [hall] at hstored hsame ⊢
    refine ⟨h.complete ht (keeps_received _ _ _) hstored hlt hlive fun _ => rfl,
      (ahead_of_none rfl).mpr ?_⟩
    rw [hsame]
    rw [hnil] at hmore ⊢
    simpa using hmore
  · rw [if_neg hfull] at hlive ⊢
    by_cases hblock : n + 1 = 102400
    · rw [if_pos hblock] at hlive ⊢
      have hzero : m = 0 := by omega
      have hmod : (modifyRequest { modifyRequest c (A.ref t) (.received b' 1) with
          client := { c.client with current := none } } (A.ref t) fun q => { q with offset := 0 }) =
          ⟨{ c.client with current := none }, c.heap.modify (A.ref t)
            (fun q => { q.received b' 1 with offset := 0 })⟩ := by
        simp only [modifyRequest, Heap.modify_modify]
      rw [hmod] at hlive ⊢
      refine ⟨h.modify ht ⟨rfl, rfl, rfl⟩ hstored hlt (by omega) hlive fun _ => rfl,
        (ahead_of_none rfl).mpr ?_⟩
      rw [hsame]
      rw [hzero] at hmore ⊢
      simpa using hmore
    · rw [if_neg hblock] at hlive ⊢
      refine ⟨h.modify ht (keeps_received _ _ _) hstored hlt (by omega) hlive fun _ => rfl, ?_⟩
      have hm' : 102400 - (n + 1) = m := by omega
      refine ahead_of_some ht hcur (n + 1) more ?_ ?_ ?_ ?_
      · rw [hself, hoffset]
      · rw [hself]
        intro hnone
        cases hnone
      · rw [hsame, Function.update_self, hm']
      · rw [hsame, Function.update_self, Function.update_idem, hm']
        exact hmore

/-- In front of a stream of blocks a client that holds less than all files goes on. -/
theorem Holding.step (h : Holding A j c) {stream : List Byte} (ha : Ahead A j c stream last) :
    (stream = [] ∧ c.client.current = none ∧ A.left j = last) ∨
      ∃ e j', step c stream = some e ∧ (∀ t, j t ≤ j' t) ∧ Holding A j' e.state ∧
        Ahead A j' e.state e.unread last := by
  have hle : ∀ t n, j t ≤ n → ∀ u, j u ≤ Function.update j t n u := by
    intro t n hn u
    by_cases hu : u = t
    · subst hu
      rwa [Function.update_self]
    · rw [Function.update_of_ne hu]
  cases hcur : c.client.current with
  | none =>
    have hblocks := (ahead_of_none hcur).mp ha
    generalize hrest : A.left j = rest at hblocks
    cases hblocks with
    | nil => exact Or.inl ⟨rfl, rfl, rfl⟩
    | cons t hne hmore =>
      subst hrest
      obtain ⟨e, hstep, hkeep, hahead⟩ := step_header h hcur hne hmore
      exact Or.inr ⟨e, j, hstep, fun t => Nat.le_refl _, hkeep, hahead⟩
  | some r =>
    obtain ⟨t, ht, rfl, hlt⟩ := h.current hcur
    unfold Ahead at ha
    rw [hcur] at ha
    obtain ⟨u, hu, heq, hopened, more, rfl, hmore⟩ := ha
    have hut := A.injective u hu t ht heq.symm
    subst hut
    cases hbuf : (c.heap.requests (A.ref u)).buffer with
    | none =>
      rw [hopened hbuf] at hmore ⊢
      have hzero : j u = 0 := by
        rcases h.buffer u hu with ⟨hzero, -⟩ | ⟨b, hb, -⟩
        · exact hzero
        · rw [hbuf] at hb
          cases hb
      obtain ⟨e, hstep, hkeep, hahead⟩ := step_container h hu hcur hlt hbuf hmore
      exact Or.inr ⟨e, _, hstep, hle u 5 (by omega), hkeep, hahead⟩
    | some b =>
      obtain ⟨e, hstep, hkeep, hahead⟩ := step_data h hu hcur hlt hbuf rfl hmore
      exact Or.inr ⟨e, _, hstep, hle u _ (by omega), hkeep, hahead⟩

end Step

section Run
variable {A : Assignment} {j : Target → ℕ} {c : Connection} {last : Target → List Byte}

/-- Along a front of the stream a client keeps to it. -/
theorem Holding.run (h : Holding A j c) (xs more : List Byte) (ha : Ahead A j c (xs ++ more) last) :
    ∃ j', (∀ t, j t ≤ j' t) ∧ Holding A j' (machine.run c xs).state ∧
      Ahead A j' (machine.run c xs).state ((machine.run c xs).unread ++ more) last := by
  revert j
  refine machine.run_induction (motive := fun c xs => ∀ {j : Target → ℕ}, Holding A j c →
    Ahead A j c (xs ++ more) last → ∃ j', (∀ t, j t ≤ j' t) ∧ Holding A j' (machine.run c xs).state ∧
      Ahead A j' (machine.run c xs).state ((machine.run c xs).unread ++ more) last) ?_ ?_ c xs
  · intro c xs hwaits j h ha
    rw [Machine.run_of_waits hwaits]
    exact ⟨j, fun t => Nat.le_refl _, h, ha⟩
  · intro c xs e hstep ih j h ha
    have happ := machine.step_append more hstep
    rw [Machine.run_of_step hstep]
    rcases h.step ha with ⟨hnil, -⟩ | ⟨e', j', hstep', hle, hkeep, hahead⟩
    · have hlen := machine.step_lt hstep
      rw [(List.append_eq_nil_iff.mp hnil).1] at hlen
      exact absurd hlen (Nat.not_lt_zero _)
    · have heq : e' = { e with unread := e.unread ++ more } :=
        Option.some.inj (hstep'.symm.trans happ)
      subst heq
      obtain ⟨j'', hle', hrest⟩ := ih hkeep hahead
      exact ⟨j'', fun t => (hle t).trans (hle' t), hrest⟩

/-- At the end of the stream a client is between two blocks. -/
theorem Holding.run_to (h : Holding A j c) (xs : List Byte) (ha : Ahead A j c xs last) :
    ∃ c' j', machine.run c xs = { state := c', unread := [] } ∧ c'.client.current = none ∧
      A.left j' = last ∧ (∀ t, j t ≤ j' t) ∧ Holding A j' c' := by
  obtain ⟨j', hle, hkeep, hahead⟩ := h.run xs [] (by rwa [List.append_nil])
  rw [List.append_nil] at hahead
  have hout : (machine.run c xs).out = [] := by
    refine machine.run_induction (motive := fun c xs => (machine.run c xs).out = []) ?_ ?_ c xs
    · intro c xs hwaits
      rw [Machine.run_of_waits hwaits]
    · intro c xs e hstep ih
      rw [Machine.run_of_step hstep, Config.out_emit, ih, (step_some hstep).2.1]
      rfl
  rcases hkeep.step hahead with ⟨hnil, hcur, hleft⟩ | ⟨e, -, hstep, -⟩
  · exact ⟨(machine.run c xs).state, j', Config.ext rfl hnil hout, hcur, hleft, hle, hkeep⟩
  · have hwaits := machine.waits_run c xs
    rw [show machine.step = Js5ClientDecoder.step from rfl, hstep] at hwaits
    cases hwaits

/-- And holds every file, where nothing is left. -/
theorem Holding.run_all (h : Holding A j c) (xs : List Byte) (ha : Ahead A j c xs fun _ => []) :
    ∃ c', machine.run c xs = { state := c', unread := [] } ∧ c'.client.current = none ∧
      Holding A (fun t => (A.file t).length) c' := by
  obtain ⟨c', j', hrun, hcur, hleft, -, hkeep⟩ := h.run_to xs ha
  have hall : j' = fun t => (A.file t).length := by
    funext t
    have hnil := congrFun hleft t
    have hbound := hkeep.bound t
    unfold Assignment.left at hnil
    rw [List.drop_eq_nil_iff] at hnil
    omega
  rw [hall] at hkeep
  exact ⟨c', hrun, hcur, hkeep⟩

/-- A client that has read a front of the stream is not stuck in front of what it left. -/
theorem Holding.not_stuck (h : Holding A j c) {xs more : List Byte}
    (ha : Ahead A j c (xs ++ more) last) : ¬ Stuck c xs := by
  intro hstuck
  rcases h.step ha with ⟨hnil, hcur, -⟩ | ⟨e, j', hstep, -⟩
  · rw [(List.append_eq_nil_iff.mp hnil).1] at hstuck
    unfold Stuck at hstuck
    rw [hcur] at hstuck
    rcases hstuck with ⟨-, hne⟩ | ⟨-, d, hd, -⟩
    · exact hne rfl
    · cases hd
  · have hmore := implements.stuck_append c xs more h.live hstuck
    have hwaits := implements.waits_stuck c _ h.live hmore
    rw [show machine.step = Js5ClientDecoder.step from rfl, hstep] at hwaits
    cases hwaits

/-- However the front of the stream is cut, a client reads it as the machine does. -/
theorem Holding.feed_eq_run (h : Holding A j c) (front : List (List Byte)) (more : List Byte)
    (ha : Ahead A j c (front.flatten ++ more) last) :
    decoder.feed { state := c, unread := [] } front = machine.run c front.flatten := by
  obtain ⟨j', -, hkeep, hahead⟩ := h.run front.flatten more ha
  have hfeed := implements.feed_eq_run front { state := c, unread := [] }
    (implements.waits c h.live) h.live (fun _ => rfl)
  rw [List.nil_append] at hfeed
  exact (hfeed (hkeep.not_stuck hahead)).trans rfl

/-- A client that holds every file has nothing outstanding. -/
theorem Holding.idle (h : Holding A (fun t => (A.file t).length) c)
    (hcur : c.client.current = none) : c.client.isIdle = true := by
  refine Js5Client.isIdle_iff.mpr ⟨hcur, fun p k => ?_⟩
  cases hget : (c.client.downloading p).get? k with
  | none => rfl
  | some r =>
    obtain ⟨t, -, -, hlt⟩ := h.outstanding p k r hget
    exact absurd hlt (Nat.lt_irrefl _)

/-- However the stream is cut, a client reads all of it, and then holds every file. -/
theorem Holding.feed (h : Holding A j c) (chunks : List (List Byte))
    (ha : Ahead A j c chunks.flatten fun _ => []) :
    ∃ c', decoder.feed { state := c, unread := [] } chunks = { state := c', unread := [] } ∧
      c'.client.current = none ∧ c'.client.prefetches = c.client.prefetches ∧
      Holding A (fun t => (A.file t).length) c' := by
  obtain ⟨c', hrun, hcur, hkeep⟩ := h.run_all chunks.flatten ha
  have hpre := prefetches_run (c := c) chunks.flatten
  rw [hrun] at hpre
  have hfeed := h.feed_eq_run chunks [] (by rwa [List.append_nil])
  exact ⟨c', hfeed.trans hrun, hcur, hpre, hkeep⟩

end Run

/-- Requests for different files, each of which is served. -/
structure Outstanding (h : Heap) (requests : List Ref) (file : Target → List Byte) : Prop where
  distinct : (requests.map fun r => (h.requests r).target).Nodup
  archive : ∀ r ∈ requests, (h.requests r).archive.msb = false
  served : ∀ r ∈ requests, Served (file (h.requests r).target)

namespace Outstanding
variable {h : Heap} {requests : List Ref} {file : Target → List Byte}

theorem find (H : Outstanding h requests file) {r : Ref} (hr : r ∈ requests) :
    requests.find? (fun s => (h.requests s).target = (h.requests r).target) = some r := by
  have hdistinct := H.distinct
  clear H
  induction requests with
  | nil => cases hr
  | cons s requests ih =>
    rw [List.map_cons, List.nodup_cons] at hdistinct
    rcases List.mem_cons.mp hr with rfl | hr
    · simp
    · have hne : (h.requests s).target ≠ (h.requests r).target := fun heq =>
        hdistinct.1 (heq ▸ List.mem_map_of_mem hr)
      rw [List.find?_cons_of_neg (by simpa using hne)]
      exact ih hr hdistinct.2

def assignment (H : Outstanding h requests file) : Assignment where
  file t := if t ∈ requests.map (fun r => (h.requests r).target) then file t else []
  requested := (requests.map fun r => (h.requests r).target).toFinset
  ref t := (requests.find? fun s => (h.requests s).target = t).getD 0
  served t ht := by
    rw [List.mem_toFinset] at ht
    rw [if_pos ht]
    obtain ⟨r, hr, rfl⟩ := List.mem_map.mp ht
    exact H.served r hr
  archive t ht := by
    obtain ⟨r, hr, rfl⟩ := List.mem_map.mp (List.mem_toFinset.mp ht)
    exact H.archive r hr
  unrequested t ht := by
    rw [List.mem_toFinset] at ht
    exact if_neg ht
  injective t ht u hu heq := by
    obtain ⟨r, hr, rfl⟩ := List.mem_map.mp (List.mem_toFinset.mp ht)
    obtain ⟨s, hs, rfl⟩ := List.mem_map.mp (List.mem_toFinset.mp hu)
    rw [H.find hr, H.find hs] at heq
    rw [show r = s from heq]

theorem ref_target (H : Outstanding h requests file) {r : Ref} (hr : r ∈ requests) :
    H.assignment.ref (h.requests r).target = r := by
  change (requests.find? _).getD 0 = r
  rw [H.find hr]
  rfl

theorem file_target (H : Outstanding h requests file) {r : Ref} (hr : r ∈ requests) :
    H.assignment.file (h.requests r).target = file (h.requests r).target :=
  if_pos (List.mem_map_of_mem hr)

theorem mem_requested (H : Outstanding h requests file) {t : Target} :
    t ∈ H.assignment.requested ↔ ∃ r ∈ requests, (h.requests r).target = t := by
  change t ∈ (requests.map fun r => (h.requests r).target).toFinset ↔ _
  rw [List.mem_toFinset, List.mem_map]

/-- A fresh client with the requests assigned to it. -/
theorem holding (H : Outstanding h requests file) {client : Js5Client} (hfresh : client.Fresh)
    (j : Target → ℕ)
    (hholds : ∀ r ∈ requests,
      Holds (file (h.requests r).target) (j (h.requests r).target) (h.requests r))
    (hlt : ∀ r ∈ requests, j (h.requests r).target < (file (h.requests r).target).length)
    (hzero : ∀ t ∉ H.assignment.requested, j t = 0) (hcompletions : h.completions = []) :
    Holding H.assignment j ⟨client.addAllUnchecked h requests, h⟩ := by
  obtain ⟨hactive, hopen, hcur, -⟩ := hfresh.addAllUnchecked h requests
  have hdistinct : requests.Pairwise fun r s =>
      ¬ ((h.requests r).priority = (h.requests s).priority ∧
        (h.requests r).key = (h.requests s).key) := by
    have hpair := List.pairwise_map.mp H.distinct
    refine hpair.imp_of_mem fun {r s} hr hs hne hsame => hne ?_
    obtain ⟨hindex, harchive⟩ := longKey_injective (H.archive r hr) (H.archive s hs) hsame.2
    unfold ArchiveRequest.target
    rw [hsame.1, hindex, harchive]
  obtain ⟨hfiled, honly⟩ := hfresh.get?_addAllUnchecked hdistinct
  have hunfinished : ∀ r ∈ requests, ∀ b, (h.requests r).buffer = some b →
      (b.position : ℤ) < totalSize (h.requests r) b := by
    intro r hr b hb
    have hlt' := hlt r hr
    obtain ⟨hpos, htotal⟩ := (hholds r hr).position hb hlt'.le
    omega
  refine ⟨⟨hactive, hopen, fun p k r hget => (honly p k r hget).2, fun p k r hget =>
    hunfinished r (honly p k r hget).1, fun r hr => ?_⟩, fun t => ?_, fun t ht => ?_,
    fun t ht hlt' => ?_, fun p k r hget => ?_, fun t ht => ?_, ?_, fun r => ?_⟩
  · rw [hcur] at hr
    cases hr
  · by_cases ht : t ∈ H.assignment.requested
    · obtain ⟨r, hr, rfl⟩ := H.mem_requested.mp ht
      rw [H.file_target hr]
      exact (hlt r hr).le
    · rw [hzero t ht]
      exact Nat.zero_le _
  · obtain ⟨r, hr, rfl⟩ := H.mem_requested.mp ht
    rw [H.ref_target hr]
  · obtain ⟨r, hr, rfl⟩ := H.mem_requested.mp ht
    rw [H.ref_target hr]
    exact hfiled r hr
  · obtain ⟨hr, -, -⟩ := honly p k r hget
    refine ⟨(h.requests r).target, H.mem_requested.mpr ⟨r, hr, rfl⟩, (H.ref_target hr).symm, ?_⟩
    rw [H.file_target hr]
    exact hlt r hr
  · obtain ⟨r, hr, rfl⟩ := H.mem_requested.mp ht
    rw [H.ref_target hr, H.file_target hr]
    exact hholds r hr
  · rw [hcompletions]
    exact List.nodup_nil
  · rw [hcompletions]
    constructor
    · intro hmem
      cases hmem
    · rintro ⟨t, ht, rfl, hfull⟩
      obtain ⟨r, hr, rfl⟩ := H.mem_requested.mp ht
      rw [H.file_target hr] at hfull
      have := hlt r hr
      omega

/-- Every request was completed once, with the bytes of its file. -/
theorem delivered (H : Outstanding h requests file) {c : Connection}
    (hold : Holding H.assignment (fun t => (H.assignment.file t).length) c) :
    c.heap.completions.Perm requests ∧
      ∀ r ∈ requests, ∃ b, (c.heap.requests r).buffer = some b ∧
        b.written = file (h.requests r).target := by
  constructor
  · refine (List.perm_ext_iff_of_nodup hold.nodup (List.Nodup.of_map _ H.distinct)).mpr fun r => ?_
    rw [hold.completions]
    constructor
    · rintro ⟨t, ht, rfl, -⟩
      obtain ⟨s, hs, rfl⟩ := H.mem_requested.mp ht
      rwa [H.ref_target hs]
    · intro hr
      exact ⟨(h.requests r).target, H.mem_requested.mpr ⟨r, hr, rfl⟩, (H.ref_target hr).symm, rfl⟩
  · intro r hr
    have ht := H.mem_requested.mpr ⟨r, hr, rfl⟩
    have hfive := Assignment.five_le ht
    have hbuffer := hold.buffer _ ht
    rw [H.ref_target hr] at hbuffer
    rcases hbuffer with ⟨hzero, -⟩ | ⟨b, hb, -, hwritten, -⟩
    · omega
    · refine ⟨b, hb, ?_⟩
      rw [hwritten, List.take_length, H.file_target hr]

/-- A fresh client reads the blocks of the files it asked for to their end, and has them all. -/
theorem feed (H : Outstanding h requests file) {client : Js5Client} (hfresh : client.Fresh)
    (hbuffer : ∀ r ∈ requests, (h.requests r).buffer = none) (hcompletions : h.completions = [])
    (chunks : List (List Byte))
    (hblocks : Blocks (fun t => if t ∈ requests.map (fun r => (h.requests r).target) then file t
      else []) chunks.flatten (fun _ => [])) :
    ∃ c, decoder.feed { state := ⟨client.addAllUnchecked h requests, h⟩, unread := [] } chunks =
        { state := c, unread := [] } ∧ c.client.current = none ∧
      c.client.prefetches = client.prefetches ∧
      Holding H.assignment (fun t => (H.assignment.file t).length) c := by
  have hold : Holding H.assignment (fun _ => 0) ⟨client.addAllUnchecked h requests, h⟩ := by
    refine H.holding hfresh _ (fun r hr => Or.inl ⟨rfl, hbuffer r hr⟩) (fun r hr => ?_)
      (fun _ _ => rfl) hcompletions
    have := (H.served r hr).five_le
    omega
  have hleft : H.assignment.left (fun _ => 0) = H.assignment.file := by
    funext t
    exact List.drop_zero
  obtain ⟨-, -, hcur, hpre⟩ := hfresh.addAllUnchecked h requests
  rw [← hpre]
  refine hold.feed chunks ((ahead_of_none hcur).mpr ?_)
  rw [hleft]
  exact hblocks

end Outstanding

end OpenNXT.CacheDownloader
