import OpenNXT.Net.GamePacketEncoder
import OpenNXT.Net.GamePacketFraming

/-! The stream of game packets: framing does not depend on how its input is cut, and it undoes
the encoder. -/
namespace OpenNXT.Net
open Buffer Util Decoding

namespace GamePacketFraming

/-- After an opcode without a size, whatever follows is dropped. -/
def Swallows (e : Endpoint) (s : Framing) : Prop :=
  s.closed = true ∨ (s.droppingLobbySocialClientTraffic = true ∧ e.channel.side = .client)

instance (e : Endpoint) (s : Framing) : Decidable (Swallows e s) := by
  unfold Swallows
  infer_instance

/-- The handler after an opcode. -/
def resolve (e : Endpoint) (s : Framing) (opcode : Word) : Framing :=
  match resolveSize e opcode with
  | some size => { s with state := .ofSize opcode size }
  | none => unresolved e s

/-- The framing in small steps: an opcode, a length, a body, or one byte to drop. -/
def step (e : Endpoint) (s : Framing) (buf : List Byte) : Option Reading :=
  if Swallows e s then
    match buf with
    | [] => none
    | _ :: rest => some { state := s, unread := rest }
  else match s.state with
    | .readOpcode => (takeOpcode s.isaac buf).map fun (opcode, isaac, rest) =>
        { state := resolve e { s with isaac := isaac } opcode, unread := rest }
    | .readSize opcode size _ => (takeSize e opcode size buf).map fun (n, rest) =>
        { state := { s with state := .readBody opcode n }, unread := rest }
    | .readBody opcode size => (takeBody opcode size buf).map fun (packet, rest) =>
        { state := { s with state := .readOpcode }, unread := rest, out := [packet] }

section Machine

theorem takeOpcode_append {isaac isaac' : ISAACCipher} {buf rest : List Byte} {opcode : Word}
    (h : takeOpcode isaac buf = some (opcode, isaac', rest)) (more : List Byte) :
    takeOpcode isaac (buf ++ more) = some (opcode, isaac', rest ++ more) := by
  unfold takeOpcode at h ⊢
  cases buf with
  | nil => cases h
  | cons b buf =>
    simp only [List.cons_append] at h ⊢
    split_ifs at h with hwait
    have hread := readOpcode_append h more
    rw [List.cons_append] at hread
    rw [if_neg, hread]
    intro hshort
    apply hwait
    constructor
    · have := hshort.1
      simp only [List.length_cons, List.length_append] at this ⊢
      omega
    · exact hshort.2

theorem takeSize_append {e : Endpoint} {opcode size : Word} {buf rest : List Byte} {n : ℕ}
    (h : takeSize e opcode size buf = some (n, rest)) (more : List Byte) :
    takeSize e opcode size (buf ++ more) = some (n, rest ++ more) := by
  unfold takeSize at h ⊢
  split_ifs at h with hwait hone
  · rw [if_neg (by rw [List.length_append]; push_cast; omega), if_pos hone]
    cases buf with
    | nil => cases h
    | cons b buf =>
      cases h
      rfl
  · rw [if_neg (by rw [List.length_append]; push_cast; omega), if_neg hone]
    match buf with
    | [] => cases h
    | [b] => cases h
    | b :: c :: buf =>
      simp only [List.cons_append] at h ⊢
      split_ifs at h ⊢ with hfallback <;> cases h <;> rfl

theorem takeBody_append {opcode : Word} {size : ℕ} {buf rest : List Byte} {p : OpcodeWithBuffer}
    (h : takeBody opcode size buf = some (p, rest)) (more : List Byte) :
    takeBody opcode size (buf ++ more) = some (p, rest ++ more) := by
  unfold takeBody at h ⊢
  split_ifs at h with hwait
  have hle := not_lt.mp hwait
  cases h
  rw [if_neg (by rw [List.length_append]; omega), List.take_append_of_le_length hle,
    List.drop_append_of_le_length hle]

/-- What one step does, by the state it starts in. -/
inductive Steps (e : Endpoint) (s : Framing) (buf : List Byte) : Reading → Prop
  | swallow (b : Byte) (rest : List Byte) (h : Swallows e s) (hbuf : buf = b :: rest) :
      Steps e s buf { state := s, unread := rest }
  | opcode (opcode : Word) (isaac : ISAACCipher) (rest : List Byte) (h : ¬ Swallows e s)
      (hs : s.state = .readOpcode) (ht : takeOpcode s.isaac buf = some (opcode, isaac, rest)) :
      Steps e s buf { state := resolve e { s with isaac := isaac } opcode, unread := rest }
  | size (opcode size : Word) (hneg : size.toInt < 0) (n : ℕ) (rest : List Byte)
      (h : ¬ Swallows e s) (hs : s.state = .readSize opcode size hneg)
      (ht : takeSize e opcode size buf = some (n, rest)) :
      Steps e s buf { state := { s with state := .readBody opcode n }, unread := rest }
  | body (opcode : Word) (size : ℕ) (packet : OpcodeWithBuffer) (rest : List Byte)
      (h : ¬ Swallows e s) (hs : s.state = .readBody opcode size)
      (ht : takeBody opcode size buf = some (packet, rest)) :
      Steps e s buf { state := { s with state := .readOpcode }, unread := rest, out := [packet] }

theorem step_eq_some {e : Endpoint} {s : Framing} {buf : List Byte} {c : Reading} :
    step e s buf = some c ↔ Steps e s buf c := by
  constructor
  · intro h
    unfold step at h
    split_ifs at h with hsw
    · cases buf with
      | nil => cases h
      | cons b rest =>
        cases h
        exact .swallow b rest hsw rfl
    · split at h
      · next hs =>
        obtain ⟨⟨opcode, isaac, rest⟩, ht, rfl⟩ := Option.map_eq_some_iff.mp h
        exact .opcode opcode isaac rest hsw hs ht
      · next opcode size hneg hs =>
        obtain ⟨⟨n, rest⟩, ht, rfl⟩ := Option.map_eq_some_iff.mp h
        exact .size opcode size hneg n rest hsw hs ht
      · next opcode size hs =>
        obtain ⟨⟨packet, rest⟩, ht, rfl⟩ := Option.map_eq_some_iff.mp h
        exact .body opcode size packet rest hsw hs ht
  · intro h
    unfold step
    cases h with
    | swallow b rest hsw hbuf => rw [if_pos hsw, hbuf]
    | opcode opcode isaac rest hsw hs ht =>
      rw [if_neg hsw, hs]
      simp only [ht, Option.map_some]
    | size opcode size hneg n rest hsw hs ht =>
      rw [if_neg hsw, hs]
      simp only [ht, Option.map_some]
    | body opcode size packet rest hsw hs ht =>
      rw [if_neg hsw, hs]
      simp only [ht, Option.map_some]

theorem weight_step {e : Endpoint} {s : Framing} {buf : List Byte} {c : Reading}
    (h : step e s buf = some c) : weight c.state c.unread < weight s buf := by
  cases step_eq_some.mp h with
  | swallow b rest hsw hbuf =>
    subst hbuf
    unfold weight
    simp only [List.length_cons]
    omega
  | opcode opcode isaac rest hsw hs ht =>
    have := length_takeOpcode ht
    have hle := weight_le (resolve e { s with isaac := isaac } opcode) rest
    simp only [weight, hs] at hle ⊢
    omega
  | size opcode size hneg n rest hsw hs ht =>
    have := length_takeSize ht
    simp only [weight, hs]
    omega
  | body opcode size packet rest hsw hs ht =>
    have := length_takeBody ht
    simp only [weight, hs]
    omega

theorem step_append {e : Endpoint} {s : Framing} {buf : List Byte} {c : Reading}
    (more : List Byte) (h : step e s buf = some c) :
    step e s (buf ++ more) = some { c with unread := c.unread ++ more } := by
  rw [step_eq_some] at h ⊢
  cases h with
  | swallow b rest hsw hbuf => exact .swallow b (rest ++ more) hsw (by rw [hbuf]; rfl)
  | opcode opcode isaac rest hsw hs ht =>
    exact .opcode opcode isaac (rest ++ more) hsw hs (takeOpcode_append ht more)
  | size opcode size hneg n rest hsw hs ht =>
    exact .size opcode size hneg n (rest ++ more) hsw hs (takeSize_append ht more)
  | body opcode size packet rest hsw hs ht =>
    exact .body opcode size packet (rest ++ more) hsw hs (takeBody_append ht more)

theorem length_step {e : Endpoint} {s : Framing} {buf : List Byte} {c : Reading}
    (h : step e s buf = some c) : c.unread.length ≤ buf.length := by
  cases step_eq_some.mp h with
  | swallow b rest hsw hbuf => simp [hbuf]
  | opcode opcode isaac rest hsw hs ht => exact (length_takeOpcode ht).le
  | size opcode size hneg n rest hsw hs ht => exact (length_takeSize ht).le
  | body opcode size packet rest hsw hs ht =>
    have := length_takeBody ht
    simp only
    omega

/-- The machine that frames packets. -/
def machine (e : Endpoint) : Machine Framing Byte OpcodeWithBuffer where
  step := step e
  weight := weight
  step_lt := weight_step
  step_le := length_step
  step_append := step_append

end Machine

section Loop
variable {e : Endpoint}

/-- What is left of the machine's run. -/
private def finish (e : Endpoint) (c : Reading) : Reading :=
  ((machine e).run c.state c.unread).emit c.out

private theorem finish_waits {c : Reading} (h : step e c.state c.unread = none) :
    finish e c = c := by
  unfold finish
  rw [Machine.run_of_waits (m := machine e) h]
  apply Config.ext <;> simp

private theorem finish_step {c x : Reading} (h : step e c.state c.unread = some x) :
    finish e c = finish e (x.emit c.out) := by
  unfold finish
  rw [Machine.run_of_step (m := machine e) h]
  simp

/-- In a state that drops its input, all of it goes. -/
theorem run_swallows {s : Framing} (h : Swallows e s) (buf : List Byte) :
    (machine e).run s buf = { state := s, unread := [] } := by
  induction buf with
  | nil =>
    apply Machine.run_of_waits
    change step e s [] = none
    unfold step
    rw [if_pos h]
  | cons b buf ih =>
    have hstep : step e s (b :: buf) = some { state := s, unread := buf } :=
      step_eq_some.mpr (.swallow b buf h rfl)
    rw [Machine.run_of_step (m := machine e) hstep, ih]
    rfl

private theorem swallows_unresolved {s : Framing} : Swallows e (unresolved e s) := by
  unfold Swallows unresolved
  split_ifs with h
  · exact Or.inr ⟨rfl, h.1⟩
  · exact Or.inl rfl

private theorem finish_readOpcodeStage {c : Reading} (h : ¬ Swallows e c.state) :
    match readOpcodeStage e c with
    | .next d => finish e d = finish e c ∧ ¬ Swallows e d.state
    | .stop d => d = finish e c := by
  cases hstage : readOpcodeStage e c with
  | next d =>
    rcases readOpcodeStage_next hstage with ⟨rfl, -⟩ | ⟨hs, opcode, isaac, rest, size, ht, hsize, rfl⟩
    · exact ⟨rfl, h⟩
    · have hstep := step_eq_some.mpr (.opcode opcode isaac rest h hs ht)
      have hfinish := finish_step hstep
      unfold resolve at hfinish
      rw [hsize] at hfinish
      simp only [Config.emit, List.append_nil] at hfinish
      exact ⟨hfinish.symm, h⟩
  | stop d =>
    unfold readOpcodeStage at hstage
    split at hstage
    · next hs =>
      split at hstage
      · next ht =>
        cases hstage
        have hwait : step e c.state c.unread = none := by
          unfold step
          rw [if_neg h, hs]
          simp only [ht, Option.map_none]
        exact (finish_waits hwait).symm
      · next opcode isaac rest ht =>
        split at hstage
        · cases hstage
        · next hsize =>
          cases hstage
          have hstep := step_eq_some.mpr (.opcode opcode isaac rest h hs ht)
          have hrun := Machine.run_of_step (m := machine e) hstep
          have hdrop := run_swallows (swallows_unresolved (e := e)
            (s := { c.state with isaac := isaac })) rest
          simp only [resolve, hsize, hdrop] at hrun
          unfold finish
          rw [hrun]
          simp [Config.emit]
    · cases hstage

private theorem finish_readSizeStage {c : Reading} (h : ¬ Swallows e c.state) :
    match readSizeStage e c with
    | .next d => finish e d = finish e c ∧ ¬ Swallows e d.state
    | .stop d => d = finish e c := by
  cases hstage : readSizeStage e c with
  | next d =>
    rcases readSizeStage_next hstage with ⟨rfl, -⟩ | ⟨opcode, size, hneg, n, rest, hs, ht, rfl⟩
    · exact ⟨rfl, h⟩
    · have hstep := step_eq_some.mpr (.size opcode size hneg n rest h hs ht)
      have hfinish := finish_step hstep
      simp only [Config.emit, List.append_nil] at hfinish
      exact ⟨hfinish.symm, h⟩
  | stop d =>
    unfold readSizeStage at hstage
    split at hstage
    · next hs =>
      split at hstage
      · next ht =>
        cases hstage
        have hwait : step e c.state c.unread = none := by
          unfold step
          rw [if_neg h, hs]
          simp only [ht, Option.map_none]
        exact (finish_waits hwait).symm
      · cases hstage
    · cases hstage

private theorem finish_readBodyStage {c : Reading} (h : ¬ Swallows e c.state) :
    match readBodyStage c with
    | .next d => finish e d = finish e c ∧ ¬ Swallows e d.state
    | .stop d => d = finish e c := by
  cases hstage : readBodyStage c with
  | next d =>
    rcases readBodyStage_next hstage with ⟨rfl, -⟩ | ⟨opcode, size, packet, rest, hs, ht, rfl⟩
    · exact ⟨rfl, h⟩
    · have hstep := step_eq_some.mpr (.body opcode size packet rest h hs ht)
      have hfinish := finish_step hstep
      simp only [Config.emit] at hfinish
      exact ⟨hfinish.symm, h⟩
  | stop d =>
    unfold readBodyStage at hstage
    split at hstage
    · next hs =>
      split at hstage
      · next ht =>
        cases hstage
        have hwait : step e c.state c.unread = none := by
          unfold step
          rw [if_neg h, hs]
          simp only [ht, Option.map_none]
        exact (finish_waits hwait).symm
      · cases hstage
    · cases hstage

/-- One pass through the loop is a stretch of the machine's run. -/
private theorem finish_iteration {c : Reading} (h : ¬ Swallows e c.state) :
    match iteration e c with
    | .next d => finish e d = finish e c ∧ ¬ Swallows e d.state
    | .stop d => d = finish e c := by
  have h1 := finish_readOpcodeStage h
  unfold iteration
  cases hs1 : readOpcodeStage e c with
  | stop c₁ =>
    rw [hs1] at h1
    exact h1
  | next c₁ =>
    rw [hs1] at h1
    have h2 := finish_readSizeStage h1.2
    simp only [Flow.bind]
    cases hs2 : readSizeStage e c₁ with
    | stop c₂ =>
      rw [hs2] at h2
      exact h2.trans h1.1
    | next c₂ =>
      rw [hs2] at h2
      have h3 := finish_readBodyStage h2.2
      simp only
      cases hs3 : readBodyStage c₂ with
      | stop d =>
        rw [hs3] at h3
        exact h3.trans (h2.1.trans h1.1)
      | next d =>
        rw [hs3] at h3
        exact ⟨h3.1.trans (h2.1.trans h1.1), h3.2⟩

/-- A pass that goes on has finished a packet. -/
private theorem state_iteration {c d : Reading} (h : iteration e c = .next d) :
    d.state.state = .readOpcode := by
  obtain ⟨c₁, c₂, h1, h2, h3⟩ := iteration_next h
  rcases readBodyStage_next h3 with ⟨rfl, hbody⟩ | ⟨opcode, size, packet, rest, -, -, rfl⟩
  · rcases readSizeStage_next h2 with ⟨rfl, hsize⟩ | ⟨opcode, size, hneg, n, rest, -, -, rfl⟩
    · cases hstate : d.state.state with
      | readOpcode => rfl
      | readSize opcode size hneg => exact absurd hstate (hsize opcode size hneg)
      | readBody opcode size => exact absurd hstate (hbody opcode size)
    · exact absurd rfl (hbody opcode n)
  · rfl

private theorem step_nil_of_readOpcode {s : Framing} (hs : s.state = .readOpcode) :
    step e s [] = none := by
  unfold step
  split_ifs
  · rfl
  · rw [hs]
    rfl

theorem decodeLoop_eq_run (c : Reading) (h : ¬ Swallows e c.state)
    (hwaits : c.unread = [] → step e c.state [] = none) :
    decodeLoop e c = ((machine e).run c.state c.unread).emit c.out := by
  change decodeLoop e c = finish e c
  induction hn : weight c.state c.unread using Nat.strongRecOn generalizing c with
  | _ n ih =>
    rw [decodeLoop]
    split_ifs with hnil
    · have hw := hwaits hnil
      rw [← hnil] at hw
      exact (finish_waits hw).symm
    · have hpass := finish_iteration h
      split
      · next d hd =>
        rw [hd] at hpass
        exact hpass
      · next d hd =>
        rw [hd] at hpass
        have hlt := weight_iteration hd
        rw [← hpass.1]
        exact ih _ (hn ▸ hlt) d hpass.2 (fun _ => step_nil_of_readOpcode (state_iteration hd)) rfl

end Loop

section Decoder

/-- In a state that waits for input, every step reads some. -/
private theorem length_step_lt {e : Endpoint} {s : Framing} {buf : List Byte} {c : Reading}
    (hwaits : step e s [] = none) (h : step e s buf = some c) : c.unread.length < buf.length := by
  cases step_eq_some.mp h with
  | swallow b rest hsw hbuf => simp [hbuf]
  | opcode opcode isaac rest hsw hs ht => exact length_takeOpcode ht
  | size opcode size hneg n rest hsw hs ht => exact length_takeSize ht
  | body opcode size packet rest hsw hs ht =>
    have hlen := length_takeBody ht
    have hpos : 0 < size := by
      rcases Nat.eq_zero_or_pos size with rfl | hpos
      · have hbody : takeBody opcode 0 [] = some (⟨opcode, ⟨[], 0⟩⟩, []) := rfl
        have hfree := step_eq_some.mpr (.body opcode 0 _ _ hsw hs hbody)
        rw [hwaits] at hfree
        cases hfree
      · exact hpos
    simp only
    omega

/-- The reading a stage leads to. -/
private def Flow.result {α : Type} : Flow α → α
  | .next a => a
  | .stop a => a

private theorem length_readOpcodeStage (e : Endpoint) (c : Reading) :
    (readOpcodeStage e c).result.unread.length ≤ c.unread.length := by
  unfold readOpcodeStage
  split
  · split
    · exact le_rfl
    · next ht =>
      split
      · exact (length_takeOpcode ht).le
      · exact Nat.zero_le _
  · exact le_rfl

private theorem length_readSizeStage (e : Endpoint) (c : Reading) :
    (readSizeStage e c).result.unread.length ≤ c.unread.length := by
  unfold readSizeStage
  split
  · split
    · exact le_rfl
    · next ht => exact (length_takeSize ht).le
  · exact le_rfl

private theorem length_readBodyStage (c : Reading) :
    (readBodyStage c).result.unread.length ≤ c.unread.length := by
  unfold readBodyStage
  split
  · split
    · exact le_rfl
    · next ht =>
      have := length_takeBody ht
      simp only [Flow.result]
      omega
  · exact le_rfl

private theorem length_bind {f : Flow Reading} {g : Reading → Flow Reading} {n : ℕ}
    (hf : f.result.unread.length ≤ n) (hg : ∀ d, (g d).result.unread.length ≤ d.unread.length) :
    (f.bind g).result.unread.length ≤ n := by
  cases f with
  | next d => exact (hg d).trans hf
  | stop d => exact hf

private theorem length_iteration (e : Endpoint) (c : Reading) :
    (iteration e c).result.unread.length ≤ c.unread.length :=
  length_bind (length_bind (length_readOpcodeStage e c) (length_readSizeStage e))
    length_readBodyStage

private theorem length_decodeLoop (e : Endpoint) (c : Reading) :
    (decodeLoop e c).unread.length ≤ c.unread.length := by
  induction hn : weight c.state c.unread using Nat.strongRecOn generalizing c with
  | _ n ih =>
    have hpass := length_iteration e c
    rw [decodeLoop]
    split_ifs
    · exact le_rfl
    · split
      · next d hd =>
        rw [hd] at hpass
        exact hpass
      · next d hd =>
        rw [hd] at hpass
        have hlt := weight_iteration hd
        exact (ih _ (hn ▸ hlt) d rfl).trans hpass

/-- The framing handler in its pipeline. -/
def decoder (e : Endpoint) : Decoder Framing Byte OpcodeWithBuffer where
  decode := decode e
  exceptionCaught s := s
  isOpen s := !s.closed
  decode_le s buf := by
    unfold decode
    split_ifs
    · exact Nat.zero_le _
    · exact length_decodeLoop e _

theorem decoder_implements (e : Endpoint) :
    (decoder e).Implements (machine e) (fun s => step e s [] = none) (fun _ _ => False) := by
  apply Decoder.Implements.of_run
  · intro s buf hwaits hopen hbuf
    have hclosed : s.closed = false := by
      change (!s.closed) = true at hopen
      simpa using hopen
    change decode e s buf = _
    unfold decode
    split_ifs with hdrop
    · have hswallows : Swallows e s := Or.inr hdrop
      rw [run_swallows hswallows]
    · have hlive : ¬ Swallows e s := by
        unfold Swallows
        rw [hclosed]
        simpa using hdrop
      rw [decodeLoop_eq_run { state := s, unread := buf } hlive fun _ => hwaits]
      rfl
  · intro s buf c hwaits hstep
    exact length_step_lt hwaits hstep
  · intro s buf hclosed
    apply run_swallows
    left
    change (!s.closed) = false at hclosed
    simpa using hclosed

end Decoder

/-- A channel before its first byte, with a cipher from any seed. -/
def fresh (isaac : ISAACCipher) : Reading := { state := { isaac := isaac }, unread := [] }

theorem feed_fresh (e : Endpoint) (isaac : ISAACCipher) (chunks : List (List Byte)) :
    (decoder e).feed (fresh isaac) chunks = (machine e).run { isaac := isaac } chunks.flatten := by
  have hwaits : step e { isaac := isaac } [] = none := step_nil_of_readOpcode rfl
  have hrun := (decoder_implements e).feed_eq_run chunks (fresh isaac) hwaits hwaits
    (fun _ => rfl) fun h => h.elim
  rw [hrun]
  rfl

/-- However a stream is cut into chunks, the same packets are emitted in the same order, and the
same channels are closed and dropped. -/
theorem feed_eq_of_flatten_eq (e : Endpoint) (isaac : ISAACCipher)
    (chunks chunks' : List (List Byte)) (h : chunks.flatten = chunks'.flatten) :
    let read := (decoder e).feed (fresh isaac) chunks
    let read' := (decoder e).feed (fresh isaac) chunks'
    read.out = read'.out ∧ read.state.closed = read'.state.closed ∧
      read.state.droppingLobbySocialClientTraffic =
        read'.state.droppingLobbySocialClientTraffic ∧
      read = read' := by
  have heq : (decoder e).feed (fresh isaac) chunks = (decoder e).feed (fresh isaac) chunks' := by
    rw [feed_fresh, feed_fresh, h]
  refine ⟨?_, ?_, ?_, heq⟩ <;> rw [heq]

/-- A server that reads from a client whose opcode 7 has two bytes. -/
def sampleEndpoint : Endpoint where
  protocol := { clientProtSizes := fun opcode => if opcode = 7 then some 2 else none
                serverProtSizes := fun _ => none }
  channel := { side := .client }
  build := 947

theorem feed_eq_of_flatten_eq_sample :
    let read := (decoder sampleEndpoint).feed (fresh {}) [[1], [2, 3]]
    let read' := (decoder sampleEndpoint).feed (fresh {}) [[1, 2], [3]]
    read.out = read'.out ∧ read.state.closed = read'.state.closed ∧
      read.state.droppingLobbySocialClientTraffic =
        read'.state.droppingLobbySocialClientTraffic ∧
      read = read' :=
  feed_eq_of_flatten_eq sampleEndpoint {} [[1], [2, 3]] [[1, 2], [3]] rfl

end GamePacketFraming

section RoundTrip
open GamePacketFraming GamePacketEncoder

/-- The sizes a protocol file can hold: fifteen-bit opcodes, of a fixed size or with a length. -/
def WellSized (sizes : Word → Option Word) : Prop :=
  ∀ opcode size, sizes opcode = some size →
    IsOpcode opcode ∧ (0 ≤ size.toInt ∨ size = -1 ∨ size = -2)

/-- The two ends of a connection: each sees the other as its remote side. -/
structure Connected (sender receiver : Endpoint) : Prop where
  protocol : sender.protocol = receiver.protocol
  side : sender.channel.side ≠ receiver.channel.side
  sizes : WellSized (GamePacketFraming.mapping receiver)

/-- No bootstrap stage changes a size at either end. -/
structure NoOverride (sender receiver : Endpoint) : Prop where
  server : ∀ opcode, lobbyCompatServerSizeOverride sender opcode = none
  lobby : ∀ opcode, lobbyCompatClientSizeOverride receiver opcode = none
  lateWorld : ∀ opcode, lateWorldCompatClientSizeOverride receiver opcode = none
  fallback : ∀ opcode n, shouldUseLobbyCompatVarByteFallback receiver opcode n = false

theorem Connected.mapping_eq {sender receiver : Endpoint} (h : Connected sender receiver) :
    GamePacketEncoder.mapping sender = GamePacketFraming.mapping receiver := by
  unfold GamePacketEncoder.mapping GamePacketFraming.mapping
  have hside := h.side
  rw [h.protocol]
  cases hs : sender.channel.side <;> cases hr : receiver.channel.side <;> simp_all

private theorem resolveSize_eq {sender receiver : Endpoint} (h : NoOverride sender receiver)
    {opcode size : Word} (hm : GamePacketFraming.mapping receiver opcode = some size) :
    resolveSize receiver opcode = some size := by
  unfold resolveSize
  simp [h.lobby, h.lateWorld, hm]

private theorem takeOpcode_writeOpcode (isaac : ISAACCipher) (opcode : Word) (h : IsOpcode opcode)
    (rest : List Byte) :
    takeOpcode isaac ((writeOpcode isaac opcode).1 ++ rest) =
      some (opcode, (writeOpcode isaac opcode).2, rest) := by
  have hread := readOpcode_writeOpcode isaac opcode h rest
  unfold takeOpcode
  cases hbuf : (writeOpcode isaac opcode).1 ++ rest with
  | nil =>
    rw [hbuf] at hread
    cases hread
  | cons b buf =>
    rw [hbuf] at hread
    simp only
    rw [if_neg, hread]
    rintro ⟨hshort, hbig⟩
    have hnil : buf = [] := by
      rw [List.length_cons] at hshort
      exact List.length_eq_zero_iff.mp (by omega)
    have hnot := (isBigOpcode_iff isaac b).mp hbig
    subst hnil
    simp only [readOpcode] at hread
    rw [if_neg hnot] at hread
    cases hread

private theorem takeBody_payload (opcode : Word) (payload rest : List Byte) :
    takeBody opcode payload.length (payload ++ rest) =
      some ({ opcode := opcode, buf := { written := payload } }, rest) := by
  unfold takeBody
  rw [if_neg (by rw [List.length_append]; omega), List.take_left, List.drop_left]

private theorem toNat_of_toInt_eq {size : Word} {n : ℕ} (h : size.toInt = n) : size.toNat = n := by
  rw [BitVec.toInt_eq_toNat_cond] at h
  split at h <;> omega

private theorem takeSize_writeLength {receiver : Endpoint} (opcode : Word) {size : Word} {n : ℕ}
    (hf : ∀ opcode n, shouldUseLobbyCompatVarByteFallback receiver opcode n = false)
    (hsize : size = -1 ∧ n < 255 ∨ size = -2 ∧ n < 65535) (rest : List Byte) :
    takeSize receiver opcode size (writeLength size n ++ rest) = some (n, rest) := by
  unfold takeSize writeLength
  rcases hsize with ⟨rfl, hn⟩ | ⟨rfl, hn⟩
  · have hneg : (-(-1 : Word)).toInt = 1 := by decide
    have hbyte : (BitVec.ofNat 8 n).toNat = n := by
      rw [BitVec.toNat_ofNat]
      omega
    rw [if_pos rfl, if_neg, if_pos rfl]
    · simp only [List.cons_append, List.nil_append, hbyte]
    · simp only [List.cons_append, List.nil_append, List.length_cons, hneg]
      push_cast
      omega
  · have hneg : (-(-2 : Word)).toInt = 2 := by decide
    have hne : ¬ (-2 : Word) = -1 := by decide
    have hshort : (BitVec.ofNat 16 n).toNat = n := by
      rw [BitVec.toNat_ofNat]
      omega
    have hbytes : putShort (BitVec.ofNat 16 n) = [BitVec.ofNat 8 ((BitVec.ofNat 16 n).toNat / 256),
        BitVec.ofNat 8 (BitVec.ofNat 16 n).toNat] := by
      simp [putWord, toBytes]
    have hspell := ofBytes_putWord 2 (BitVec.ofNat 16 n)
    change ofBytes (putShort (BitVec.ofNat 16 n)) = _ at hspell
    rw [if_neg hne, if_pos rfl, if_neg, if_neg hne]
    · rw [hbytes] at hspell ⊢
      simp only [List.cons_append, List.nil_append, hf, Bool.false_eq_true, if_false]
      rw [hspell, hshort]
    · rw [List.length_append, length_putWord, hneg]
      push_cast
      omega

private theorem encode_eq_some {sender : Endpoint} {isaac isaac' : ISAACCipher}
    {msg : OpcodeWithBuffer} {bytes : List Byte}
    (ho : ∀ opcode, lobbyCompatServerSizeOverride sender opcode = none)
    (h : encode sender isaac msg = some (bytes, isaac')) :
    ∃ size, GamePacketEncoder.mapping sender msg.opcode = some size ∧
      ¬ (size = -1 ∧ 255 ≤ msg.buf.writerIndex) ∧ ¬ (size = -2 ∧ 65535 ≤ msg.buf.writerIndex) ∧
      ¬ (0 ≤ size.toInt ∧ size.toInt ≠ msg.buf.writerIndex) ∧
      bytes = (writeOpcode isaac msg.opcode).1 ++ writeLength size msg.buf.writerIndex ++
        msg.buf.readable ∧
      isaac' = (writeOpcode isaac msg.opcode).2 := by
  unfold encode at h
  split at h
  · cases h
  · next size hm =>
    rw [ho, Option.getD_none] at h
    simp only at h
    split_ifs at h with h1 h2 h3
    cases h
    exact ⟨size, hm, h1, h2, h3, rfl, rfl⟩

/-- The machine reads one encoded message in front of anything. -/
private theorem reaches_message {sender receiver : Endpoint} (hc : Connected sender receiver)
    (ho : NoOverride sender receiver) {isaac isaac' : ISAACCipher} {msg : OpcodeWithBuffer}
    {bytes : List Byte} (hr : msg.buf.readerIndex = 0)
    (h : encode sender isaac msg = some (bytes, isaac')) (rest : List Byte) :
    (machine receiver).Reaches { isaac := isaac } (bytes ++ rest)
      { state := { isaac := isaac' }, unread := rest, out := [msg] } := by
  obtain ⟨size, hm, hbyte, hshort, hfixed, rfl, rfl⟩ := encode_eq_some ho.server h
  have hpayload : msg.buf.readable = msg.buf.written := by rw [ByteBuf.readable, hr, List.drop_zero]
  have hmsg : ({ opcode := msg.opcode, buf := { written := msg.buf.written } } : OpcodeWithBuffer) =
      msg := by
    obtain ⟨opcode, written, readerIndex⟩ := msg
    cases hr
    rfl
  rw [hc.mapping_eq] at hm
  obtain ⟨hopcode, hrange⟩ := hc.sizes _ _ hm
  have hlive : ∀ s : Framing, s.closed = false → s.droppingLobbySocialClientTraffic = false →
      ¬ Swallows receiver s := by
    intro s h1 h2
    simp [Swallows, h1, h2]
  rw [hpayload, List.append_assoc, List.append_assoc]
  have htake := takeOpcode_writeOpcode isaac msg.opcode hopcode
    (writeLength size msg.buf.writerIndex ++ (msg.buf.written ++ rest))
  have h1 := Machine.Reaches.of_step (m := machine receiver) (step_eq_some.mpr
    (.opcode _ _ _ (hlive { isaac := isaac } rfl rfl) rfl htake))
  have hresolve : ∀ s, resolve receiver s msg.opcode =
      { s with state := .ofSize msg.opcode size } := by
    intro s
    unfold resolve
    rw [resolveSize_eq ho hm]
  rw [hresolve] at h1
  have hbody : ∀ n, n = msg.buf.written.length → (machine receiver).Reaches
      { isaac := (writeOpcode isaac msg.opcode).2, state := .readBody msg.opcode n }
      (msg.buf.written ++ rest)
      { state := { isaac := (writeOpcode isaac msg.opcode).2 }, unread := rest, out := [msg] } := by
    rintro n rfl
    have htake := takeBody_payload msg.opcode msg.buf.written rest
    rw [hmsg] at htake
    have hstep := step_eq_some.mpr (.body _ _ _ _ (hlive
      { isaac := (writeOpcode isaac msg.opcode).2
        state := .readBody msg.opcode msg.buf.written.length } rfl rfl) rfl htake)
    exact Machine.Reaches.of_step (m := machine receiver) hstep
  by_cases hsize : 0 ≤ size.toInt
  · have hlen : size.toInt = msg.buf.written.length := by
      by_contra hne
      exact hfixed ⟨hsize, hne⟩
    have hnone : writeLength size msg.buf.writerIndex = [] := by
      unfold writeLength
      rw [if_neg, if_neg]
      · rintro rfl
        exact absurd hsize (by decide)
      · rintro rfl
        exact absurd hsize (by decide)
    unfold State.ofSize at h1
    rw [dif_pos hsize] at h1
    rw [hnone] at h1 ⊢
    exact h1.trans (hbody _ (toNat_of_toInt_eq hlen))
  · have hrange : size = -1 ∧ msg.buf.writerIndex < 255 ∨
        size = -2 ∧ msg.buf.writerIndex < 65535 := by
      rcases hrange with h | h | h
      · exact absurd h hsize
      · exact Or.inl ⟨h, not_le.mp fun hle => hbyte ⟨h, hle⟩⟩
      · exact Or.inr ⟨h, not_le.mp fun hle => hshort ⟨h, hle⟩⟩
    have hlength := takeSize_writeLength msg.opcode ho.fallback hrange
      (msg.buf.written ++ rest)
    unfold State.ofSize at h1
    rw [dif_neg hsize] at h1
    have h2 := Machine.Reaches.of_step (m := machine receiver) (step_eq_some.mpr
      (.size _ _ (not_le.mp hsize) _ _ (hlive
        { isaac := (writeOpcode isaac msg.opcode).2
          state := .readSize msg.opcode size (not_le.mp hsize) } rfl rfl) rfl hlength))
    exact h1.trans (h2.trans (hbody _ rfl))

theorem run_encodeAll {sender receiver : Endpoint} (hc : Connected sender receiver)
    (ho : NoOverride sender receiver) (msgs : List OpcodeWithBuffer)
    (hr : ∀ msg ∈ msgs, msg.buf.readerIndex = 0) (isaac isaac' : ISAACCipher) (bytes : List Byte)
    (h : encodeAll sender isaac msgs = some (bytes, isaac')) :
    (machine receiver).run { isaac := isaac } bytes =
      { state := { isaac := isaac' }, unread := [], out := msgs } := by
  induction msgs generalizing isaac bytes with
  | nil =>
    cases h
    have hwaits : step receiver { isaac := isaac' } [] = none := step_nil_of_readOpcode rfl
    exact Machine.run_of_waits (m := machine receiver) hwaits
  | cons msg msgs ih =>
    rw [encodeAll] at h
    obtain ⟨⟨first, isaac₁⟩, hfirst, h⟩ := Option.bind_eq_some_iff.mp h
    obtain ⟨⟨rest, isaac₂⟩, hrest, h⟩ := Option.bind_eq_some_iff.mp h
    cases h
    have hmsg := reaches_message hc ho (hr msg List.mem_cons_self) hfirst rest
    have htail := ih (fun m hm => hr m (List.mem_cons_of_mem _ hm)) isaac₁ rest hrest
    unfold Machine.Reaches at hmsg
    rw [hmsg, htail]
    rfl

/-- Feeding an encoder's output to the framing on the other side emits the encoded messages,
however it is cut. No byte is left, and the two ciphers end in the same state. -/
theorem feed_encodeAll (sender receiver : Endpoint) (hc : Connected sender receiver)
    (ho : NoOverride sender receiver) (msgs : List OpcodeWithBuffer)
    (hr : ∀ msg ∈ msgs, msg.buf.readerIndex = 0) (isaac isaac' : ISAACCipher) (bytes : List Byte)
    (h : encodeAll sender isaac msgs = some (bytes, isaac')) (chunks : List (List Byte))
    (hchunks : chunks.flatten = bytes) :
    (decoder receiver).feed (fresh isaac) chunks =
      { state := { isaac := isaac' }, unread := [], out := msgs } := by
  rw [feed_fresh, hchunks]
  exact run_encodeAll hc ho msgs hr isaac isaac' bytes h

/-- The client that writes to `sampleEndpoint`. -/
def samplePeer : Endpoint := { sampleEndpoint with channel := { side := .server } }

def samplePacket : OpcodeWithBuffer where
  opcode := 7
  buf := { written := [1, 2] }

theorem feed_encodeAll_sample :
    (decoder sampleEndpoint).feed (fresh { count := 256 }) [[7, 1], [2]] =
      { state := { isaac := { count := 255 } }, unread := [], out := [samplePacket] } := by
  refine feed_encodeAll samplePeer sampleEndpoint ?_ ?_ _ ?_ _ _ [7, 1, 2] ?_ _ ?_
  · constructor
    · rfl
    · decide
    · intro opcode size h
      change (if opcode = 7 then some (2 : Word) else none) = some size at h
      split_ifs at h with h7
      cases h
      subst h7
      exact ⟨by unfold IsOpcode; decide, Or.inl (by decide)⟩
  · constructor <;> intros <;> rfl
  · intro msg hmsg
    rw [List.mem_singleton.mp hmsg]
    rfl
  · rfl
  · rfl

end RoundTrip

end OpenNXT.Net
