import OpenNXT.Net.Channel
import OpenNXT.Net.Opcode
import OpenNXT.Decoding.Decoder

/-! Framing of incoming game packets. -/
namespace OpenNXT.Net
open Buffer Util Decoding

namespace GamePacketFraming

/-- The opcode and the size are read only in the states that carry them. -/
inductive State
  | readOpcode
  | readSize (opcode size : Word) (negative : size.toInt < 0)
  | readBody (opcode : Word) (size : ℕ)

def mapping (e : Endpoint) : Word → Option Word :=
  if e.channel.side = .client then e.protocol.clientProtSizes else e.protocol.serverProtSizes

def shouldUseLobbyCompatVarByteFallback (e : Endpoint) (opcode : Word) (encodedSize : ℕ) : Bool :=
  if e.channel.side ≠ .client ∨ bootstrapStage e.channel ≠ "social-state" then false
  else opcode = 0 ∧ 4096 < encodedSize

def lobbyCompatClientSizeOverride (e : Endpoint) (opcode : Word) : Option Word :=
  if e.channel.side ≠ .client ∨ bootstrapStage e.channel ≠ "social-state" then none
  else if opcode = 22481 ∨ opcode = 30625 ∨ opcode = 30398 then some (-1)
  else none

def lateWorldCompatClientSizeOverride (e : Endpoint) (opcode : Word) : Option Word :=
  if e.channel.side ≠ .client ∨ bootstrapStage e.channel ≠ "late-default-varps" then none
  else if opcode = 30 then some 4
  else none

def lateWorldCompatUnmappedSizeOverride (e : Endpoint) (opcode : Word) : Option Word :=
  if e.channel.side ≠ .client ∨ bootstrapStage e.channel ≠ "late-default-varps" then none
  else if 128 ≤ opcode.toInt then some (-1)
  else none

def lobbyCompatUnmappedSizeOverride (e : Endpoint) (opcode : Word) : Option Word :=
  if e.channel.side ≠ .client ∨ bootstrapStage e.channel ≠ "social-state" then none
  else if 128 ≤ opcode.toInt then some (-1)
  else none

/-- The size of an opcode; `none` where neither the mapping nor an override has one. -/
def resolveSize (e : Endpoint) (opcode : Word) : Option Word :=
  let compatSizeOverride :=
    (lobbyCompatClientSizeOverride e opcode).or (lateWorldCompatClientSizeOverride e opcode)
  let compatUnmappedSizeOverride :=
    if compatSizeOverride.isNone ∧ (mapping e opcode).isNone then
      (lobbyCompatUnmappedSizeOverride e opcode).or (lateWorldCompatUnmappedSizeOverride e opcode)
    else none
  (compatSizeOverride.or compatUnmappedSizeOverride).or (mapping e opcode)

/-- `if (size >= 0) State.READ_BODY else State.READ_SIZE` -/
def State.ofSize (opcode size : Word) : State :=
  if h : 0 ≤ size.toInt then .readBody opcode size.toNat
  else .readSize opcode size (not_le.mp h)

/-- The handler and the open flag of its channel. -/
structure Framing where
  isaac : ISAACCipher
  state : State := .readOpcode
  droppingLobbySocialClientTraffic : Bool := false
  closed : Bool := false

/-- `none` waits for the second byte of a big opcode. With two bytes, or a small opcode, reading
never underflows. -/
def takeOpcode (isaac : ISAACCipher) (buf : List Byte) :
    Option (Word × ISAACCipher × List Byte) :=
  match buf with
  | [] => none
  | b :: _ => if buf.length < 2 ∧ isBigOpcode isaac b then none else readOpcode isaac buf

/-- The length in front of a body. `none` returns without reading: too few bytes are there, or
fewer than the two the code looks at, an exception that `decode` catches. -/
def takeSize (e : Endpoint) (opcode size : Word) (buf : List Byte) : Option (ℕ × List Byte) :=
  if (buf.length : ℤ) < (-size).toInt then none
  else if size = -1 then
    match buf with
    | [] => none
    | b :: rest => some (b.toNat, rest)
  else match buf with
    | b :: c :: rest =>
      let encodedSize := ofBytes [b, c]
      if shouldUseLobbyCompatVarByteFallback e opcode encodedSize then some (b.toNat, c :: rest)
      else some (encodedSize, rest)
    | _ => none

def takeBody (opcode : Word) (size : ℕ) (buf : List Byte) : Option (OpcodeWithBuffer × List Byte) :=
  if buf.length < size then none
  else some ({ opcode := opcode, buf := { written := buf.take size } }, buf.drop size)

/-- An opcode without a size: enter the drop mode, or close the channel. -/
def unresolved (e : Endpoint) (s : Framing) : Framing :=
  if e.channel.side = .client ∧ bootstrapStage e.channel = "social-state" then
    { s with droppingLobbySocialClientTraffic := true }
  else { s with closed := true }

/-- Where an `if` of the loop body leads: on, or to a `return` out of `decode`. -/
inductive Flow (α : Type)
  | next (a : α)
  | stop (a : α)

def Flow.bind {α : Type} (f : Flow α) (g : α → Flow α) : Flow α :=
  match f with
  | .next a => g a
  | .stop a => .stop a

abbrev Reading := Config Framing Byte OpcodeWithBuffer

def readOpcodeStage (e : Endpoint) (c : Reading) : Flow Reading :=
  match c.state.state with
  | .readOpcode =>
    match takeOpcode c.state.isaac c.unread with
    | none => .stop c
    | some (opcode, isaac, rest) =>
      match resolveSize e opcode with
      | some size =>
        .next { c with state := { c.state with isaac := isaac, state := .ofSize opcode size }, unread := rest }
      | none => .stop { c with state := unresolved e { c.state with isaac := isaac }, unread := [] }
  | _ => .next c

def readSizeStage (e : Endpoint) (c : Reading) : Flow Reading :=
  match c.state.state with
  | .readSize opcode size _ =>
    match takeSize e opcode size c.unread with
    | none => .stop c
    | some (n, rest) =>
      .next { c with state := { c.state with state := .readBody opcode n }, unread := rest }
  | _ => .next c

def readBodyStage (c : Reading) : Flow Reading :=
  match c.state.state with
  | .readBody opcode size =>
    match takeBody opcode size c.unread with
    | none => .stop c
    | some (packet, rest) =>
      .next { state := { c.state with state := .readOpcode }, unread := rest,
              out := c.out ++ [packet] }
  | _ => .next c

/-- The body of the loop. -/
def iteration (e : Endpoint) (c : Reading) : Flow Reading :=
  ((readOpcodeStage e c).bind (readSizeStage e)).bind readBodyStage

section Progress

theorem length_takeOpcode {isaac isaac' : ISAACCipher} {buf rest : List Byte} {opcode : Word}
    (h : takeOpcode isaac buf = some (opcode, isaac', rest)) : rest.length < buf.length := by
  unfold takeOpcode at h
  split at h
  · cases h
  · split_ifs at h
    exact length_readOpcode h

theorem length_takeSize {e : Endpoint} {opcode size : Word} {buf rest : List Byte} {n : ℕ}
    (h : takeSize e opcode size buf = some (n, rest)) : rest.length < buf.length := by
  unfold takeSize at h
  split_ifs at h
  · split at h
    · cases h
    · cases h
      simp
  · split at h
    · simp only at h
      split_ifs at h <;> cases h <;> simp only [List.length_cons] <;> omega
    · cases h

theorem length_takeBody {opcode : Word} {size : ℕ} {buf rest : List Byte} {p : OpcodeWithBuffer}
    (h : takeBody opcode size buf = some (p, rest)) : size ≤ buf.length ∧
      rest.length = buf.length - size := by
  unfold takeBody at h
  split_ifs at h with hlt
  cases h
  exact ⟨not_lt.mp hlt, List.length_drop⟩

/-- Every stage that does something reads a byte, or finishes a body. -/
def weight (s : Framing) (buf : List Byte) : ℕ :=
  2 * buf.length + match s.state with
    | .readOpcode => 0
    | .readSize .. | .readBody .. => 1

theorem weight_le (s : Framing) (buf : List Byte) : weight s buf ≤ 2 * buf.length + 1 := by
  unfold weight
  split <;> omega

theorem readOpcodeStage_next {e : Endpoint} {c d : Reading} (h : readOpcodeStage e c = .next d) :
    (d = c ∧ c.state.state ≠ .readOpcode) ∨
    (c.state.state = .readOpcode ∧ ∃ opcode isaac rest size,
      takeOpcode c.state.isaac c.unread = some (opcode, isaac, rest) ∧
      resolveSize e opcode = some size ∧
      d = { c with
        state := { c.state with isaac := isaac, state := .ofSize opcode size }, unread := rest }) := by
  unfold readOpcodeStage at h
  split at h
  · next hstate =>
    split at h
    · cases h
    · next opcode isaac rest htake =>
      split at h
      · next size hsize =>
        cases h
        exact Or.inr ⟨hstate, opcode, isaac, rest, size, htake, hsize, rfl⟩
      · cases h
  · next hstate =>
    cases h
    exact Or.inl ⟨rfl, hstate⟩

theorem readSizeStage_next {e : Endpoint} {c d : Reading} (h : readSizeStage e c = .next d) :
    (d = c ∧ ∀ opcode size hneg, c.state.state ≠ .readSize opcode size hneg) ∨
    (∃ opcode size hneg n rest, c.state.state = .readSize opcode size hneg ∧
      takeSize e opcode size c.unread = some (n, rest) ∧
      d = { c with state := { c.state with state := .readBody opcode n }, unread := rest }) := by
  unfold readSizeStage at h
  split at h
  · next opcode size hneg hstate =>
    split at h
    · cases h
    · next n rest htake =>
      cases h
      exact Or.inr ⟨opcode, size, hneg, n, rest, hstate, htake, rfl⟩
  · next hstate =>
    cases h
    exact Or.inl ⟨rfl, hstate⟩

theorem readBodyStage_next {c d : Reading} (h : readBodyStage c = .next d) :
    (d = c ∧ ∀ opcode size, c.state.state ≠ .readBody opcode size) ∨
    (∃ opcode size packet rest, c.state.state = .readBody opcode size ∧
      takeBody opcode size c.unread = some (packet, rest) ∧
      d = { state := { c.state with state := .readOpcode }, unread := rest,
            out := c.out ++ [packet] }) := by
  unfold readBodyStage at h
  split at h
  · next opcode size hstate =>
    split at h
    · cases h
    · next packet rest htake =>
      cases h
      exact Or.inr ⟨opcode, size, packet, rest, hstate, htake, rfl⟩
  · next hstate =>
    cases h
    exact Or.inl ⟨rfl, hstate⟩

theorem iteration_next {e : Endpoint} {c d : Reading} (h : iteration e c = .next d) :
    ∃ c₁ c₂, readOpcodeStage e c = .next c₁ ∧ readSizeStage e c₁ = .next c₂ ∧
      readBodyStage c₂ = .next d := by
  unfold iteration at h
  cases h1 : readOpcodeStage e c with
  | stop c₁ => simp [h1, Flow.bind] at h
  | next c₁ =>
    cases h2 : readSizeStage e c₁ with
    | stop c₂ => simp [h1, h2, Flow.bind] at h
    | next c₂ =>
      simp only [h1, h2, Flow.bind] at h
      exact ⟨c₁, c₂, rfl, h2, h⟩

theorem weight_iteration {e : Endpoint} {c d : Reading} (h : iteration e c = .next d) :
    weight d.state d.unread < weight c.state c.unread := by
  obtain ⟨c₁, c₂, h1, h2, h3⟩ := iteration_next h
  have hopcode : weight c₁.state c₁.unread < weight c.state c.unread ∨
      (c₁ = c ∧ c.state.state ≠ .readOpcode) := by
    rcases readOpcodeStage_next h1 with hsame | ⟨hstate, opcode, isaac, rest, size, htake, -, rfl⟩
    · exact Or.inr hsame
    · have := length_takeOpcode htake
      have hle := weight_le { c.state with isaac := isaac, state := .ofSize opcode size } rest
      left
      simp only [weight, hstate] at hle ⊢
      omega
  have hsize : weight c₂.state c₂.unread < weight c₁.state c₁.unread ∨
      (c₂ = c₁ ∧ ∀ opcode size hneg, c₁.state.state ≠ .readSize opcode size hneg) := by
    rcases readSizeStage_next h2 with hsame | ⟨opcode, size, hneg, n, rest, hstate, htake, rfl⟩
    · exact Or.inr hsame
    · have := length_takeSize htake
      left
      simp only [weight, hstate]
      omega
  have hbody : weight d.state d.unread < weight c₂.state c₂.unread ∨
      (d = c₂ ∧ ∀ opcode size, c₂.state.state ≠ .readBody opcode size) := by
    rcases readBodyStage_next h3 with hsame | ⟨opcode, size, packet, rest, hstate, htake, rfl⟩
    · exact Or.inr hsame
    · have := length_takeBody htake
      left
      simp only [weight, hstate]
      omega
  -- One of the three stages applies to the state the pass started in.
  rcases hopcode with h1 | ⟨rfl, hn1⟩ <;> rcases hsize with h2 | ⟨rfl, hn2⟩ <;>
    rcases hbody with h3 | ⟨rfl, hn3⟩ <;> try omega
  cases hstate : d.state.state with
  | readOpcode => exact absurd hstate hn1
  | readSize opcode size hneg => exact absurd hstate (hn2 opcode size hneg)
  | readBody opcode size => exact absurd hstate (hn3 opcode size)

end Progress

/-- `while (buf.isReadable)` -/
def decodeLoop (e : Endpoint) (c : Reading) : Reading :=
  if c.unread = [] then c
  else match _h : iteration e c with
    | .stop d => d
    | .next d => decodeLoop e d
termination_by weight c.state c.unread
decreasing_by exact weight_iteration _h

def decode (e : Endpoint) (s : Framing) (buf : List Byte) : Decoded Framing Byte OpcodeWithBuffer :=
  if s.droppingLobbySocialClientTraffic ∧ e.channel.side = .client then { state := s, unread := [] }
  else { toConfig := decodeLoop e { state := s, unread := buf } }

end GamePacketFraming

end OpenNXT.Net
