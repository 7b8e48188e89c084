import OpenNXT.Buffer.BigEndian

/-! Values written as a stream of opcodes, each followed by its fields; opcode zero ends it. -/
namespace OpenNXT.Buffer

/-- The loop that reads such a stream. Without a zero the end of the buffer ends it. -/
def readOpcodes {α : Type} (step : Byte → α → Reader α) : ℕ → α → List Byte → Option α
  | _, d, [] => some d
  | 0, _, _ :: _ => none
  | n + 1, d, opcode :: buffer =>
    if opcode = 0 then some d
    else (step opcode d buffer).bind fun p => readOpcodes step n p.1 p.2

/-- Opcodes and fields that take one value to another, up to the zero. -/
inductive Stream {α : Type} (step : Byte → α → Reader α) : List Byte → α → α → Prop
  | stop (d : α) : Stream step [0] d d
  | entry {opcode : Byte} {fields rest : List Byte} {d d' d'' : α} (hne : opcode ≠ 0)
      (hread : Reads (step opcode d) fields d') (hrest : Stream step rest d' d'') :
      Stream step (opcode :: (fields ++ rest)) d d''

section
variable {α : Type} {step : Byte → α → Reader α}

/-- A stream is read to its end, and no further. -/
theorem Stream.read {bs : List Byte} {d d' : α} (h : Stream step bs d d') {n : ℕ}
    (hn : bs.length ≤ n) (rest : List Byte) : readOpcodes step n d (bs ++ rest) = some d' := by
  induction h generalizing n with
  | stop d =>
    cases n with
    | zero => cases hn
    | succ n => rfl
  | @entry opcode fields more d d' d'' hne hread hrest ih =>
    rw [List.length_cons, List.length_append] at hn
    cases n with
    | zero => cases hn
    | succ n =>
      rw [List.cons_append, readOpcodes, if_neg hne, List.append_assoc, hread (more ++ rest),
        Option.bind_some]
      exact ih (by omega)

/-- A part that is there only where it says something. -/
theorem Stream.optional {opcode : Byte} {fields rest : List Byte} {d d' d'' : α} {present : Prop}
    [Decidable present] (hne : opcode ≠ 0) (hread : present → Reads (step opcode d) fields d')
    (hskip : ¬ present → d' = d) (hrest : Stream step rest d' d'') :
    Stream step ((if present then opcode :: fields else []) ++ rest) d d'' := by
  split_ifs with h
  · exact Stream.entry hne (hread h) hrest
  · rw [List.nil_append, ← hskip h]
    exact hrest

/-- Fields are read from the front of what remains. -/
def Shrinks (step : Byte → α → Reader α) : Prop :=
  ∀ opcode d bs d' rest, step opcode d bs = some (d', rest) → rest.length ≤ bs.length

/-- As many rounds as bytes are enough. -/
theorem readOpcodes_eq (hstep : Shrinks step) {d : α} {bs : List Byte} {m n : ℕ}
    (hm : bs.length ≤ m) (hn : bs.length ≤ n) : readOpcodes step m d bs = readOpcodes step n d bs := by
  induction m generalizing n d bs with
  | zero =>
    cases bs with
    | nil => cases n <;> rfl
    | cons opcode bs => cases hm
  | succ m ih =>
    cases bs with
    | nil => cases n <;> rfl
    | cons opcode bs =>
      cases n with
      | zero => cases hn
      | succ n =>
        rw [List.length_cons] at hm hn
        rw [readOpcodes, readOpcodes]
        split_ifs with hzero
        · rfl
        · cases hread : step opcode d bs with
          | none => rfl
          | some p =>
            have hlen := hstep opcode d bs p.1 p.2 hread
            exact ih (by omega) (by omega)

end

end OpenNXT.Buffer
