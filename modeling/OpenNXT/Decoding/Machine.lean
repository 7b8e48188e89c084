import Mathlib.Data.List.Basic

/-! Machines that read a stream in small steps. A step looks at the unread input only as far as
it consumes it, so what a machine does is independent of how its input was cut. -/
namespace OpenNXT.Decoding

/-- A state, the input left unread, and what was emitted on the way. -/
structure Config (σ β ω : Type) where
  state : σ
  unread : List β
  out : List ω := []

namespace Config
variable {σ β ω : Type}

@[ext] theorem ext {c d : Config σ β ω} (hs : c.state = d.state) (hu : c.unread = d.unread)
    (ho : c.out = d.out) : c = d := by
  cases c; cases d; cases hs; cases hu; cases ho; rfl

/-- Put earlier output in front. -/
def emit (out : List ω) (c : Config σ β ω) : Config σ β ω := { c with out := out ++ c.out }

@[simp] theorem emit_nil (c : Config σ β ω) : c.emit [] = c := rfl

@[simp] theorem emit_emit (o p : List ω) (c : Config σ β ω) :
    (c.emit p).emit o = c.emit (o ++ p) := by
  simp [emit]

@[simp] theorem state_emit (o : List ω) (c : Config σ β ω) : (c.emit o).state = c.state := rfl

@[simp] theorem unread_emit (o : List ω) (c : Config σ β ω) : (c.emit o).unread = c.unread := rfl

@[simp] theorem out_emit (o : List ω) (c : Config σ β ω) : (c.emit o).out = o ++ c.out := rfl

end Config

/-- `step` is `none` where the machine waits for more input. More input never changes a step
that is possible without it, no step gives input back, and every step lowers the weight. -/
structure Machine (σ β ω : Type) where
  step : σ → List β → Option (Config σ β ω)
  weight : σ → List β → ℕ
  step_lt : ∀ {s xs c}, step s xs = some c → weight c.state c.unread < weight s xs
  step_le : ∀ {s xs c}, step s xs = some c → c.unread.length ≤ xs.length
  step_append : ∀ {s xs c} (ys : List β), step s xs = some c →
    step s (xs ++ ys) = some { c with unread := c.unread ++ ys }

namespace Machine
variable {σ β ω : Type} (m : Machine σ β ω)

/-- Step until the machine waits. -/
def run (s : σ) (xs : List β) : Config σ β ω :=
  match _h : m.step s xs with
  | none => { state := s, unread := xs }
  | some c => (run c.state c.unread).emit c.out
termination_by m.weight s xs
decreasing_by exact m.step_lt _h

section Run
variable {m}

theorem run_of_waits {s : σ} {xs : List β} (h : m.step s xs = none) :
    m.run s xs = { state := s, unread := xs } := by
  rw [run]
  split
  · rfl
  · next heq => rw [h] at heq; cases heq

theorem run_of_step {s : σ} {xs : List β} {c : Config σ β ω} (h : m.step s xs = some c) :
    m.run s xs = (m.run c.state c.unread).emit c.out := by
  rw [run]
  split
  · next heq => rw [h] at heq; cases heq
  · next d heq =>
    have hcd : c = d := by rw [h] at heq; exact Option.some.inj heq
    subst d
    rfl

end Run

/-- Induction along the steps of a run. -/
theorem run_induction {motive : σ → List β → Prop}
    (waits : ∀ s xs, m.step s xs = none → motive s xs)
    (step : ∀ s xs c, m.step s xs = some c → motive c.state c.unread → motive s xs)
    (s : σ) (xs : List β) : motive s xs := by
  induction hn : m.weight s xs using Nat.strongRecOn generalizing s xs with
  | _ n ih =>
    cases hs : m.step s xs with
    | none => exact waits s xs hs
    | some c =>
      have hlt := m.step_lt hs
      exact step s xs c hs (ih _ (hn ▸ hlt) _ _ rfl)

/-- A run ends where the machine waits. -/
theorem waits_run (s : σ) (xs : List β) :
    m.step (m.run s xs).state (m.run s xs).unread = none := by
  apply m.run_induction (motive := fun s xs => m.step (m.run s xs).state (m.run s xs).unread = none)
  · intro s xs h
    rw [run_of_waits h]
    exact h
  · intro s xs c h ih
    rw [run_of_step h]
    exact ih

theorem length_run (s : σ) (xs : List β) : (m.run s xs).unread.length ≤ xs.length := by
  apply m.run_induction (motive := fun s xs => (m.run s xs).unread.length ≤ xs.length)
  · intro s xs h
    have hrun := run_of_waits h
    simp [hrun]
  · intro s xs c h ih
    have := m.step_le h
    rw [run_of_step h, Config.unread_emit]
    omega

/-- Running on a longer input is running on its front, then on what that left and the rest. -/
theorem run_append (s : σ) (xs ys : List β) :
    m.run s (xs ++ ys) =
      (m.run (m.run s xs).state ((m.run s xs).unread ++ ys)).emit (m.run s xs).out := by
  apply m.run_induction (motive := fun s xs => m.run s (xs ++ ys) =
    (m.run (m.run s xs).state ((m.run s xs).unread ++ ys)).emit (m.run s xs).out)
  · intro s xs h
    rw [run_of_waits h]
    rfl
  · intro s xs c h ih
    rw [run_of_step h, run_of_step (m.step_append ys h), ih]
    simp

/-- `c` lies on the run from `s` and `xs`. -/
def Reaches (s : σ) (xs : List β) (c : Config σ β ω) : Prop :=
  m.run s xs = (m.run c.state c.unread).emit c.out

section Reaches
variable {m}

theorem Reaches.refl (s : σ) (xs : List β) : m.Reaches s xs { state := s, unread := xs } := by
  unfold Reaches
  rfl

theorem Reaches.of_step {s : σ} {xs : List β} {c : Config σ β ω} (h : m.step s xs = some c) :
    m.Reaches s xs c := run_of_step h

theorem Reaches.trans {s : σ} {xs : List β} {c d : Config σ β ω} (h : m.Reaches s xs c)
    (hd : m.Reaches c.state c.unread d) : m.Reaches s xs (d.emit c.out) := by
  unfold Reaches at *
  rw [h, hd]
  simp

theorem Reaches.run_eq {s : σ} {xs : List β} {c : Config σ β ω} (h : m.Reaches s xs c)
    (hc : m.step c.state c.unread = none) : m.run s xs = c := by
  unfold Reaches at h
  rw [h, run_of_waits hc]
  apply Config.ext <;> simp

end Reaches

end Machine

end OpenNXT.Decoding
