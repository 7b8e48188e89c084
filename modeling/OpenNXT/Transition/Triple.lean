import Mathlib.Data.List.Basic

/-! Pre- and postconditions of programs with a state that outlives their exceptions. -/
namespace OpenNXT.Transition
variable {ε σ α β : Type}

/-- A program returned with `Q` or threw with `E`. -/
def Ends (Q : α → σ → Prop) (E : ε → σ → Prop) : EStateM.Result ε σ α → Prop
  | .ok a s => Q a s
  | .error e s => E e s

def Triple (P : σ → Prop) (x : EStateM ε σ α) (Q : α → σ → Prop) (E : ε → σ → Prop) : Prop :=
  ∀ s, P s → Ends Q E (x.run s)

variable {P P' : σ → Prop} {x : EStateM ε σ α} {Q Q' : α → σ → Prop} {R : β → σ → Prop}
  {E F : ε → σ → Prop}

theorem Triple.returns (h : Triple P x Q fun _ _ => False) {s : σ} (hs : P s) :
    ∃ a t, x.run s = .ok a t ∧ Q a t := by
  have hx := h s hs
  cases hrun : x.run s with
  | ok a t =>
    rw [hrun] at hx
    exact ⟨a, t, rfl, hx⟩
  | error e t =>
    rw [hrun] at hx
    exact hx.elim

theorem Triple.weaken (h : Triple P x Q E) (hp : ∀ s, P' s → P s) (hq : ∀ a s, Q a s → Q' a s) :
    Triple P' x Q' E := by
  intro s hs
  have hx := h s (hp s hs)
  cases hrun : x.run s with
  | ok a t =>
    rw [hrun] at hx
    exact hq a t hx
  | error e t =>
    rw [hrun] at hx
    exact hx

theorem triple_pure {a : α} (h : ∀ s, P s → Q a s) : Triple P (pure a : EStateM ε σ α) Q E := h

theorem triple_throw {e : ε} (h : ∀ s, P s → E e s) : Triple P (throw e : EStateM ε σ α) Q E := h

theorem triple_modify {f : σ → σ} {Q : Unit → σ → Prop} (h : ∀ s, P s → Q () (f s)) :
    Triple P (modify f : EStateM ε σ Unit) Q E := h

theorem triple_bind {f : α → EStateM ε σ β} (hx : Triple P x Q E)
    (hf : ∀ a, Triple (Q a) (f a) R E) : Triple P (x >>= f) R E := by
  intro s hs
  have h := hx s hs
  change Ends R E (EStateM.bind x f s)
  rw [EStateM.bind]
  cases hrun : x s with
  | ok a t =>
    rw [EStateM.run, hrun] at h
    exact hf a t h
  | error e t =>
    rw [EStateM.run, hrun] at h
    exact h

/-- The state that a program reads. -/
theorem triple_get {f : σ → EStateM ε σ β} (h : ∀ s, P s → Triple (fun t => t = s) (f s) R E) :
    Triple P (get >>= f) R E := fun s hs => h s hs s rfl

/-- A handler starts where the exception was thrown. -/
theorem triple_tryCatch {handle : ε → EStateM ε σ α} (hx : Triple P x Q F)
    (hhandle : ∀ e, Triple (F e) (handle e) Q E) : Triple P (tryCatch x handle) Q E := by
  intro s hs
  have h := hx s hs
  change Ends Q E (EStateM.tryCatch x handle s)
  rw [EStateM.tryCatch]
  cases hrun : x s with
  | ok a t =>
    rw [EStateM.run, hrun] at h
    exact h
  | error e t =>
    rw [EStateM.run, hrun] at h
    exact hhandle e t h

/-- An invariant that knows which elements are left. -/
theorem triple_forM {f : α → EStateM ε σ PUnit} {I : List α → σ → Prop} {l : List α}
    (hf : ∀ a rest, Triple (I (a :: rest)) (f a) (fun _ => I rest) E) :
    Triple (I l) (l.forM f) (fun _ => I []) E := by
  induction l with
  | nil => exact triple_pure fun _ hs => hs
  | cons a l ih => exact triple_bind (hf a l) fun _ => ih

end OpenNXT.Transition
