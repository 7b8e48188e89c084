import Mathlib.Logic.Relation

/-! What holds in every state that a step relation leads to. -/
namespace OpenNXT.Transition
variable {α : Type}

/-- Every state that is reached from `a` is a good one. -/
def Always (r : α → α → Prop) (Good : α → Prop) (a : α) : Prop :=
  ∀ b, Relation.ReflTransGen r a b → Good b

namespace Always
variable {r : α → α → Prop} {Good : α → Prop} {a b : α}

theorem steps (h : Always r Good a) (hab : Relation.ReflTransGen r a b) : Always r Good b :=
  fun c hbc => h c (hab.trans hbc)

theorem step (h : Always r Good a) (hab : r a b) : Always r Good b := h.steps (.single hab)

end Always
end OpenNXT.Transition
