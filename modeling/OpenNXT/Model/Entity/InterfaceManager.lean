import OpenNXT.Data.Forest
import OpenNXT.Model.InterfaceHash

/-! The interfaces that a client has open, each on a component of another one. -/
namespace OpenNXT.Model
open Buffer Data

inductive InterfacePacket
  | ifOpenTop (id : ℤ)
  | ifOpenSub (id : ℤ) (walkable : Bool) (parent : InterfaceHash)
  | ifCloseSub (parent : InterfaceHash)

/-- The component of an interface, both of them `Int`s. -/
def InterfaceHash.of (parent component : ℤ) : InterfaceHash :=
  .ofParts (BitVec.ofInt 32 parent) (BitVec.ofInt 32 component)

/-- The objects that have been made, each with the interfaces on its components, and the packets
that have been written. -/
structure OpenedInterfaces (size : ℕ) where
  id : ℕ → ℤ := fun _ => 0
  walkable : ℕ → Bool := fun _ => false
  children : Forest ℤ size := .empty
  written : List InterfacePacket := []

namespace OpenedInterfaces
variable {size : ℕ}

/-- The first interface with the id. -/
def findChild (t : OpenedInterfaces size) (order : MapOrder ℤ) (r : ℕ) (id : ℤ) : Option ℕ :=
  t.children.find order (fun q => t.id q = id) r

def close (t : OpenedInterfaces size) (order : MapOrder ℤ) (root : ℕ) (id component : ℤ) :
    OpenedInterfaces size :=
  match t.findChild order root id with
  | none => t
  | some base =>
    if ((t.children.children base).get? component).isSome then
      { t with
        children := t.children.erase base component
        written := t.written ++ [.ifCloseSub (.of id component)] }
    else t

/-- The closing of a modal, as a walk comes to it. -/
def closeAt (t : OpenedInterfaces size) (order : MapOrder ℤ) (root : ℕ) (e : ℕ × ℤ) :
    OpenedInterfaces size :=
  t.close order root (t.id e.1) e.2

/-- Walkable interfaces are gone through, the others closed. -/
def closeModals (t : OpenedInterfaces size) (order : MapOrder ℤ) (root : ℕ) :
    OpenedInterfaces size :=
  Forest.walk children order t.walkable
    (fun r component t => t.closeAt order root (r, component)) root t

/-- A new interface, without components. -/
def new (t : OpenedInterfaces size) (id : ℤ) (walkable : Bool) : OpenedInterfaces (size + 1) where
  id := Function.update t.id size id
  walkable := Function.update t.walkable size walkable
  children := t.children.grow
  written := t.written

end OpenedInterfaces

/-- The root is one of the objects. -/
structure InterfaceManager where
  size : ℕ
  interfaces : OpenedInterfaces size
  root : Option ℕ
  root_lt : ∀ r, root = some r → r < size

namespace InterfaceManager

def empty : InterfaceManager where
  size := 0
  interfaces := {}
  root := none
  root_lt _ h := nomatch h

theorem size_lt_of_some {size r : ℕ} (h : some size = some r) : r < size + 1 :=
  Option.some.inj h ▸ Nat.lt_succ_self size

def openTop (m : InterfaceManager) (id : ℤ) : InterfaceManager where
  size := m.size + 1
  interfaces := { m.interfaces.new id true with
    written := m.interfaces.written ++ [.ifOpenTop id] }
  root := some m.size
  root_lt _ := size_lt_of_some

/-- A new interface on the component of another one. -/
def openOn (m : InterfaceManager) (base : ℕ) (hbase : base < m.size) (id parentId component : ℤ)
    (walkable : Bool) : InterfaceManager where
  size := m.size + 1
  interfaces := { m.interfaces.new id walkable with
    children := m.interfaces.children.graft base component hbase
    written := m.interfaces.written ++ [.ifOpenSub id walkable (.of parentId component)] }
  root := m.root
  root_lt r hr := Nat.lt_succ_of_lt (m.root_lt r hr)

theorem findChild_lt {m : InterfaceManager} {order : MapOrder ℤ} {root r : ℕ} {id : ℤ}
    (hroot : m.root = some root) (h : m.interfaces.findChild order root id = some r) :
    r < m.size :=
  Forest.find_lt (m.root_lt root hroot) h

/-- `none` is an exception: there is no root, or no interface with the id of the parent, which -1
makes that of the root. -/
def openSub (m : InterfaceManager) (order : MapOrder ℤ) (id parent component : ℤ)
    (walkable : Bool) : Option InterfaceManager :=
  match hroot : m.root with
  | none => none
  | some root =>
    let parentId := if parent = -1 then m.interfaces.id root else parent
    match h : m.interfaces.findChild order root parentId with
    | none => none
    | some base => some (m.openOn base (findChild_lt hroot h) id parentId component walkable)

def close (m : InterfaceManager) (order : MapOrder ℤ) (id component : ℤ) : InterfaceManager :=
  match m.root with
  | none => m
  | some root => { m with interfaces := m.interfaces.close order root id component }

def closeModals (m : InterfaceManager) (order : MapOrder ℤ) : InterfaceManager :=
  match m.root with
  | none => m
  | some root => { m with interfaces := m.interfaces.closeModals order root }

end InterfaceManager

inductive InterfaceCall
  | openTop (id : ℤ)
  | openSub (id parent component : ℤ) (walkable : Bool)
  | close (id component : ℤ)

namespace InterfaceManager

/-- A call that throws changes nothing. -/
def apply (order : MapOrder ℤ) (m : InterfaceManager) : InterfaceCall → InterfaceManager
  | .openTop id => m.openTop id
  | .openSub id parent component walkable =>
    (m.openSub order id parent component walkable).getD m
  | .close id component => m.close order id component

def after (order : MapOrder ℤ) (calls : List InterfaceCall) : InterfaceManager :=
  calls.foldl (apply order) empty

end InterfaceManager

namespace OpenedInterfaces
variable {size : ℕ}

/-- The component holds an interface that is not walkable. -/
def Modal (t : OpenedInterfaces size) (e : ℕ × ℤ) : Prop :=
  ∃ child, (t.children.children e.1).get? e.2 = some child ∧ t.walkable child = false

/-- The interface is reached from the root through walkable ones. -/
def Shown (t : OpenedInterfaces size) (root : ℕ) : ℕ → Prop :=
  t.children.Within t.walkable root

/-- The components that hold the modals, as they are come to. -/
def modals (t : OpenedInterfaces size) (order : MapOrder ℤ) (root : ℕ) : List (ℕ × ℤ) :=
  t.children.fringe order t.walkable root

/-- What is written when the component is closed. -/
def closePacket (t : OpenedInterfaces size) (e : ℕ × ℤ) : InterfacePacket :=
  .ifCloseSub (.of (t.id e.1) e.2)

/-- The interfaces with components cleared, and the packets for that. -/
def cleared (t : OpenedInterfaces size) (components : List (ℕ × ℤ)) : OpenedInterfaces size :=
  { t with
    children := t.children.without components
    written := t.written ++ components.map t.closePacket }

/-- No modal is left that is reached, and one packet is written for each that was closed. -/
structure ClosesAll {size' : ℕ} (t : OpenedInterfaces size) (t' : OpenedInterfaces size')
    (root : ℕ) : Prop where
  none_left : ∀ r, t'.Shown root r → ∀ component, ¬ t'.Modal (r, component)
  packets : ∃ closed : List (ℕ × ℤ), closed.Nodup ∧
    (∀ e, e ∈ closed ↔ t.Modal e ∧ ¬ t'.Modal e) ∧
    ∃ written, t'.written = t.written ++ written ∧ written.Perm (closed.map t.closePacket)

/-- Each modal, with those before it gone, is on the interface that is found for its id. -/
def Findable (t : OpenedInterfaces size) (order : MapOrder ℤ) (root : ℕ) : Prop :=
  ∀ before e after, t.modals order root = before ++ e :: after →
    (t.cleared before).findChild order root (t.id e.1) = some e.1

section Closing
variable {t : OpenedInterfaces size} {order : MapOrder ℤ} {root : ℕ}

/-- What closing does where the interface is found. -/
theorem close_eq {r : ℕ} {component : ℤ} {child : ℕ}
    (hfind : t.findChild order root (t.id r) = some r)
    (hget : (t.children.children r).get? component = some child) :
    t.close order root (t.id r) component =
      { t with
        children := t.children.erase r component
        written := t.written ++ [t.closePacket (r, component)] } := by
  rw [close, hfind]
  dsimp only
  rw [hget]
  rfl

theorem mem_modals {e : ℕ × ℤ} :
    e ∈ t.modals order root ↔ t.Shown root e.1 ∧ t.Modal e := Forest.mem_fringe

/-- A modal is where it was while others are closed. -/
theorem get?_before {before after : List (ℕ × ℤ)} {e : ℕ × ℤ}
    (h : t.modals order root = before ++ e :: after) :
    ∃ child, ((t.cleared before).children.children e.1).get? e.2 = some child := by
  have hnodup : (before ++ e :: after).Nodup := h ▸ Forest.nodup_fringe ..
  have hnot : e ∉ before := fun hmem =>
    List.disjoint_of_nodup_append hnodup hmem List.mem_cons_self
  have hmem : e ∈ t.modals order root := by
    rw [h]
    exact List.mem_append_right _ List.mem_cons_self
  obtain ⟨-, child, hget, -⟩ := mem_modals.mp hmem
  refine ⟨child, ?_⟩
  rw [cleared, Forest.get?_without, if_neg hnot]
  exact hget

/-- A findable modal is cleared, after those before it. -/
theorem closeAt_cleared (hfindable : t.Findable order root) {before after : List (ℕ × ℤ)}
    {e : ℕ × ℤ} (h : t.modals order root = before ++ e :: after) :
    (t.cleared before).closeAt order root e = t.cleared (before ++ [e]) := by
  obtain ⟨child, hget⟩ := get?_before h
  have hclose := close_eq (t := t.cleared before) (hfindable before e after h) hget
  rw [closeAt, hclose]
  simp only [cleared, Forest.without_concat, List.map_append, List.append_assoc, List.map_cons,
    List.map_nil]
  rfl

theorem acts_eq (hfindable : t.Findable order root) {before after : List (ℕ × ℤ)}
    (h : t.modals order root = before ++ after) :
    Forest.acts (fun r component t => t.closeAt order root (r, component)) before t =
      t.cleared before := by
  induction before using List.reverseRecOn generalizing after with
  | nil => simp [Forest.acts, cleared, Forest.without]
  | append_singleton before e ih =>
    rw [List.append_assoc, List.singleton_append] at h
    rw [Forest.acts_append, ih h]
    exact closeAt_cleared hfindable h

/-- Each modal is closed in its turn. -/
theorem takesOut_modals (hfindable : t.Findable order root) :
    Forest.TakesOut children (fun r component t => t.closeAt order root (r, component))
      (t.modals order root) t := by
  intro before e after h
  rw [acts_eq hfindable h]
  exact (congrArg children (closeAt_cleared hfindable h)).trans (Forest.without_concat ..)

theorem closeModals_eq (hfindable : t.Findable order root) :
    t.closeModals order root = t.cleared (t.modals order root) :=
  (Forest.walk_eq_acts (takesOut_modals hfindable)).trans
    (acts_eq hfindable (List.append_nil _).symm)

/-- What is reached after components are cleared was reached before. -/
theorem Shown.of_cleared {components : List (ℕ × ℤ)} {r : ℕ}
    (h : (t.cleared components).Shown root r) : t.Shown root r := by
  induction h with
  | refl => exact .refl
  | step _ hget hwalkable ih =>
    rw [cleared, Forest.get?_without] at hget
    split_ifs at hget
    exact .step ih hget hwalkable

theorem modal_cleared {components : List (ℕ × ℤ)} {e : ℕ × ℤ} :
    (t.cleared components).Modal e ↔ e ∉ components ∧ t.Modal e := by
  rw [Modal, cleared, Forest.get?_without]
  split_ifs with hmem
  · simp [hmem]
  · exact (and_iff_right hmem).symm

/-- Findable modals are all closed. -/
theorem closesAll_of_findable (hfindable : t.Findable order root) :
    ClosesAll t (t.closeModals order root) root := by
  rw [closeModals_eq hfindable]
  constructor
  · intro r hshown component hmodal
    obtain ⟨hnot, hmodal⟩ := modal_cleared.mp hmodal
    exact hnot (mem_modals.mpr ⟨Shown.of_cleared hshown, hmodal⟩)
  · refine ⟨t.modals order root, Forest.nodup_fringe .., ?_, _, rfl, List.Perm.refl _⟩
    intro e
    constructor
    · intro hmem
      exact ⟨(mem_modals.mp hmem).2, fun hmodal => (modal_cleared.mp hmodal).1 hmem⟩
    · rintro ⟨hmodal, hnot⟩
      by_contra hmem
      exact hnot (modal_cleared.mpr ⟨hmem, hmodal⟩)

end Closing

end OpenedInterfaces

namespace InterfaceManager
open OpenedInterfaces

/-- Every modal is closed; without a root there are none. -/
def ClosesModals (order : MapOrder ℤ) (m : InterfaceManager) : Prop :=
  (m.root = none → m.closeModals order = m) ∧
  ∀ root, m.root = some root → m.interfaces.ClosesAll (m.closeModals order).interfaces root

/-- The modals that are reached are findable. -/
def ModalsFindable (order : MapOrder ℤ) (m : InterfaceManager) : Prop :=
  ∀ root, m.root = some root → m.interfaces.Findable order root

/-- After any calls every modal is closed, if each is findable: ids may be repeated. -/
theorem closesModals_after (order : MapOrder ℤ) (calls : List InterfaceCall)
    (h : (after order calls).ModalsFindable order) : (after order calls).ClosesModals order := by
  constructor
  · intro hnone
    unfold closeModals
    split
    · rfl
    · next hroot => cases hnone.symm.trans hroot
  · intro root hroot
    unfold closeModals
    split
    · next hnone => cases hnone.symm.trans hroot
    · next hroot' =>
      cases hroot'.symm.trans hroot
      exact closesAll_of_findable (h root hroot)

/-- The components in ascending order. -/
def ascending : MapOrder ℤ where
  list ks := ks
  perm := List.Perm.refl

/-- Two interfaces have the id 10, and the first one has a modal. -/
theorem closesModals_repeated :
    (after ascending [.openTop 1, .openSub 10 (-1) 1 true, .openSub 20 10 5 false,
      .openSub 10 (-1) 2 true]).ClosesModals ascending := by
  apply closesModals_after
  intro root hroot
  have hzero : (after ascending [.openTop 1, .openSub 10 (-1) 1 true, .openSub 20 10 5 false,
      .openSub 10 (-1) 2 true]).root = some 0 := by decide +kernel
  cases hzero.symm.trans hroot
  have hmodals : (after ascending [.openTop 1, .openSub 10 (-1) 1 true, .openSub 20 10 5 false,
      .openSub 10 (-1) 2 true]).interfaces.modals ascending 0 = [(1, 5)] := by decide +kernel
  intro before e rest hsplit
  rw [hmodals] at hsplit
  rcases List.cons_eq_append_iff.mp hsplit with ⟨rfl, hcons⟩ | ⟨front, rfl, hnil⟩
  · cases hcons
    decide +kernel
  · cases (List.append_eq_nil_iff.mp hnil.symm).2

/-- Two interfaces have the id 10, and the second one has a modal. -/
theorem not_closesModals_repeated :
    ¬ (after ascending [.openTop 1, .openSub 10 (-1) 2 true, .openSub 20 10 5 false,
      .openSub 10 (-1) 1 true]).ClosesModals ascending := by
  rintro ⟨-, h⟩
  have hroot : (after ascending [.openTop 1, .openSub 10 (-1) 2 true, .openSub 20 10 5 false,
      .openSub 10 (-1) 1 true]).root = some 0 := by decide +kernel
  refine (h 0 hroot).none_left 1 ?_ 5 ⟨2, ?_, ?_⟩
  · exact .step .refl (k := 2) (by decide +kernel) (by decide +kernel)
  · decide +kernel
  · decide +kernel

end InterfaceManager

end OpenNXT.Model
