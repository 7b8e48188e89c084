import OpenNXT.Buffer.BigEndian

/-! A component of an interface, in one word. -/
namespace OpenNXT.Model
open Buffer

structure InterfaceHash where
  hash : Word
  deriving DecidableEq

namespace InterfaceHash

def parent (h : InterfaceHash) : Word := h.hash.sshiftRight 16

def component (h : InterfaceHash) : Word := h.hash &&& 0xffff

def ofParts (parent component : Word) : InterfaceHash := ⟨(parent <<< 16) ||| component⟩

/-- The halves of a hash come to it again, the sign of the upper one being shifted out. -/
theorem ofParts_parent_component (h : InterfaceHash) : ofParts h.parent h.component = h := by
  obtain ⟨hash⟩ := h
  rw [ofParts, parent, component, InterfaceHash.mk.injEq]
  apply BitVec.eq_of_getElem_eq
  intro i hi
  have hmask : (0xffff : Word)[i] = decide (i < 16) := by
    have hones : (0xffff : Word) = (BitVec.allOnes 16).setWidth 32 := rfl
    rw [hones, BitVec.getElem_setWidth, BitVec.getLsbD_allOnes]
  rw [BitVec.getElem_or, BitVec.getElem_and, hmask]
  by_cases hlow : i < 16
  · simp [hlow]
  · have hback : 16 + (i - 16) = i := by omega
    simp [hlow, BitVec.getElem_sshiftRight, hback, hi]

end InterfaceHash

end OpenNXT.Model
