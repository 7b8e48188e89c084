import OpenNXT.Buffer.BigEndian

/-! Text of the first 256 code points, and the blanks and small letters of text. -/
namespace OpenNXT.Data.Latin1
open Buffer

def decodeByte (b : Byte) : Char := Char.ofNat b.toNat

def decode (bs : List Byte) : List Char := bs.map decodeByte

def Encodable (s : List Char) : Prop := ∀ c ∈ s, c.toNat < 256

instance (s : List Char) : Decidable (Encodable s) :=
  List.decidableBAll (fun c : Char => c.toNat < 256) s

/-- The low bytes of the code points. -/
def bytes (s : List Char) : List Byte := s.map fun c => BitVec.ofNat 8 c.toNat

/-- Another character is an exception. -/
def encode (s : List Char) : Option (List Byte) := if Encodable s then some (bytes s) else none

/-- The blanks that text is stripped of. -/
def isSpace (c : Char) : Bool :=
  let n := c.toNat
  (0x09 ≤ n && n ≤ 0x0d) || (0x1c ≤ n && n ≤ 0x20) || n = 0x85 || n = 0xa0 || n = 0x1680 ||
    (0x2000 ≤ n && n ≤ 0x200a) || n = 0x2028 || n = 0x2029 || n = 0x202f || n = 0x205f || n = 0x3000

def strip (s : List Char) : List Char :=
  ((s.dropWhile isSpace).reverse.dropWhile isSpace).reverse

/-- The small letter of a capital one. -/
def lowerChar (c : Char) : Char :=
  let n := c.toNat
  if (0x41 ≤ n ∧ n ≤ 0x5a) ∨ (0xc0 ≤ n ∧ n ≤ 0xde ∧ n ≠ 0xd7) then Char.ofNat (n + 32) else c

theorem mem_of_mem_strip {s : List Char} {c : Char} (h : c ∈ strip s) : c ∈ s := by
  rw [strip, List.mem_reverse] at h
  have hright := (List.dropWhile_sublist isSpace).subset h
  exact (List.dropWhile_sublist isSpace).subset (List.mem_reverse.mp hright)

section Bytes

theorem toNat_decodeByte (b : Byte) : (decodeByte b).toNat = b.toNat := by
  have hb : b.toNat < 256 := b.isLt
  have hvalid : b.toNat.isValidChar := Or.inl (by omega)
  rw [decodeByte, Char.ofNat, dif_pos hvalid]
  rfl

theorem decodeByte_injective : Function.Injective decodeByte := by
  intro a b h
  apply BitVec.eq_of_toNat_eq
  rw [← toNat_decodeByte, h, toNat_decodeByte]

theorem encodable_decode (bs : List Byte) : Encodable (decode bs) := by
  intro c hc
  obtain ⟨b, -, rfl⟩ := List.mem_map.mp hc
  rw [toNat_decodeByte]
  exact b.isLt

@[simp] theorem bytes_decode (bs : List Byte) : bytes (decode bs) = bs := by
  rw [bytes, decode, List.map_map]
  refine (List.map_congr_left fun b _ => ?_).trans (List.map_id bs)
  rw [Function.comp_apply, toNat_decodeByte, BitVec.ofNat_toNat, BitVec.setWidth_eq, id]

theorem decode_bytes {s : List Char} (h : Encodable s) : decode (bytes s) = s := by
  rw [bytes, decode, List.map_map]
  refine (List.map_congr_left fun c hc => ?_).trans (List.map_id s)
  have hc256 : (BitVec.ofNat 8 c.toNat).toNat = c.toNat := Nat.mod_eq_of_lt (h c hc)
  rw [Function.comp_apply, decodeByte, hc256, Char.ofNat_toNat, id]

@[simp] theorem bytes_append (s t : List Char) : bytes (s ++ t) = bytes s ++ bytes t := List.map_append

@[simp] theorem decode_append (bs cs : List Byte) : decode (bs ++ cs) = decode bs ++ decode cs :=
  List.map_append

@[simp] theorem length_bytes (s : List Char) : (bytes s).length = s.length := List.length_map _

@[simp] theorem length_decode (bs : List Byte) : (decode bs).length = bs.length := List.length_map _

theorem encode_of_encodable {s : List Char} (h : Encodable s) : encode s = some (bytes s) := if_pos h

end Bytes

end OpenNXT.Data.Latin1
