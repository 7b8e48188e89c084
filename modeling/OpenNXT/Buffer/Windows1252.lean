import OpenNXT.Buffer.BigEndian

/-! The windows-1252 charset, and strings that end with a zero byte. -/
namespace OpenNXT.Buffer

namespace Windows1252

/-- What a byte without a character is decoded to. -/
def replacement : Char := '\uFFFD'

/-- The characters of the bytes `0x80` to `0x9F`. -/
def upperControls : List Char :=
  ['€', replacement, '‚', 'ƒ', '„', '…', '†', '‡', 'ˆ', '‰', 'Š', '‹', 'Œ', replacement, 'Ž',
    replacement, replacement, '‘', '’', '“', '”', '•', '–', '—', '˜', '™', 'š', '›', 'œ',
    replacement, 'ž', 'Ÿ']

def decodeByte (b : Byte) : Char :=
  if 0x80 ≤ b.toNat ∧ b.toNat < 0xA0 then upperControls.getD (b.toNat - 0x80) replacement
  else Char.ofNat b.toNat

def bytes : List Byte := (List.range 256).map (BitVec.ofNat 8)

def Encodable (c : Char) : Prop := c ≠ replacement ∧ ∃ b ∈ bytes, decodeByte b = c

instance (c : Char) : Decidable (Encodable c) :=
  inferInstanceAs (Decidable (c ≠ replacement ∧ ∃ b ∈ bytes, decodeByte b = c))

/-- A character outside the charset becomes a question mark. -/
def encodeChar (c : Char) : Byte :=
  if c = replacement then 0x3F else (bytes.find? fun b => decodeByte b = c).getD 0x3F

theorem mem_bytes (b : Byte) : b ∈ bytes := by
  have hb : b.toNat < 256 := b.isLt
  apply List.mem_map.mpr
  exact ⟨b.toNat, List.mem_range.mpr hb, by simp⟩

theorem encodable_of_decodeByte (b : Byte) {c : Char} (h : decodeByte b = c)
    (hc : c ≠ replacement) : Encodable c := ⟨hc, b, mem_bytes b, h⟩

theorem decodeByte_encodeChar {c : Char} (h : Encodable c) : decodeByte (encodeChar c) = c := by
  obtain ⟨hne, b, hb, hc⟩ := h
  have hsome : (bytes.find? fun b => decodeByte b = c).isSome := by
    rw [List.find?_isSome]
    exact ⟨b, hb, by simpa using hc⟩
  obtain ⟨b', hb'⟩ := Option.isSome_iff_exists.mp hsome
  rw [encodeChar, if_neg hne, hb', Option.getD_some]
  simpa using List.find?_some hb'

theorem encodeChar_of_not_encodable {c : Char} (h : ¬ Encodable c) : encodeChar c = 0x3F := by
  by_cases hne : c = replacement
  · rw [encodeChar, if_pos hne]
  · have hnone : (bytes.find? fun b => decodeByte b = c) = none := by
      rw [List.find?_eq_none]
      intro b hb hc
      exact h ⟨hne, b, hb, by simpa using hc⟩
    rw [encodeChar, if_neg hne, hnone, Option.getD_none]

/-- A character outside the charset is not read back. -/
theorem decodeByte_encodeChar_iff {c : Char} : decodeByte (encodeChar c) = c ↔ Encodable c := by
  refine ⟨fun h => ?_, decodeByte_encodeChar⟩
  by_contra hc
  rw [encodeChar_of_not_encodable hc] at h
  apply hc
  rw [← h]
  exact encodable_of_decodeByte 0x3F rfl (by decide)

theorem encodeChar_ne_zero {c : Char} (h : c ≠ '\x00') : encodeChar c ≠ 0 := by
  by_cases hc : Encodable c
  · intro hzero
    have hback := decodeByte_encodeChar hc
    rw [hzero] at hback
    apply h
    rw [← hback]
    decide
  · rw [encodeChar_of_not_encodable hc]
    decide

def decode (bs : List Byte) : List Char := bs.map decodeByte

def encode (s : List Char) : List Byte := s.map encodeChar

/-- A string the charset has, and that a zero byte may end. -/
def Plain (s : List Char) : Prop := ∀ c ∈ s, Encodable c ∧ c ≠ '\x00'

instance (s : List Char) : Decidable (Plain s) :=
  List.decidableBAll (fun c => Encodable c ∧ c ≠ '\x00') s

/-- A character of seven bits is its own byte; any other becomes a question mark. -/
def asciiByte (c : Char) : Byte := if c.toNat < 128 then BitVec.ofNat 8 c.toNat else 0x3F

theorem decodeByte_asciiByte {c : Char} (h : c.toNat < 128) : decodeByte (asciiByte c) = c := by
  have hnat : (BitVec.ofNat 8 c.toNat : Byte).toNat = c.toNat := by
    rw [BitVec.toNat_ofNat]
    omega
  rw [asciiByte, if_pos h, decodeByte, hnat, if_neg (by omega), Char.ofNat_toNat]

theorem encodable_of_ascii {c : Char} (h : c.toNat < 128) : Encodable c := by
  apply encodable_of_decodeByte (asciiByte c) (decodeByte_asciiByte h)
  rintro rfl
  exact absurd h (by decide)

/-- Seven bits, and no zero. -/
def isAscii (c : Char) : Bool := c.toNat < 128 ∧ c ≠ '\x00'

theorem plain_of_ascii {s : List Char} (h : s.all isAscii) : Plain s := by
  intro c hc
  obtain ⟨hlt, hne⟩ := of_decide_eq_true (List.all_eq_true.mp h c hc)
  exact ⟨encodable_of_ascii hlt, hne⟩

def encodeAscii (s : List Char) : List Byte := s.map asciiByte

/-- The two charsets agree on seven bits. -/
theorem decode_encodeAscii {s : List Char} (h : s.all isAscii) : decode (encodeAscii s) = s := by
  rw [decode, encodeAscii, List.map_map]
  nth_rewrite 2 [← List.map_id s]
  apply List.map_congr_left
  intro c hc
  exact decodeByte_asciiByte (of_decide_eq_true (List.all_eq_true.mp h c hc)).1

theorem zero_notMem_encodeAscii {s : List Char} (h : s.all isAscii) : (0 : Byte) ∉ encodeAscii s := by
  rw [encodeAscii, List.mem_map]
  rintro ⟨c, hc, hzero⟩
  obtain ⟨hlt, hne⟩ := of_decide_eq_true (List.all_eq_true.mp h c hc)
  apply hne
  rw [← decodeByte_asciiByte hlt, hzero]
  decide

@[simp] theorem length_encodeAscii (s : List Char) : (encodeAscii s).length = s.length :=
  List.length_map _

theorem decode_encode_of_encodable {s : List Char} (h : ∀ c ∈ s, Encodable c) : decode (encode s) = s := by
  rw [decode, encode, List.map_map]
  nth_rewrite 2 [← List.map_id s]
  apply List.map_congr_left
  intro c hc
  exact decodeByte_encodeChar (h c hc)

theorem decode_encode_iff {s : List Char} : decode (encode s) = s ↔ ∀ c ∈ s, Encodable c := by
  refine ⟨fun h c hc => ?_, decode_encode_of_encodable⟩
  rw [decode, encode, List.map_map] at h
  nth_rewrite 2 [← List.map_id s] at h
  exact decodeByte_encodeChar_iff.mp (List.map_inj_left.mp h c hc)

theorem zero_notMem_encode {s : List Char} (h : '\x00' ∉ s) : (0 : Byte) ∉ encode s := by
  rw [encode, List.mem_map]
  rintro ⟨c, hc, hzero⟩
  have hne : c ≠ '\x00' := fun heq => h (heq ▸ hc)
  exact encodeChar_ne_zero hne hzero

@[simp] theorem length_encode (s : List Char) : (encode s).length = s.length := List.length_map _

end Windows1252

end OpenNXT.Buffer
