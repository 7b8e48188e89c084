import OpenNXT.Buffer.Windows1252

/-! Strings and smart integers in a buffer. -/
namespace OpenNXT.Ext
open Buffer

/-- The bytes up to a zero byte, which is read as well. `none` is an index exception. -/
def readUntilZero : Reader (List Byte)
  | [] => none
  | b :: bs => if b = 0 then some ([], bs) else (readUntilZero bs).map fun p => (b :: p.1, p.2)

def readString : Reader (List Char) := do
  let bytes ← readUntilZero
  return Windows1252.decode bytes

def writeString (string : List Char) : List Byte := Windows1252.encode string ++ [0]

/-- A string that does not begin with a zero byte is rejected. -/
def readNullCircumfixedString : Reader (List Char) := do
  let b ← Reader.byte
  if b ≠ 0 then Reader.fail else readString

def writeNullCircumfixedString (string : List Char) : List Byte := 0 :: writeString string

/-- Seven bits in one byte, or fifteen in two; a peek past the end is an index exception. -/
def readSmartShort : Reader ℕ
  | [] => none
  | b :: bs =>
    if b.toNat < 128 then (do let v ← Reader.byte; return v.toNat : Reader ℕ) (b :: bs)
    else (do let v ← Reader.short; return v.toNat - 32768 : Reader ℕ) (b :: bs)

/-- `none` is an exception, a value out of range. -/
def writeSmartShort (value : ℤ) : Option (List Byte) :=
  if 0 ≤ value ∧ value ≤ 127 then some [BitVec.ofInt 8 value]
  else if 0 ≤ value ∧ value ≤ 32767 then some (putShort (BitVec.ofInt 16 (value + 32768)))
  else none

section Strings

theorem reads_untilZero {bs : List Byte} (h : (0 : Byte) ∉ bs) :
    Reads readUntilZero (bs ++ [0]) bs := by
  intro rest
  induction bs with
  | nil => rfl
  | cons b bs ih =>
    obtain ⟨hb, hbs⟩ := not_or.mp (mt List.mem_cons.mpr h)
    have hrest := ih hbs
    rw [List.append_assoc] at hrest ⊢
    rw [List.cons_append, readUntilZero, if_neg (Ne.symm hb), hrest]
    rfl

/-- Nothing is read past the first zero byte. -/
theorem readUntilZero_eq (bs : List Byte) :
    readUntilZero bs =
      if (0 : Byte) ∈ bs then some (bs.take (bs.idxOf 0), bs.drop (bs.idxOf 0 + 1)) else none := by
  induction bs with
  | nil => rfl
  | cons b bs ih =>
    rw [readUntilZero]
    by_cases hb : b = 0
    · subst hb
      simp
    · rw [if_neg hb, ih, List.idxOf_cons_ne _ hb]
      by_cases hmem : (0 : Byte) ∈ bs
      · rw [if_pos hmem, if_pos (List.mem_cons_of_mem b hmem)]
        rfl
      · have hcons : (0 : Byte) ∉ b :: bs := by
          rw [List.mem_cons]
          exact not_or.mpr ⟨Ne.symm hb, hmem⟩
        rw [if_neg hmem, if_neg hcons]
        rfl

/-- Characters outside the charset come back as question marks. -/
theorem reads_string {s : List Char} (h : '\x00' ∉ s) :
    Reads readString (writeString s) (Windows1252.decode (Windows1252.encode s)) :=
  (reads_untilZero (Windows1252.zero_notMem_encode h)).map Windows1252.decode

theorem reads_string_plain {s : List Char} (h : Windows1252.Plain s) :
    Reads readString (writeString s) s := by
  have hzero : '\x00' ∉ s := fun hmem => (h _ hmem).2 rfl
  have hread := reads_string hzero
  rwa [Windows1252.decode_encode_of_encodable fun c hc => (h c hc).1] at hread

theorem reads_nullCircumfixedString {s : List Char} (h : '\x00' ∉ s) :
    Reads readNullCircumfixedString (writeNullCircumfixedString s)
      (Windows1252.decode (Windows1252.encode s)) := by
  have hread := Reads.bind (Reads.byte 0) (f := fun b => if b ≠ 0 then Reader.fail else readString)
    (by rw [if_neg (not_not.mpr rfl)]; exact reads_string h)
  exact hread

@[simp] theorem length_writeString (s : List Char) : (writeString s).length = s.length + 1 := by
  simp [writeString]

@[simp] theorem length_writeNullCircumfixedString (s : List Char) :
    (writeNullCircumfixedString s).length = s.length + 2 := by
  simp [writeNullCircumfixedString]

end Strings

section Smart

theorem reads_smartShort {v : ℤ} {bs : List Byte} (h : writeSmartShort v = some bs) :
    Reads readSmartShort bs v.toNat := by
  intro rest
  unfold writeSmartShort at h
  split_ifs at h with hsmall hlarge
  · cases h
    have hv : (BitVec.ofInt 8 v).toNat = v.toNat := by
      rw [BitVec.toNat_ofInt]
      omega
    change readSmartShort (BitVec.ofInt 8 v :: rest) = _
    rw [readSmartShort, if_pos (by omega)]
    have hread := (Reads.byte (BitVec.ofInt 8 v)).map BitVec.toNat rest
    rw [hv] at hread
    exact hread
  · cases h
    have hv : (BitVec.ofInt 16 (v + 32768)).toNat = v.toNat + 32768 := by
      rw [BitVec.toNat_ofInt]
      omega
    have hput : putWord 2 (BitVec.ofInt 16 (v + 32768)) =
        [BitVec.ofNat 8 ((v.toNat + 32768) / 256), BitVec.ofNat 8 (v.toNat + 32768)] := by
      simp [putWord, toBytes, hv]
    have hhead : ¬ (BitVec.ofNat 8 ((v.toNat + 32768) / 256)).toNat < 128 := by
      rw [BitVec.toNat_ofNat]
      omega
    have hread := (Reads.word 2 (BitVec.ofInt 16 (v + 32768))).map (fun w => w.toNat - 32768) rest
    rw [hv, Nat.add_sub_cancel] at hread
    rw [hput] at hread
    change readSmartShort (putWord 2 (BitVec.ofInt 16 (v + 32768)) ++ rest) = _
    rw [hput]
    rw [List.cons_append, readSmartShort, if_neg hhead]
    exact hread

end Smart

end OpenNXT.Ext
