import OpenNXT.Buffer.BitPosition
import OpenNXT.Buffer.IndexedBuf

/-! Bit access of packets: fields of up to 32 bits across the bytes of a buffer. -/
namespace OpenNXT.Net.Buf
open Buffer ByteBuf

inductive AccessMode
  | bitAccess
  | byteAccess
  deriving DecidableEq

/-- `BIT_MASK[n]`: the `n` low bits. -/
def bitMask (n : ℕ) : Word := (1 : Word) <<< n - 1

/-- `setByte` keeps the low eight bits of an `Int`. -/
def patchByte (tmp : Byte) (mask value : Word) : Byte :=
  (tmp.signExtend 32 &&& ~~~mask ||| value).setWidth 8

/-- The loop of `putBits` and what follows it. A byte has `8 - used` bits left. -/
def putLoop (value : Word) (numBits : ℕ) (used : BitVec 3) (bytePos : ℤ) : Op Unit :=
  let bitOffset := 8 - used.toNat
  if _h : bitOffset < numBits then do
    let tmp ← getByte bytePos
    setByte bytePos (patchByte tmp (bitMask bitOffset)
      (value.sshiftRight (numBits - bitOffset) &&& bitMask bitOffset))
    putLoop value (numBits - bitOffset) 0#3 (bytePos + 1)
  else if numBits = bitOffset then do
    let tmp ← getByte bytePos
    setByte bytePos (patchByte tmp (bitMask bitOffset) (value &&& bitMask bitOffset))
  else do
    let tmp ← getByte bytePos
    setByte bytePos (patchByte tmp (bitMask numBits <<< (bitOffset - numBits))
      ((value &&& bitMask numBits) <<< (bitOffset - numBits)))
termination_by numBits
decreasing_by omega

structure GamePacketBuilder where
  buffer : ByteBuf
  bitIndex : Word := 0
  mode : AccessMode := .byteAccess

namespace GamePacketBuilder

/-- `none` is an exception: the mode, or a buffer that cannot be enlarged. -/
def putBits (spare : Spare) (numBits : ℕ) (value : Word) (p : GamePacketBuilder) :
    Option GamePacketBuilder :=
  if p.mode ≠ .bitAccess then none
  else
    let bytePos := (p.bitIndex.sshiftRight 3).toInt
    let used := (p.bitIndex &&& 7).setWidth 3
    let requiredSpace := BitVec.ofInt 32 (bytePos - p.buffer.writerIndex + 1 + (numBits + 7) / 8)
    let op : Op Unit := do
      ensureWritable spare requiredSpace.toInt
      putLoop value numBits used bytePos
    (op p.buffer).map fun r =>
      { p with buffer := r.2, bitIndex := p.bitIndex + BitVec.ofNat 32 numBits }

/-- What every write of the byte mode comes down to. -/
def putBytes (spare : Spare) (bytes : List Byte) (p : GamePacketBuilder) :
    Option GamePacketBuilder :=
  (writeBytes spare bytes p.buffer).map fun r => { p with buffer := r.2 }

def switchToBitAccess (p : GamePacketBuilder) : GamePacketBuilder :=
  if p.mode = .bitAccess then p
  else { p with mode := .bitAccess, bitIndex := BitVec.ofNat 32 (p.buffer.writerIndex * 8) }

/-- `Int` division drops the fraction. -/
def switchToByteAccess (p : GamePacketBuilder) : Option GamePacketBuilder :=
  if p.mode = .byteAccess then some p
  else (setWriterIndex ((p.bitIndex + 7).toInt.tdiv 8) p.buffer).map fun r =>
    { p with mode := .byteAccess, buffer := r.2 }

end GamePacketBuilder

/-- The loop of `getBits` and what follows it. -/
def getLoop (value : Word) (amount : ℕ) (used : BitVec 3) (bytePos : ℤ) : Op Word :=
  let bitOffset := 8 - used.toNat
  if _h : bitOffset < amount then do
    let tmp ← getByte bytePos
    getLoop (value + (tmp.signExtend 32 &&& bitMask bitOffset) <<< (amount - bitOffset))
      (amount - bitOffset) 0#3 (bytePos + 1)
  else if amount = bitOffset then do
    let tmp ← getByte bytePos
    return value + (tmp.signExtend 32 &&& bitMask bitOffset)
  else do
    let tmp ← getByte bytePos
    return value + ((tmp.signExtend 32).sshiftRight (bitOffset - amount) &&& bitMask amount)
termination_by amount
decreasing_by omega

structure GamePacketReader where
  buffer : ByteBuf
  bitIndex : Word := 0
  mode : AccessMode := .byteAccess

namespace GamePacketReader

def getBits (amount : ℕ) (p : GamePacketReader) : Option (Word × GamePacketReader) :=
  if p.mode ≠ .bitAccess then none
  else
    let bytePos := (p.bitIndex.sshiftRight 3).toInt
    let used := (p.bitIndex &&& 7).setWidth 3
    (getLoop 0 amount used bytePos p.buffer).map fun r =>
      (r.1, { p with buffer := r.2, bitIndex := p.bitIndex + BitVec.ofNat 32 amount })

/-- `getBytes` into an array of `length` bytes. -/
def getRawBytes (length : ℕ) (p : GamePacketReader) : Option (List Byte × GamePacketReader) :=
  if p.mode ≠ .byteAccess then none
  else (readBytes length p.buffer).map fun r => (r.1, { p with buffer := r.2 })

def switchToBitAccess (p : GamePacketReader) : GamePacketReader :=
  if p.mode = .bitAccess then p
  else { p with mode := .bitAccess, bitIndex := BitVec.ofNat 32 (p.buffer.readerIndex * 8) }

def switchToByteAccess (p : GamePacketReader) : Option GamePacketReader :=
  if p.mode = .byteAccess then some p
  else (setReaderIndex ((p.bitIndex + 7).toInt.tdiv 8) p.buffer).map fun r =>
    { p with mode := .byteAccess, buffer := r.2 }

end GamePacketReader

section Patch

theorem getLsbD_bitMask {n : ℕ} (hn : n ≤ 8) (t : ℕ) : (bitMask n).getLsbD t = decide (t < n) := by
  have hmask : (bitMask n).toNat = 2 ^ n - 1 := by
    have hle : 2 ^ n ≤ 2 ^ 8 := Nat.pow_le_pow_right (by omega) hn
    have hpos : 0 < 2 ^ n := Nat.two_pow_pos n
    have hshift : ((1 : Word) <<< n).toNat = 2 ^ n := by
      rw [BitVec.toNat_shiftLeft, Nat.shiftLeft_eq, show (1 : Word).toNat = 1 from rfl,
        Nat.one_mul, Nat.mod_eq_of_lt (by omega)]
    rw [bitMask, BitVec.toNat_sub, hshift, show (1 : Word).toNat = 1 from rfl]
    omega
  rw [BitVec.getLsbD, hmask, Nat.testBit_two_pow_sub_one]

/-- The bits that the mask leaves out stay. -/
theorem getLsbD_patchByte (tmp : Byte) (x : Word) {m s t : ℕ} (hm : m + s ≤ 8) (ht : t < 8) :
    (patchByte tmp (bitMask m <<< s) ((x &&& bitMask m) <<< s)).getLsbD t =
      if s ≤ t ∧ t < s + m then x.getLsbD (t - s) else tmp.getLsbD t := by
  have h32 : t < 32 := by omega
  simp only [patchByte, BitVec.getLsbD_setWidth, BitVec.getLsbD_or, BitVec.getLsbD_and,
    BitVec.getLsbD_signExtend, BitVec.getLsbD_not, BitVec.getLsbD_shiftLeft,
    getLsbD_bitMask (show m ≤ 8 by omega), ht, h32, decide_true, Bool.true_and, if_true]
  by_cases hs : t < s
  · simp [hs, show ¬ s ≤ t by omega]
  · by_cases htop : t - s < m
    · simp [hs, htop, show s ≤ t by omega, show t < s + m by omega]
    · simp [hs, htop, show ¬ t < s + m by omega]

theorem bitAt_patchByte {bs : List Byte} {k : ℕ} (hk : k < bs.length) (x : Word) {u m s : ℕ}
    (hsum : u + m + s = 8) (j : ℕ) :
    bitAt (bs.set k (patchByte (bs.getD k 0) (bitMask m <<< s) ((x &&& bitMask m) <<< s))) j =
      if 8 * k + u ≤ j ∧ j < 8 * k + u + m then x.getLsbD (8 * k + u + m - 1 - j)
      else bitAt bs j := by
  rw [bitAt_set hk]
  split_ifs with hbyte hfield hfield
  · rw [getLsbD_patchByte _ _ (by omega) (by omega), if_pos (by omega)]
    congr 1
    omega
  · rw [getLsbD_patchByte _ _ (by omega) (by omega), if_neg (by omega), ← hbyte]
    rfl
  · omega
  · rfl

end Patch

/-- A field is put, and what stands in front of it stays. -/
structure Puts (bs cs : List Byte) (i n : ℕ) (v : Word) : Prop where
  length : bs.length ≤ cs.length
  before : ∀ j < i, bitAt cs j = bitAt bs j
  field : ∀ k < n, bitAt cs (i + k) = v.getLsbD (n - 1 - k)

/-- The high bits of a field, then its low bits. -/
theorem Puts.trans {bs cs ds : List Byte} {i m n : ℕ} {v : Word} (hn : n ≤ 32) (hm : m ≤ n)
    (hhigh : Puts bs cs i m (v.sshiftRight (n - m))) (hlow : Puts cs ds (i + m) (n - m) v) :
    Puts bs ds i n v where
  length := hhigh.length.trans hlow.length
  before j hj := by rw [hlow.before j (by omega), hhigh.before j hj]
  field k hk := by
    by_cases hfirst : k < m
    · rw [hlow.before (i + k) (by omega), hhigh.field k hfirst, BitVec.getLsbD_sshiftRight,
        decide_eq_false (by omega), if_pos (by omega), Bool.not_false, Bool.true_and]
      congr 1
      omega
    · have hbit := hlow.field (k - m) (by omega)
      rw [show i + m + (k - m) = i + k by omega] at hbit
      rw [hbit]
      congr 1
      omega

section Put
variable {bs : List Byte} {r w : ℕ} {hreader : r ≤ w} {hwriter : w ≤ bs.length}

theorem leaves_patch {op : Op Unit} {bytePos : ℤ} {k u m s : ℕ} {x : Word}
    (hop : op = do
      let tmp ← getByte bytePos
      setByte bytePos (patchByte tmp (bitMask m <<< s) ((x &&& bitMask m) <<< s)))
    (hpos : bytePos = k) (hk : k < bs.length) (hsum : u + m + s = 8) :
    ∃ cs, Leaves op ⟨bs, r, w, hreader, hwriter⟩ () cs r w ∧ Puts bs cs (8 * k + u) m x := by
  refine ⟨bs.set k (patchByte (bs.getD k 0) (bitMask m <<< s) ((x &&& bitMask m) <<< s)), ?_, ?_⟩
  · rw [hop]
    apply (leaves_getByte hpos hk).bind
    intro hreader hwriter
    exact leaves_setByte hpos hk _
  · constructor
    · rw [List.length_set]
    · intro j hj
      rw [bitAt_patchByte hk x hsum, if_neg (by omega)]
    · intro t ht
      rw [bitAt_patchByte hk x hsum, if_pos (by omega)]
      congr 1
      omega

/-- The loop fills what is left of a byte, then goes on with the next. -/
theorem leaves_putLoop {n : ℕ} {value : Word} {used : BitVec 3} {bytePos : ℤ} {k : ℕ} (hn : n ≤ 32)
    (hpositive : 0 < n) (hpos : bytePos = k) (hroom : 8 * k + used.toNat + n ≤ 8 * bs.length) :
    ∃ cs, Leaves (putLoop value n used bytePos) ⟨bs, r, w, hreader, hwriter⟩ () cs r w ∧
      Puts bs cs (8 * k + used.toNat) n value := by
  induction n using Nat.strong_induction_on generalizing bs used bytePos k with
  | _ n ih =>
    have hused := used.isLt
    have hk : k < bs.length := by omega
    rw [putLoop]
    by_cases hloop : 8 - used.toNat < n
    · rw [dif_pos hloop, ← bind_assoc]
      obtain ⟨cs, hcs, hhigh⟩ := @leaves_patch bs r w hreader hwriter _ bytePos k used.toNat
        (8 - used.toNat) 0 (value.sshiftRight (n - (8 - used.toNat))) rfl hpos hk (by omega)
      have hlen := hhigh.length
      obtain ⟨ds, hds, hlow⟩ := @ih (n - (8 - used.toNat)) (by omega) cs (hwriter.trans hlen) 0#3
        (bytePos + 1) (k + 1) (by omega) (by omega) (by omega)
        (by
          rw [BitVec.toNat_zero]
          omega)
      rw [BitVec.toNat_zero, show 8 * (k + 1) + 0 = 8 * k + used.toNat + (8 - used.toNat) by omega] at hlow
      refine ⟨ds, ?_, Puts.trans hn (by omega) hhigh hlow⟩
      simp only [BitVec.shiftLeft_zero] at hcs
      exact hcs.bind (fun _ _ => hds)
    · rw [dif_neg hloop]
      by_cases hlast : n = 8 - used.toNat
      · rw [if_pos hlast]
        refine leaves_patch (s := 0) ?_ hpos hk (by omega)
        simp only [BitVec.shiftLeft_zero, ← hlast]
      · rw [if_neg hlast]
        exact leaves_patch rfl hpos hk (by omega)

end Put

section Index

/-- The byte of a bit index. -/
theorem bytePos_bmod (i : ℕ) :
    ((BitVec.ofNat 32 i).sshiftRight 3).toInt = (i : ℤ).bmod (2 ^ 32) / 8 := by
  rw [BitVec.toInt_sshiftRight, BitVec.toInt_ofNat', Int.shiftRight_eq_div_pow]
  rfl

theorem bytePos_eq {i : ℕ} (hi : i < 2 ^ 31) :
    ((BitVec.ofNat 32 i).sshiftRight 3).toInt = (i / 8 : ℕ) := by
  rw [bytePos_bmod, Int.bmod_eq_of_le (by omega) (by omega)]
  omega

theorem used_toNat (i : ℕ) : ((BitVec.ofNat 32 i &&& 7).setWidth 3).toNat = i % 8 := by
  have hand : (BitVec.ofNat 32 i &&& 7).toNat = i % 2 ^ 32 % 2 ^ 3 := by
    rw [BitVec.toNat_and, BitVec.toNat_ofNat]
    exact Nat.and_two_pow_sub_one_eq_mod _ 3
  rw [BitVec.toNat_setWidth, hand]
  omega

/-- The next whole byte. -/
theorem byteIndex_eq {i : ℕ} (hi : (i + 7) / 8 < 2 ^ 28) :
    (BitVec.ofNat 32 i + 7).toInt.tdiv 8 = ((i + 7) / 8 : ℕ) := by
  rw [show (7 : Word) = BitVec.ofNat 32 7 from rfl, ← BitVec.ofNat_add, BitVec.toInt_ofNat',
    Int.bmod_eq_of_le (by omega) (by omega), Int.tdiv_eq_ediv_of_nonneg (by omega)]
  omega

end Index

namespace GamePacketBuilder

/-- A builder in a bit section, up to a bit index. -/
structure InBits (p : GamePacketBuilder) (r w i : ℕ) : Prop where
  mode : p.mode = .bitAccess
  index : p.bitIndex = BitVec.ofNat 32 i
  reader : p.buffer.readerIndex = r
  writer : p.buffer.writerIndex = w
  start : 8 * w ≤ i
  room : i ≤ 8 * p.buffer.bytes.length

/-- What is made room for reaches the last byte of the field. -/
theorem putBits_field (spare : Spare) {p : GamePacketBuilder} {r w i n : ℕ} (h : p.InBits r w i)
    (hi : i < 2 ^ 31) (hn : n ≤ 32) (hpositive : 0 < n) (v : Word) :
    ∃ q, p.putBits spare n v = some q ∧ q.InBits r w (i + n) ∧
      Puts p.buffer.bytes q.buffer.bytes i n v := by
  obtain ⟨⟨bs, r, w, hreader, hwriter⟩, index, mode⟩ := p
  obtain ⟨rfl, rfl, rfl, rfl, hstart, hroom⟩ := h
  dsimp only at hstart hroom
  have hspace : (BitVec.ofInt 32 (((i / 8 : ℕ) : ℤ) - w + 1 + (n + 7) / 8)).toInt =
      ((i / 8 - w + 1 + (n + 7) / 8 : ℕ) : ℤ) := by
    rw [BitVec.toInt_ofInt, Int.bmod_eq_of_le (by omega) (by omega)]
    omega
  obtain ⟨extra, hensure, hlen⟩ := @leaves_ensureWritable_append bs r w hreader hwriter spare
    (i / 8 - w + 1 + (n + 7) / 8) (by rw [maxCapacity]; omega)
  have hused := used_toNat i
  obtain ⟨cs, hloop, hputs⟩ := @leaves_putLoop (bs ++ extra) r w hreader (by omega) n v
    ((BitVec.ofNat 32 i &&& 7).setWidth 3) (i / 8 : ℕ) (i / 8) hn hpositive rfl
    (by rw [hused]; omega)
  rw [hused, Nat.div_add_mod] at hputs
  have hlength := hputs.length
  have hop : Leaves (do
      ensureWritable spare (i / 8 - w + 1 + (n + 7) / 8 : ℕ)
      putLoop v n ((BitVec.ofNat 32 i &&& 7).setWidth 3) (i / 8 : ℕ))
      ⟨bs, r, w, hreader, hwriter⟩ () cs r w := hensure.bind (fun _ _ => hloop)
  obtain ⟨c, hc, rfl, rfl, rfl⟩ := hop
  refine ⟨⟨c, BitVec.ofNat 32 i + BitVec.ofNat 32 n, .bitAccess⟩, ?_, ?_, ?_⟩
  · simp only [putBits, bytePos_eq hi, hspace, ne_eq, not_true_eq_false, if_false, hc]
    rfl
  · exact ⟨rfl, (BitVec.ofNat_add i n).symm, rfl, rfl, by dsimp only; omega, by dsimp only; omega⟩
  · rw [List.length_append] at hlength
    refine ⟨by dsimp only; omega, ?_, hputs.field⟩
    intro j hj
    rw [hputs.before j hj, bitAt_append_left (by omega)]

theorem switchToByteAccess_round {p : GamePacketBuilder} {r w i : ℕ} (h : p.InBits r w i)
    (hi : (i + 7) / 8 < 2 ^ 28) :
    ∃ q, p.switchToByteAccess = some q ∧ q.mode = .byteAccess ∧ q.buffer.bytes = p.buffer.bytes ∧
      q.buffer.readerIndex = r ∧ q.buffer.writerIndex = (i + 7) / 8 := by
  obtain ⟨⟨bs, r, w, hreader, hwriter⟩, index, mode⟩ := p
  obtain ⟨rfl, rfl, rfl, rfl, hstart, hroom⟩ := h
  dsimp only at hstart hroom
  obtain ⟨c, hc, hbytes, hr, hw⟩ := @leaves_setWriterIndex bs r w hreader hwriter _ _
    (byteIndex_eq hi) (by omega) (by omega)
  refine ⟨⟨c, BitVec.ofNat 32 i, .byteAccess⟩, ?_, rfl, hbytes, hr, hw⟩
  simp only [switchToByteAccess, hc, reduceCtorEq, if_false, Option.map_some]

end GamePacketBuilder

section Get
variable {bs : List Byte} {r w : ℕ} {hreader : r ≤ w} {hwriter : w ≤ bs.length}

/-- The middle of a byte: the sign of the byte is masked away. -/
theorem masked_spelled (k : ℕ) {u m s : ℕ} (hsum : u + m + s = 8) :
    ((bs.getD k 0).signExtend 32).sshiftRight s &&& bitMask m =
      BitVec.ofNat 32 (spelled (bitAt bs) (8 * k + u) m) := by
  have hspelled : spelled (bitAt bs) (8 * k + u) m = (bs.getD k 0).toNat >>> s % 2 ^ m := by
    apply spelled_eq_mod
    intro j hj
    rw [Nat.add_assoc, bitAt_byte bs k (by omega), Nat.testBit_shiftRight, BitVec.getLsbD]
    congr 1
    omega
  rw [hspelled]
  apply BitVec.eq_of_getLsbD_eq
  intro t ht
  rw [BitVec.getLsbD_and, getLsbD_bitMask (by omega), BitVec.getLsbD_ofNat, decide_eq_true ht,
    Bool.true_and, Nat.testBit_mod_two_pow, Nat.testBit_shiftRight, Bool.and_comm]
  by_cases hlow : t < m
  · rw [decide_eq_true hlow, Bool.true_and, Bool.true_and, BitVec.getLsbD_sshiftRight,
      decide_eq_false (by omega), if_pos (by omega), BitVec.getLsbD_signExtend,
      decide_eq_true (by omega), if_pos (by omega), Bool.true_and, Bool.not_false, Bool.true_and]
    rfl
  · rw [decide_eq_false hlow, Bool.false_and, Bool.false_and]

/-- The high bits of a field are moved in front of the low ones. -/
theorem shiftLeft_spelled (bit : ℕ → Bool) (i : ℕ) {m n : ℕ} (hm : m ≤ n) :
    BitVec.ofNat 32 (spelled bit i m) <<< (n - m) +
      BitVec.ofNat 32 (spelled bit (i + m) (n - m)) = BitVec.ofNat 32 (spelled bit i n) := by
  have hshift : BitVec.ofNat 32 (spelled bit i m) <<< (n - m) =
      BitVec.ofNat 32 (spelled bit i m * 2 ^ (n - m)) := by
    apply BitVec.eq_of_toNat_eq
    rw [BitVec.toNat_shiftLeft, BitVec.toNat_ofNat, BitVec.toNat_ofNat, Nat.shiftLeft_eq,
      Nat.mod_mul_mod]
  rw [hshift, ← BitVec.ofNat_add, ← spelled_add, Nat.add_sub_cancel' hm]

theorem leaves_getLoop {n : ℕ} {value : Word} {used : BitVec 3} {bytePos : ℤ} {k : ℕ} (hn : n ≤ 32)
    (hpositive : 0 < n) (hpos : bytePos = k) (hroom : 8 * k + used.toNat + n ≤ 8 * bs.length) :
    Leaves (getLoop value n used bytePos) ⟨bs, r, w, hreader, hwriter⟩
      (value + BitVec.ofNat 32 (spelled (bitAt bs) (8 * k + used.toNat) n)) bs r w := by
  induction n using Nat.strong_induction_on generalizing value used bytePos k with
  | _ n ih =>
    have hused := used.isLt
    have hk : k < bs.length := by omega
    rw [getLoop]
    by_cases hloop : 8 - used.toNat < n
    · rw [dif_pos hloop]
      apply (leaves_getByte hpos hk).bind
      intro hreader hwriter
      have hbyte := @masked_spelled bs k used.toNat (8 - used.toNat) 0 (by omega)
      rw [BitVec.sshiftRight_zero] at hbyte
      have hnext : 8 * (k + 1) = 8 * k + used.toNat + (8 - used.toNat) := by omega
      have hrest := @ih (n - (8 - used.toNat)) (by omega)
        (value + ((bs.getD k 0).signExtend 32 &&& bitMask (8 - used.toNat)) <<<
          (n - (8 - used.toNat))) 0#3 (bytePos + 1) (k + 1) (by omega) (by omega) (by omega)
        (by
          rw [BitVec.toNat_zero]
          omega)
      rw [hbyte, BitVec.toNat_zero, Nat.add_zero, hnext, BitVec.add_assoc,
        shiftLeft_spelled _ _ (by omega)] at hrest
      rw [hbyte]
      exact hrest
    · rw [dif_neg hloop]
      by_cases hlast : n = 8 - used.toNat
      · rw [if_pos hlast]
        have hbyte := @masked_spelled bs k used.toNat (8 - used.toNat) 0 (by omega)
        rw [BitVec.sshiftRight_zero, ← hlast] at hbyte
        apply (leaves_getByte hpos hk).bind
        intro hreader hwriter
        rw [← hlast, hbyte]
        exact leaves_pure _
      · rw [if_neg hlast]
        have hbyte := @masked_spelled bs k used.toNat n (8 - used.toNat - n) (by omega)
        apply (leaves_getByte hpos hk).bind
        intro hreader hwriter
        rw [hbyte]
        exact leaves_pure _

end Get

namespace GamePacketReader

theorem getBits_field {p : GamePacketReader} {i n : ℕ} (hmode : p.mode = .bitAccess)
    (hindex : p.bitIndex = BitVec.ofNat 32 i) (hi : i < 2 ^ 31) (hn : n ≤ 32) (hpositive : 0 < n)
    (hroom : i + n ≤ 8 * p.buffer.bytes.length) :
    p.getBits n = some (BitVec.ofNat 32 (spelled (bitAt p.buffer.bytes) i n),
      { p with bitIndex := BitVec.ofNat 32 (i + n) }) := by
  obtain ⟨⟨bs, r, w, hreader, hwriter⟩, index, mode⟩ := p
  subst hmode hindex
  have hused := used_toNat i
  have hloop := @leaves_getLoop bs r w hreader hwriter n 0
    ((BitVec.ofNat 32 i &&& 7).setWidth 3) (i / 8 : ℕ) (i / 8) hn hpositive rfl
    (by rw [hused]; dsimp only at hroom; omega)
  rw [hused, Nat.div_add_mod, show (0 : Word) = 0#32 from rfl, BitVec.zero_add] at hloop
  simp only [getBits, bytePos_eq hi, ne_eq, not_true_eq_false, if_false,
    show (0 : Word) = 0#32 from rfl, @Leaves.eq_some _ _ _ _ hreader hwriter _ _ _ hloop,
    Option.map_some, BitVec.ofNat_add]

theorem switchToByteAccess_round {p : GamePacketReader} {i : ℕ} (hmode : p.mode = .bitAccess)
    (hindex : p.bitIndex = BitVec.ofNat 32 i) (hi : (i + 7) / 8 < 2 ^ 28)
    (hwritten : (i + 7) / 8 ≤ p.buffer.writerIndex) :
    ∃ q, p.switchToByteAccess = some q ∧ q.mode = .byteAccess ∧ q.buffer.bytes = p.buffer.bytes ∧
      q.buffer.readerIndex = (i + 7) / 8 ∧ q.buffer.writerIndex = p.buffer.writerIndex := by
  obtain ⟨⟨bs, r, w, hreader, hwriter⟩, index, mode⟩ := p
  subst hmode hindex
  obtain ⟨c, hc, hbytes, hr, hw⟩ := @leaves_setReaderIndex bs r w hreader hwriter _ _
    (byteIndex_eq hi) hwritten
  refine ⟨⟨c, BitVec.ofNat 32 i, .byteAccess⟩, ?_, rfl, hbytes, hr, hw⟩
  simp only [switchToByteAccess, hc, reduceCtorEq, if_false, Option.map_some]

end GamePacketReader

end OpenNXT.Net.Buf
