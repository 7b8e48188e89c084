import Mathlib.Data.List.Basic
import OpenNXT.Buffer.BigEndian

/-! A `ByteBuf`: the bytes up to its capacity, with an index to read at and an index to write at. -/
namespace OpenNXT.Buffer

/-- What a buffer is enlarged by where bytes are missing: at least so many, whatever they hold. -/
structure Spare where
  bytes : ℕ → List Byte
  enough : ∀ n, n ≤ (bytes n).length

/-- Fresh heap memory. -/
def Spare.zeros : Spare where
  bytes n := List.replicate n 0
  enough n := by rw [List.length_replicate]

structure ByteBuf where
  bytes : List Byte
  readerIndex : ℕ
  writerIndex : ℕ
  reader_le : readerIndex ≤ writerIndex
  writer_le : writerIndex ≤ bytes.length

namespace ByteBuf

/-- `Integer.MAX_VALUE` -/
def maxCapacity : ℕ := 2 ^ 31 - 1

/-- An operation on a buffer; `none` is an exception. -/
abbrev Op := StateT ByteBuf Option

/-- Other bytes in place of those at an index. -/
def overwrite (bs : List Byte) (i : ℕ) (patch : List Byte) : List Byte :=
  bs.take i ++ (patch ++ bs.drop (i + patch.length))

theorem length_overwrite {bs patch : List Byte} {i : ℕ} (h : i + patch.length ≤ bs.length) :
    (overwrite bs i patch).length = bs.length := by
  simp only [overwrite, List.length_append, List.length_take, List.length_drop]
  omega

theorem take_overwrite {bs : List Byte} {i : ℕ} (h : i ≤ bs.length) (patch : List Byte) :
    (overwrite bs i patch).take (i + patch.length) = bs.take i ++ patch := by
  have hlen : (bs.take i ++ patch).length = i + patch.length := by
    rw [List.length_append, List.length_take, Nat.min_eq_left h]
  rw [overwrite, ← List.append_assoc]
  exact List.take_left' hlen

theorem drop_overwrite {bs : List Byte} {i : ℕ} (h : i ≤ bs.length) (patch : List Byte) :
    (overwrite bs i patch).drop (i + patch.length) = bs.drop (i + patch.length) := by
  have hlen : (bs.take i ++ patch).length = i + patch.length := by
    rw [List.length_append, List.length_take, Nat.min_eq_left h]
  rw [overwrite, ← List.append_assoc]
  exact List.drop_left' hlen

theorem getElem?_overwrite {bs patch : List Byte} {i j : ℕ} (h : i + patch.length ≤ bs.length)
    (hj : j < i ∨ i + patch.length ≤ j) : (overwrite bs i patch)[j]? = bs[j]? := by
  have hlen : (bs.take i ++ patch).length = i + patch.length := by
    rw [List.length_append, List.length_take]
    omega
  rw [overwrite, ← List.append_assoc]
  obtain hlt | hle := hj
  · rw [List.append_assoc, List.getElem?_append_left (by rw [List.length_take]; omega),
      List.getElem?_take_of_lt hlt]
  · rw [List.getElem?_append_right (by omega), List.getElem?_drop, hlen]
    congr 1
    omega

/-- A patch that is taken back. -/
theorem overwrite_drop_take (bs : List Byte) (i k : ℕ) (h : i + k ≤ bs.length) :
    overwrite bs i ((bs.drop i).take k) = bs := by
  have hlen : ((bs.drop i).take k).length = k := by
    rw [List.length_take, List.length_drop]
    omega
  rw [overwrite, hlen, ← List.drop_drop, List.take_append_drop, List.take_append_drop]

/-- Two patches of one length at one place. -/
theorem overwrite_same {bs first second : List Byte} {i : ℕ} (h : i ≤ bs.length)
    (hlen : first.length = second.length) :
    overwrite (overwrite bs i first) i second = overwrite bs i second := by
  have htake : (overwrite bs i first).take i = bs.take i :=
    List.take_left' (by rw [List.length_take, Nat.min_eq_left h])
  rw [overwrite, htake, ← hlen, drop_overwrite h, overwrite, ← hlen]

/-- One patch behind another. -/
theorem overwrite_overwrite {bs : List Byte} {i : ℕ} (h : i ≤ bs.length) (first second : List Byte) :
    overwrite (overwrite bs i first) (i + first.length) second =
      overwrite bs i (first ++ second) := by
  rw [overwrite, take_overwrite h, ← List.drop_drop, drop_overwrite h, List.drop_drop, overwrite,
    List.length_append]
  simp only [List.append_assoc, Nat.add_assoc]

/-- `readerIndex(i)` -/
def setReaderIndex (i : ℤ) : Op Unit := fun b =>
  if h : 0 ≤ i ∧ i ≤ b.writerIndex then
    some ((), { b with readerIndex := i.toNat, reader_le := by omega })
  else none

/-- `writerIndex(i)` -/
def setWriterIndex (i : ℤ) : Op Unit := fun b =>
  if h : b.readerIndex ≤ i ∧ i ≤ b.bytes.length then
    some ((), { b with writerIndex := i.toNat, reader_le := by omega, writer_le := by omega })
  else none

/-- Enlarge the buffer until `n` bytes can be written. -/
def ensureWritable (spare : Spare) (n : ℤ) : Op Unit := fun b =>
  if n < 0 then none
  else if b.writerIndex + n ≤ b.bytes.length then some ((), b)
  else if maxCapacity < b.writerIndex + n then none
  else some ((), { b with
    bytes := b.bytes ++ spare.bytes (b.writerIndex + n.toNat - b.bytes.length)
    writer_le := by
      have := b.writer_le
      rw [List.length_append]
      omega })

def readBytes (n : ℕ) : Op (List Byte) := fun b =>
  if h : b.readerIndex + n ≤ b.writerIndex then
    some ((b.bytes.drop b.readerIndex).take n,
      { b with readerIndex := b.readerIndex + n, reader_le := h })
  else none

def readInt : Op Word := do
  let bs ← readBytes 4
  return BitVec.ofNat 32 (ofBytes bs)

/-- Bytes at the writer index, where there is room for them. -/
def put (bs : List Byte) : Op Unit := fun b =>
  if h : b.writerIndex + bs.length ≤ b.bytes.length then
    some ((), { b with
      bytes := overwrite b.bytes b.writerIndex bs
      writerIndex := b.writerIndex + bs.length
      reader_le := by
        have := b.reader_le
        omega
      writer_le := by rwa [length_overwrite h] })
  else none

def writeBytes (spare : Spare) (bs : List Byte) : Op Unit := do
  ensureWritable spare bs.length
  put bs

def writeInt (spare : Spare) (v : Word) : Op Unit := writeBytes spare (putInt v)

/-- A byte at an index below the capacity. -/
def getByte (i : ℤ) : Op Byte := fun b =>
  if h : 0 ≤ i ∧ i < b.bytes.length then some (b.bytes[i.toNat], b) else none

def setByte (i : ℤ) (v : Byte) : Op Unit := fun b =>
  if 0 ≤ i ∧ i < b.bytes.length then
    some ((), { b with
      bytes := b.bytes.set i.toNat v
      writer_le := by
        rw [List.length_set]
        exact b.writer_le })
  else none

@[ext] theorem ext {b c : ByteBuf} (hbytes : b.bytes = c.bytes)
    (hreader : b.readerIndex = c.readerIndex) (hwriter : b.writerIndex = c.writerIndex) : b = c := by
  cases b
  cases c
  cases hbytes
  cases hreader
  cases hwriter
  rfl

/-- An operation that throws nothing: the value it returns, and the buffer it leaves. -/
def Leaves {α : Type} (op : Op α) (b : ByteBuf) (v : α) (bytes : List Byte)
    (readerIndex writerIndex : ℕ) : Prop :=
  ∃ c, op b = some (v, c) ∧ c.bytes = bytes ∧ c.readerIndex = readerIndex ∧
    c.writerIndex = writerIndex

section Leaves
variable {α β : Type} {bs : List Byte} {r n : ℕ} {hreader : r ≤ n} {hwriter : n ≤ bs.length}

theorem leaves_pure (v : α) : Leaves (pure v) ⟨bs, r, n, hreader, hwriter⟩ v bs r n :=
  ⟨_, rfl, rfl, rfl, rfl⟩

theorem Leaves.bind {b : ByteBuf} {op : Op α} {f : α → Op β} {v : α} {w : β} {bs bs' : List Byte}
    {r r' n n' : ℕ} (h : Leaves op b v bs r n)
    (hf : ∀ (hreader : r ≤ n) (hwriter : n ≤ bs.length),
      Leaves (f v) ⟨bs, r, n, hreader, hwriter⟩ w bs' r' n') :
    Leaves (op >>= f) b w bs' r' n' := by
  obtain ⟨c, hc, rfl, rfl, rfl⟩ := h
  obtain ⟨d, hd, hrest⟩ := hf c.reader_le c.writer_le
  refine ⟨d, ?_, hrest⟩
  change (op b).bind (fun p => f p.1 p.2) = _
  rw [hc]
  exact hd

theorem Leaves.eq_some {b : ByteBuf} {op : Op α} {v : α} (h : Leaves op b v bs r n) :
    op b = some (v, ⟨bs, r, n, hreader, hwriter⟩) := by
  obtain ⟨c, hc, hbytes, hr, hn⟩ := h
  rw [hc]
  congr 2
  exact ext hbytes hr hn

theorem leaves_get : Leaves get ⟨bs, r, n, hreader, hwriter⟩ ⟨bs, r, n, hreader, hwriter⟩ bs r n :=
  ⟨_, rfl, rfl, rfl, rfl⟩

theorem leaves_setReaderIndex {i : ℤ} {k : ℕ} (hi : i = k) (h : k ≤ n) :
    Leaves (setReaderIndex i) ⟨bs, r, n, hreader, hwriter⟩ () bs k n := by
  subst hi
  have hrange : 0 ≤ (k : ℤ) ∧ (k : ℤ) ≤ n := by omega
  exact ⟨_, dif_pos hrange, rfl, Int.toNat_natCast k, rfl⟩

theorem leaves_setWriterIndex {i : ℤ} {k : ℕ} (hi : i = k) (hlow : r ≤ k) (hhigh : k ≤ bs.length) :
    Leaves (setWriterIndex i) ⟨bs, r, n, hreader, hwriter⟩ () bs r k := by
  subst hi
  have hrange : (r : ℤ) ≤ k ∧ (k : ℤ) ≤ bs.length := by omega
  exact ⟨_, dif_pos hrange, rfl, rfl, Int.toNat_natCast k⟩

theorem leaves_readBytes {k : ℕ} (h : r + k ≤ n) :
    Leaves (readBytes k) ⟨bs, r, n, hreader, hwriter⟩ ((bs.drop r).take k) bs (r + k) n :=
  ⟨_, dif_pos h, rfl, rfl, rfl⟩

theorem leaves_readInt (h : r + 4 ≤ n) :
    Leaves readInt ⟨bs, r, n, hreader, hwriter⟩
      (BitVec.ofNat 32 (ofBytes ((bs.drop r).take 4))) bs (r + 4) n := by
  apply (leaves_readBytes h).bind
  intro hreader hwriter
  exact leaves_pure _

theorem leaves_getByte {i : ℤ} {k : ℕ} (hi : i = k) (h : k < bs.length) :
    Leaves (getByte i) ⟨bs, r, n, hreader, hwriter⟩ (bs.getD k 0) bs r n := by
  subst hi
  have hrange : 0 ≤ (k : ℤ) ∧ (k : ℤ) < bs.length := by omega
  refine ⟨⟨bs, r, n, hreader, hwriter⟩, ?_, rfl, rfl, rfl⟩
  rw [getByte, dif_pos hrange, List.getD_eq_getElem?_getD, List.getElem?_eq_getElem h,
    Option.getD_some]
  rfl

theorem leaves_setByte {i : ℤ} {k : ℕ} (hi : i = k) (h : k < bs.length) (v : Byte) :
    Leaves (setByte i v) ⟨bs, r, n, hreader, hwriter⟩ () (bs.set k v) r n := by
  subst hi
  have hrange : 0 ≤ (k : ℤ) ∧ (k : ℤ) < bs.length := by omega
  exact ⟨_, if_pos hrange, rfl, rfl, rfl⟩

/-- Where there is room the buffer is not enlarged. -/
theorem leaves_ensureWritable (spare : Spare) {k : ℕ} (h : n + k ≤ bs.length) :
    Leaves (ensureWritable spare k) ⟨bs, r, n, hreader, hwriter⟩ () bs r n := by
  have hroom : (n : ℤ) + k ≤ bs.length := by omega
  refine ⟨⟨bs, r, n, hreader, hwriter⟩, ?_, rfl, rfl, rfl⟩
  rw [ensureWritable, if_neg (by omega), if_pos hroom]

/-- Room for `k` bytes behind the writer index; what the buffer held stays in front. -/
theorem leaves_ensureWritable_append (spare : Spare) {k : ℕ} (h : n + k ≤ maxCapacity) :
    ∃ extra, Leaves (ensureWritable spare k) ⟨bs, r, n, hreader, hwriter⟩ () (bs ++ extra) r n ∧
      n + k ≤ (bs ++ extra).length := by
  by_cases hroom : n + k ≤ bs.length
  · refine ⟨[], ?_, ?_⟩
    · rw [List.append_nil]
      exact leaves_ensureWritable spare hroom
    · rwa [List.append_nil]
  · have henough := spare.enough (n + k - bs.length)
    have hlen : n + k ≤ (bs ++ spare.bytes (n + k - bs.length)).length := by
      rw [List.length_append]
      omega
    refine ⟨_, ⟨⟨_, r, n, hreader, by omega⟩, ?_, rfl, rfl, rfl⟩, hlen⟩
    rw [ensureWritable, if_neg (by omega), if_neg (by dsimp only; omega),
      if_neg (by dsimp only; omega)]
    rfl

theorem leaves_put {patch : List Byte} (h : n + patch.length ≤ bs.length) :
    Leaves (put patch) ⟨bs, r, n, hreader, hwriter⟩ () (overwrite bs n patch) r
      (n + patch.length) :=
  ⟨_, dif_pos h, rfl, rfl, rfl⟩

theorem leaves_writeBytes (spare : Spare) {patch : List Byte} (h : n + patch.length ≤ bs.length) :
    Leaves (writeBytes spare patch) ⟨bs, r, n, hreader, hwriter⟩ () (overwrite bs n patch) r
      (n + patch.length) := by
  apply (leaves_ensureWritable spare h).bind
  intro hreader hwriter
  exact leaves_put h

/-- Bytes are written wherever the buffer may grow. -/
theorem leaves_writeBytes_append (spare : Spare) {patch : List Byte}
    (h : n + patch.length ≤ maxCapacity) :
    ∃ extra, Leaves (writeBytes spare patch) ⟨bs, r, n, hreader, hwriter⟩ ()
      (overwrite (bs ++ extra) n patch) r (n + patch.length) ∧
        n + patch.length ≤ (bs ++ extra).length := by
  obtain ⟨extra, hensure, hlen⟩ :=
    @leaves_ensureWritable_append bs r n hreader hwriter spare patch.length h
  refine ⟨extra, ?_, hlen⟩
  apply hensure.bind
  intro hreader hwriter
  exact leaves_put hlen

theorem leaves_writeInt (spare : Spare) {v : Word} (h : n + 4 ≤ bs.length) :
    Leaves (writeInt spare v) ⟨bs, r, n, hreader, hwriter⟩ () (overwrite bs n (putInt v)) r
      (n + 4) := by
  have hwrite := @leaves_writeBytes bs r n hreader hwriter spare (putInt v)
  rw [length_putWord] at hwrite
  exact hwrite h

end Leaves

/-- An operation that leaves no buffer of more than `maxCapacity` bytes. -/
def Bounded {α : Type} (op : Op α) : Prop :=
  ∀ b v c, op b = some (v, c) → b.bytes.length ≤ maxCapacity → c.bytes.length ≤ maxCapacity

section Bounded
variable {α β : Type}

theorem Bounded.bind {op : Op α} {f : α → Op β} (hop : Bounded op) (hf : ∀ v, Bounded (f v)) :
    Bounded (op >>= f) := by
  intro b w d h hb
  obtain ⟨⟨v, c⟩, hc, hd⟩ := Option.bind_eq_some_iff.mp h
  exact hf v c w d hd (hop b v c hc hb)

theorem bounded_setWriterIndex (i : ℤ) : Bounded (setWriterIndex i) := by
  intro b v c h hb
  unfold setWriterIndex at h
  split_ifs at h
  cases h
  exact hb

theorem bounded_getByte (i : ℤ) : Bounded (getByte i) := by
  intro b v c h hb
  unfold getByte at h
  split_ifs at h
  cases h
  exact hb

theorem bounded_setByte (i : ℤ) (v : Byte) : Bounded (setByte i v) := by
  intro b u c h hb
  unfold setByte at h
  split_ifs at h
  cases h
  dsimp only
  rwa [List.length_set]

theorem bounded_put (bs : List Byte) : Bounded (put bs) := by
  intro b u c h hb
  unfold put at h
  split_ifs at h with hroom
  cases h
  dsimp only
  rwa [length_overwrite hroom]

/-- Fresh memory is no more than what is asked for. -/
theorem bounded_ensureWritable (n : ℤ) : Bounded (ensureWritable .zeros n) := by
  intro b u c h hb
  have hwriter := b.writer_le
  unfold ensureWritable at h
  split_ifs at h with hneg hroom hmost
  · cases h
    exact hb
  · cases h
    simp only [Spare.zeros, List.length_append, List.length_replicate]
    omega

/-- Bytes that are written fit. -/
theorem writeBytes_fits {patch : List Byte} {b c : ByteBuf} {u : Unit}
    (h : writeBytes .zeros patch b = some (u, c)) (hb : b.bytes.length ≤ maxCapacity) :
    b.writerIndex + patch.length ≤ maxCapacity ∧ c.bytes.length ≤ maxCapacity ∧
      c.writerIndex = b.writerIndex + patch.length := by
  obtain ⟨⟨u', d⟩, hensure, hput⟩ := Option.bind_eq_some_iff.mp h
  have hd := bounded_ensureWritable _ b u' d hensure hb
  have hsame : d.writerIndex = b.writerIndex := by
    unfold ensureWritable at hensure
    split_ifs at hensure <;> cases hensure <;> rfl
  have hc := bounded_put patch d u c hput hd
  dsimp only at hput
  unfold put at hput
  split_ifs at hput with hroom
  cases hput
  refine ⟨by omega, hc, ?_⟩
  dsimp only
  rw [hsame]

end Bounded

end ByteBuf

end OpenNXT.Buffer
