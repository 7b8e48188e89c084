import OpenNXT.Net.Buf.BitAccess

/-! Packets of bytes and bit sections: what a builder puts, a reader gets by the mirrored calls,
as long as the bit index does not outgrow an `Int`. -/
namespace OpenNXT.Net.Buf
open Buffer ByteBuf

structure Field where
  numBits : ℕ
  value : Word
  positive : 0 < numBits
  most : numBits ≤ 32

/-- The value modulo the width. -/
def Field.read (f : Field) : Word := BitVec.ofNat 32 (f.value.toNat % 2 ^ f.numBits)

def totalBits : List Field → ℕ
  | [] => 0
  | f :: fields => f.numBits + totalBits fields

/-- Calls in byte access, or a bit section with the switches around it. -/
inductive Part
  | bytes (content : List Byte)
  | bits (fields : List Field)

/-- What a part is read as. -/
inductive Content
  | bytes (content : List Byte)
  | bits (values : List Word)

namespace Part

def content : Part → Content
  | bytes content => .bytes content
  | bits fields => .bits (fields.map Field.read)

/-- A bit section is filled up to a whole byte. -/
def stop (w : ℕ) : Part → ℕ
  | bytes content => w + content.length
  | bits fields => (8 * w + totalBits fields + 7) / 8

/-- The bit index stays an `Int`, and the buffer below `Integer.MAX_VALUE`. -/
def Fits (w : ℕ) : Part → Prop
  | bytes content => w + content.length ≤ maxCapacity
  | bits fields => (8 * w + totalBits fields + 7) / 8 < 2 ^ 28

instance (w : ℕ) : (part : Part) → Decidable (part.Fits w)
  | bytes content => inferInstanceAs (Decidable (w + content.length ≤ maxCapacity))
  | bits fields => inferInstanceAs (Decidable ((8 * w + totalBits fields + 7) / 8 < 2 ^ 28))

end Part

/-- Every part in its place. -/
def Fits (w : ℕ) : List Part → Prop
  | [] => True
  | part :: parts => part.Fits w ∧ Fits (part.stop w) parts

instance decidableFits (w : ℕ) : (parts : List Part) → Decidable (Fits w parts)
  | [] => inferInstanceAs (Decidable True)
  | part :: parts =>
    haveI := decidableFits (part.stop w) parts
    inferInstanceAs (Decidable (part.Fits w ∧ Fits (part.stop w) parts))

namespace GamePacketBuilder

def putFields (spare : Spare) : List Field → GamePacketBuilder → Option GamePacketBuilder
  | [], p => some p
  | f :: fields, p => (p.putBits spare f.numBits f.value).bind (putFields spare fields)

def putPart (spare : Spare) (p : GamePacketBuilder) : Part → Option GamePacketBuilder
  | .bytes content => p.putBytes spare content
  | .bits fields => (putFields spare fields p.switchToBitAccess).bind switchToByteAccess

end GamePacketBuilder

namespace GamePacketReader

def getFields : List Field → GamePacketReader → Option (List Word × GamePacketReader)
  | [], p => some ([], p)
  | f :: fields, p => do
    let (v, q) ← p.getBits f.numBits
    let (vs, r) ← getFields fields q
    return (v :: vs, r)

/-- The calls that mirror those of a part: of the part only lengths and widths count. -/
def getPart (p : GamePacketReader) : Part → Option (Content × GamePacketReader)
  | .bytes content => do
    let (bytes, q) ← p.getRawBytes content.length
    return (.bytes bytes, q)
  | .bits fields => do
    let (values, q) ← getFields fields p.switchToBitAccess
    let r ← q.switchToByteAccess
    return (.bits values, r)

def getParts : List Part → GamePacketReader → Option (List Content × GamePacketReader)
  | [], p => some ([], p)
  | part :: parts, p => do
    let (c, q) ← p.getPart part
    let (cs, r) ← getParts parts q
    return (c :: cs, r)

end GamePacketReader

/-- What was written is still there, and nothing is to be written over it. -/
structure Keeps (b c : ByteBuf) : Prop where
  reader : c.readerIndex = b.readerIndex
  writer : b.writerIndex ≤ c.writerIndex
  written : c.bytes.take b.writerIndex = b.bytes.take b.writerIndex

/-- The calls throw nothing, and each keeps what was written before it. -/
def Builds (spare : Spare) : List Part → GamePacketBuilder → GamePacketBuilder → Prop
  | [], p, q => q = p
  | part :: parts, p, q =>
    ∃ m, p.putPart spare part = some m ∧ Keeps p.buffer m.buffer ∧ Builds spare parts m q

/-- The bytes between the indices. -/
def unread (b : ByteBuf) : List Byte := (b.bytes.drop b.readerIndex).take (b.writerIndex - b.readerIndex)

/-- A builder on a buffer puts the parts, and the reader gets what the buffer held and the parts. -/
def RoundTrips (b : ByteBuf) (parts : List Part) : Prop :=
  ∀ spare, ∃ q, Builds spare parts { buffer := b } q ∧
    (GamePacketReader.getParts (.bytes (unread b) :: parts) { buffer := q.buffer }).map Prod.fst =
      some (.bytes (unread b) :: parts.map Part.content)

theorem Keeps.refl (b : ByteBuf) : Keeps b b := ⟨rfl, le_rfl, rfl⟩

theorem Keeps.trans {b c d : ByteBuf} (h : Keeps b c) (h' : Keeps c d) : Keeps b d where
  reader := h'.reader.trans h.reader
  writer := h.writer.trans h'.writer
  written := by
    have hfirst := congrArg (List.take b.writerIndex) h'.written
    rw [List.take_take, List.take_take, Nat.min_eq_left h.writer] at hfirst
    rw [hfirst, h.written]

/-- The fields stand in the bits from a position on. -/
def Holds (bit : ℕ → Bool) (i : ℕ) : List Field → Prop
  | [] => True
  | f :: fields =>
    spelled bit i f.numBits = f.value.toNat % 2 ^ f.numBits ∧ Holds bit (i + f.numBits) fields

theorem Holds.congr {bit bit' : ℕ → Bool} {i : ℕ} {fields : List Field}
    (h : ∀ j < i + totalBits fields, bit j = bit' j) (hholds : Holds bit i fields) :
    Holds bit' i fields := by
  induction fields generalizing i with
  | nil => trivial
  | cons f fields ih =>
    rw [totalBits] at h
    obtain ⟨hfield, hrest⟩ := hholds
    refine ⟨?_, ih (fun j hj => h j (by omega)) hrest⟩
    rw [← hfield]
    exact (spelled_congr fun k hk => h (i + k) (by omega)).symm

/-- The bytes of a part stand from an index on. -/
def Part.Held (bs : List Byte) (w : ℕ) : Part → Prop
  | .bytes content => (bs.drop w).take content.length = content
  | .bits fields => Holds (bitAt bs) (8 * w) fields

theorem Part.Held.keeps {part : Part} {w : ℕ} {b c : ByteBuf} (h : part.Held b.bytes w)
    (hstop : part.stop w ≤ b.writerIndex) (hkeeps : Keeps b c) : part.Held c.bytes w := by
  have hb := b.writer_le
  have hc := c.writer_le
  have hw := hkeeps.writer
  cases part with
  | bytes content =>
    have hdrop : ∀ bs : List Byte, (bs.drop w).take content.length =
        ((bs.take b.writerIndex).drop w).take content.length := by
      intro bs
      rw [List.drop_take, List.take_take, Nat.min_eq_left]
      rw [stop] at hstop
      omega
    change (c.bytes.drop w).take content.length = content
    rw [hdrop, hkeeps.written, ← hdrop]
    exact h
  | bits fields =>
    have hbits := (take_eq_take_iff (hw.trans hc) hb).mp hkeeps.written
    rw [stop] at hstop
    refine Holds.congr (fun j hj => ?_) h
    exact (hbits j (by omega)).symm

/-- Every part stands in its place, in front of a limit. -/
def Encodes (bs : List Byte) (limit w : ℕ) : List Part → Prop
  | [] => True
  | part :: parts =>
    part.stop w ≤ limit ∧ part.Held bs w ∧ Encodes bs limit (part.stop w) parts

namespace GamePacketBuilder

theorem switchToBitAccess_inBits {p : GamePacketBuilder} (hmode : p.mode = .byteAccess) :
    p.switchToBitAccess.buffer = p.buffer ∧
      p.switchToBitAccess.InBits p.buffer.readerIndex p.buffer.writerIndex
        (8 * p.buffer.writerIndex) := by
  obtain ⟨buffer, index, mode⟩ := p
  subst hmode
  have hwriter := buffer.writer_le
  simp only [switchToBitAccess, reduceCtorEq, if_false]
  refine ⟨trivial, rfl, ?_, rfl, rfl, le_rfl, ?_⟩
  · rw [Nat.mul_comm]
  · dsimp only
    omega

/-- Every field goes behind the last one. -/
theorem putFields_holds (spare : Spare) {fields : List Field} {p : GamePacketBuilder} {r w i : ℕ}
    (h : p.InBits r w i) (hend : i + totalBits fields < 2 ^ 31) :
    ∃ q, putFields spare fields p = some q ∧ q.InBits r w (i + totalBits fields) ∧
      p.buffer.bytes.length ≤ q.buffer.bytes.length ∧
      (∀ j < i, bitAt q.buffer.bytes j = bitAt p.buffer.bytes j) ∧
      Holds (bitAt q.buffer.bytes) i fields := by
  induction fields generalizing p i with
  | nil => exact ⟨p, rfl, h, le_rfl, fun _ _ => rfl, trivial⟩
  | cons f fields ih =>
    rw [totalBits] at hend
    obtain ⟨m, hm, hbits, hputs⟩ := putBits_field spare h (by omega) f.most f.positive f.value
    obtain ⟨q, hq, hlast, hlen, hbefore, hrest⟩ := ih hbits (by omega)
    refine ⟨q, ?_, ?_, hputs.length.trans hlen, ?_, ?_, hrest⟩
    · rw [putFields, hm]
      exact hq
    · rwa [totalBits, ← Nat.add_assoc]
    · intro j hj
      rw [hbefore j (by omega), hputs.before j hj]
    · apply spelled_eq_mod
      intro k hk
      rw [hbefore (i + k) (by omega), hputs.field k hk]
      rfl

/-- What a part puts is there, and what was there stays. -/
theorem putPart_held (spare : Spare) {part : Part} {p : GamePacketBuilder}
    (hmode : p.mode = .byteAccess) (hfits : part.Fits p.buffer.writerIndex) :
    ∃ m, p.putPart spare part = some m ∧ m.mode = .byteAccess ∧ Keeps p.buffer m.buffer ∧
      m.buffer.writerIndex = part.stop p.buffer.writerIndex ∧
      part.Held m.buffer.bytes p.buffer.writerIndex := by
  cases part with
  | bytes content =>
    obtain ⟨⟨bs, r, w, hreader, hwriter⟩, index, mode⟩ := p
    obtain ⟨extra, ⟨c, hc, hbytes, hr, hw⟩, hlen⟩ :=
      @leaves_writeBytes_append bs r w hreader hwriter spare content hfits
    have htake : c.bytes.take (w + content.length) = bs.take w ++ content := by
      rw [hbytes, take_overwrite (by omega), List.take_append_of_le_length hwriter]
    have hfirst : (bs.take w).length = w := by rw [List.length_take, Nat.min_eq_left hwriter]
    refine ⟨⟨c, index, mode⟩, ?_, hmode, ⟨hr, ?_, ?_⟩, hw, ?_⟩
    · simp only [putPart, putBytes, hc, Option.map_some]
    · dsimp only
      omega
    · have hfront := congrArg (List.take w) htake
      rw [List.take_take, Nat.min_eq_left (by omega), List.take_left' hfirst] at hfront
      exact hfront
    · have hbehind := congrArg (List.drop w) htake
      rw [List.drop_take, Nat.add_sub_cancel_left, List.drop_left' hfirst] at hbehind
      exact hbehind
  | bits fields =>
    have hwriter := p.buffer.writer_le
    change (8 * p.buffer.writerIndex + totalBits fields + 7) / 8 < 2 ^ 28 at hfits
    obtain ⟨hsame, hstart⟩ := switchToBitAccess_inBits hmode
    obtain ⟨q, hq, hbits, hlen, hbefore, hheld⟩ := @putFields_holds spare fields _ _ _ _ hstart
      (by omega)
    obtain ⟨m, hm, hbyte, hbytes, hr, hw⟩ := switchToByteAccess_round hbits hfits
    rw [hsame] at hlen hbefore
    refine ⟨m, ?_, hbyte, ⟨hr, ?_, ?_⟩, hw, ?_⟩
    · rw [putPart, hq]
      exact hm
    · omega
    · rw [hbytes]
      exact (take_eq_take_iff (hwriter.trans hlen) hwriter).mpr hbefore
    · rw [hbytes]
      exact hheld

end GamePacketBuilder

/-- Later parts do not touch the earlier ones. -/
theorem builds_encodes (spare : Spare) {parts : List Part} {p : GamePacketBuilder}
    (hmode : p.mode = .byteAccess) (hfits : Fits p.buffer.writerIndex parts) :
    ∃ q, Builds spare parts p q ∧ Keeps p.buffer q.buffer ∧
      Encodes q.buffer.bytes q.buffer.writerIndex p.buffer.writerIndex parts := by
  induction parts generalizing p with
  | nil => exact ⟨p, rfl, Keeps.refl _, trivial⟩
  | cons part parts ih =>
    obtain ⟨hpart, hrest⟩ := hfits
    obtain ⟨m, hm, hbyte, hkeeps, hstop, hheld⟩ := GamePacketBuilder.putPart_held spare hmode hpart
    rw [← hstop] at hrest
    obtain ⟨q, hq, hlater, hencodes⟩ := ih hbyte hrest
    have hwriter := hlater.writer
    refine ⟨q, ⟨m, hm, hkeeps, hq⟩, hkeeps.trans hlater, ?_, ?_, ?_⟩
    · omega
    · exact hheld.keeps (by omega) hlater
    · rwa [← hstop]

namespace GamePacketReader

theorem switchToBitAccess_index {p : GamePacketReader} (hmode : p.mode = .byteAccess) :
    p.switchToBitAccess =
      { p with mode := .bitAccess, bitIndex := BitVec.ofNat 32 (8 * p.buffer.readerIndex) } := by
  rw [switchToBitAccess, hmode, if_neg (by decide), Nat.mul_comm]

theorem getFields_holds {fields : List Field} {p : GamePacketReader} {i : ℕ}
    (hmode : p.mode = .bitAccess) (hindex : p.bitIndex = BitVec.ofNat 32 i)
    (hend : i + totalBits fields < 2 ^ 31)
    (hroom : i + totalBits fields ≤ 8 * p.buffer.bytes.length)
    (hheld : Holds (bitAt p.buffer.bytes) i fields) :
    getFields fields p = some (fields.map Field.read,
      { p with bitIndex := BitVec.ofNat 32 (i + totalBits fields) }) := by
  induction fields generalizing p i with
  | nil =>
    rw [totalBits, Nat.add_zero, ← hindex]
    rfl
  | cons f fields ih =>
    rw [totalBits] at hend hroom
    obtain ⟨hfield, hrest⟩ := hheld
    have hget := getBits_field hmode hindex (by omega) f.most f.positive (by omega)
    rw [hfield] at hget
    have hih := @ih { p with bitIndex := BitVec.ofNat 32 (i + f.numBits) } (i + f.numBits) hmode rfl
      (by omega) (by dsimp only; omega) hrest
    simp only [getFields, hget, Option.bind_eq_bind, Option.bind_some, hih, totalBits,
      Nat.add_assoc, List.map_cons, Field.read]
    rfl

theorem getPart_held {part : Part} {p : GamePacketReader} (hmode : p.mode = .byteAccess)
    (hfits : part.Fits p.buffer.readerIndex)
    (hstop : part.stop p.buffer.readerIndex ≤ p.buffer.writerIndex)
    (hheld : part.Held p.buffer.bytes p.buffer.readerIndex) :
    ∃ q, p.getPart part = some (part.content, q) ∧ q.mode = .byteAccess ∧
      q.buffer.bytes = p.buffer.bytes ∧ q.buffer.writerIndex = p.buffer.writerIndex ∧
      q.buffer.readerIndex = part.stop p.buffer.readerIndex := by
  cases part with
  | bytes content =>
    obtain ⟨⟨bs, r, w, hreader, hwriter⟩, index, mode⟩ := p
    subst hmode
    obtain ⟨c, hc, hbytes, hr, hw⟩ := @leaves_readBytes bs r w hreader hwriter content.length hstop
    refine ⟨⟨c, index, .byteAccess⟩, ?_, rfl, hbytes, hw, hr⟩
    change (bs.drop r).take content.length = content at hheld
    rw [hheld] at hc
    simp only [getPart, getRawBytes, hc, ne_eq, not_true_eq_false, if_false, Option.map_some,
      Option.bind_eq_bind, Option.bind_some, Part.content]
    rfl
  | bits fields =>
    have hwriter := p.buffer.writer_le
    change (8 * p.buffer.readerIndex + totalBits fields + 7) / 8 < 2 ^ 28 at hfits
    change (8 * p.buffer.readerIndex + totalBits fields + 7) / 8 ≤ _ at hstop
    have hget := @getFields_holds fields
      { p with mode := .bitAccess, bitIndex := BitVec.ofNat 32 (8 * p.buffer.readerIndex) }
      (8 * p.buffer.readerIndex) rfl rfl (by omega) (by dsimp only; omega) hheld
    obtain ⟨q, hq, hbyte, hbytes, hr, hw⟩ := @switchToByteAccess_round { p with
      mode := .bitAccess
      bitIndex := BitVec.ofNat 32 (8 * p.buffer.readerIndex + totalBits fields) } _ rfl rfl hfits
      hstop
    refine ⟨q, ?_, hbyte, hbytes, hw, hr⟩
    simp only [getPart, switchToBitAccess_index hmode, hget, Option.bind_eq_bind, Option.bind_some,
      hq, Part.content]
    rfl

theorem getParts_encodes {parts : List Part} {p : GamePacketReader} (hmode : p.mode = .byteAccess)
    (hfits : Fits p.buffer.readerIndex parts)
    (hencodes : Encodes p.buffer.bytes p.buffer.writerIndex p.buffer.readerIndex parts) :
    (getParts parts p).map Prod.fst = some (parts.map Part.content) := by
  induction parts generalizing p with
  | nil => rfl
  | cons part parts ih =>
    obtain ⟨hpart, hrest⟩ := hfits
    obtain ⟨hstop, hheld, hlater⟩ := hencodes
    obtain ⟨q, hq, hbyte, hbytes, hw, hr⟩ := getPart_held hmode hpart hstop hheld
    rw [← hr] at hrest
    rw [← hr, ← hbytes, ← hw] at hlater
    obtain ⟨⟨cs, final⟩, hget, hcs⟩ := Option.map_eq_some_iff.mp (ih hbyte hrest hlater)
    simp only [getParts, hq, hget, Option.bind_eq_bind, Option.bind_some, List.map_cons, ← hcs]
    rfl

end GamePacketReader

theorem roundTrips_of_fits {b : ByteBuf} {parts : List Part} (hcapacity : b.bytes.length ≤ maxCapacity)
    (hfits : Fits b.writerIndex parts) : RoundTrips b parts := by
  intro spare
  have hreader := b.reader_le
  have hwriter := b.writer_le
  have hlen : (unread b).length = b.writerIndex - b.readerIndex := by
    rw [unread, List.length_take, List.length_drop]
    omega
  have hstop : (Part.bytes (unread b)).stop b.readerIndex = b.writerIndex := by
    rw [Part.stop, hlen]
    omega
  have hheld : (Part.bytes (unread b)).Held b.bytes b.readerIndex := by
    rw [Part.Held, hlen]
    rfl
  obtain ⟨q, hq, hkeeps, hencodes⟩ := @builds_encodes spare parts { buffer := b } rfl hfits
  change Keeps b q.buffer at hkeeps
  refine ⟨q, hq, GamePacketReader.getParts_encodes rfl ?_ ?_⟩
  · refine ⟨?_, ?_⟩
    · change q.buffer.readerIndex + (unread b).length ≤ maxCapacity
      rw [hkeeps.reader, hlen]
      omega
    · change Fits ((Part.bytes (unread b)).stop q.buffer.readerIndex) parts
      rwa [hkeeps.reader, hstop]
  · change Encodes q.buffer.bytes q.buffer.writerIndex q.buffer.readerIndex _
    rw [hkeeps.reader]
    refine ⟨?_, hheld.keeps hstop.le hkeeps, ?_⟩
    · rw [hstop]
      exact hkeeps.writer
    · rwa [hstop]

end OpenNXT.Net.Buf
