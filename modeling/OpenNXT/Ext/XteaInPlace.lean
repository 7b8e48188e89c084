import OpenNXT.Buffer.IndexedBuf
import OpenNXT.Ext.Xtea

/-! The block cipher in place, between two positions of a buffer. -/
namespace OpenNXT.Buffer.ByteBuf
open Ext

/-- Two words are read, and written where they were. -/
def cipherBlock (spare : Spare) (f : Word × Word → Word × Word) (writerIndex : ℤ) : Op Unit := do
  let int1 ← readInt
  let int2 ← readInt
  let block := f (int1, int2)
  let originalReaderIndex : ℤ := (← get).readerIndex
  setReaderIndex 0
  setWriterIndex (originalReaderIndex - 8)
  writeInt spare block.1
  writeInt spare block.2
  setReaderIndex originalReaderIndex
  setWriterIndex writerIndex

def cipherBlocks (spare : Spare) (f : Word × Word → Word × Word) (writerIndex : ℤ) : ℕ → Op Unit
  | 0 => return ()
  | n + 1 => do
    cipherBlock spare f writerIndex
    cipherBlocks spare f writerIndex n

/-- The whole blocks from `start` on, of those up to `stop`. -/
def cipher (spare : Spare) (f : Word × Word → Word × Word) (start stop : ℤ) : Op Unit := do
  let readerIndex : ℤ := (← get).readerIndex
  let writerIndex : ℤ := (← get).writerIndex
  setReaderIndex start
  cipherBlocks spare f writerIndex ((stop - start).tdiv 8).toNat
  setWriterIndex writerIndex
  setReaderIndex readerIndex

def encipherXtea (spare : Spare) (keys : Seeds) (start stop : ℤ) : Op Unit :=
  cipher spare (Xtea.encipher keys) start stop

def decipherXtea (spare : Spare) (keys : Seeds) (start stop : ℤ) : Op Unit :=
  cipher spare (Xtea.decipher keys) start stop

section Blocks
variable {bs : List Byte} {r n : ℕ} {hreader : r ≤ n} {hwriter : n ≤ bs.length}
  {f : Word × Word → Word × Word} (spare : Spare)

/-- A block in the middle of a buffer. -/
private theorem mapBlocks_take_eight {bs : List Byte} (h : 8 ≤ bs.length) :
    mapBlocks f (bs.take 8) =
      putInt (f (BitVec.ofNat 32 (ofBytes (bs.take 4)),
        BitVec.ofNat 32 (ofBytes ((bs.drop 4).take 4)))).1 ++
      putInt (f (BitVec.ofNat 32 (ofBytes (bs.take 4)),
        BitVec.ofNat 32 (ofBytes ((bs.drop 4).take 4)))).2 := by
  have hlen : (bs.take 8).length = 8 := by
    rw [List.length_take]
    omega
  have hfirst : (bs.take 8).take 4 = bs.take 4 := by
    rw [List.take_take]
    rfl
  have hsecond : ((bs.take 8).drop 4).take 4 = (bs.drop 4).take 4 := by
    rw [List.drop_take, List.take_take]
    rfl
  have hrest : (bs.take 8).drop 8 = [] := List.drop_eq_nil_of_le hlen.le
  rw [mapBlocks, if_pos hlen.ge, hfirst, hsecond, hrest, mapBlocks_of_lt f (by simp)]
  simp only [List.append_nil]

theorem leaves_cipherBlock (h : r + 8 ≤ n) :
    Leaves (cipherBlock spare f n) ⟨bs, r, n, hreader, hwriter⟩ ()
      (overwrite bs r (mapBlocks f ((bs.drop r).take 8))) (r + 8) n := by
  have hdrop : 8 ≤ (bs.drop r).length := by
    rw [List.length_drop]
    omega
  rw [mapBlocks_take_eight hdrop, List.drop_drop, ← overwrite_overwrite (by omega),
    length_putWord]
  generalize hblock : f _ = block
  have hfirst : (overwrite bs r (putInt block.1)).length = bs.length :=
    length_overwrite (by rw [length_putWord]; omega)
  have hsecond : (overwrite (overwrite bs r (putInt block.1)) (r + 4) (putInt block.2)).length =
      (overwrite bs r (putInt block.1)).length :=
    length_overwrite (by rw [length_putWord]; omega)
  unfold cipherBlock
  apply (leaves_readInt (by omega)).bind
  intro hreader hwriter
  apply (leaves_readInt (by omega)).bind
  intro hreader hwriter
  apply leaves_get.bind
  intro hreader hwriter
  dsimp only
  rw [hblock]
  apply (leaves_setReaderIndex (k := 0) rfl (by omega)).bind
  intro hreader hwriter
  apply (leaves_setWriterIndex (k := r) (by omega) (by omega) (by omega)).bind
  intro hreader hwriter
  apply (leaves_writeInt spare (by omega)).bind
  intro hreader hwriter
  apply (leaves_writeInt spare (by omega)).bind
  intro hreader hwriter
  apply (leaves_setReaderIndex (k := r + 8) (by omega) (by omega)).bind
  intro hreader hwriter
  exact leaves_setWriterIndex rfl h (by omega)

private theorem mapBlocks_take_succ (k : ℕ) (h : 8 ≤ bs.length) :
    mapBlocks f (bs.take (8 * (k + 1))) =
      mapBlocks f (bs.take 8) ++ mapBlocks f ((bs.drop 8).take (8 * k)) := by
  obtain ⟨v, w, rest, rfl⟩ := block_cases h
  have hblock : (putInt v ++ (putInt w ++ rest)).take 8 = putInt v ++ (putInt w ++ []) := by
    rw [← List.append_assoc, List.append_nil]
    exact List.take_left' (by simp)
  have hdrop : (putInt v ++ (putInt w ++ rest)).drop 8 = rest := by
    rw [← List.append_assoc]
    exact List.drop_left' (by simp)
  have htake : (putInt v ++ (putInt w ++ rest)).take (8 * (k + 1)) =
      putInt v ++ (putInt w ++ rest.take (8 * k)) := by
    have hsplit : 8 * (k + 1) = (putInt v).length + ((putInt w).length + 8 * k) := by
      rw [length_putWord, length_putWord]
      omega
    rw [hsplit, List.take_length_add_append, List.take_length_add_append]
  have hnil : mapBlocks f [] = [] := mapBlocks_of_lt f (by simp)
  rw [hblock, hdrop, htake, mapBlocks_block, mapBlocks_block, hnil]
  simp only [List.append_nil, List.append_assoc]

/-- The blocks are ciphered one after the other, each leaving those behind it. -/
theorem leaves_cipherBlocks (k : ℕ) (h : r + 8 * k ≤ n) :
    Leaves (cipherBlocks spare f n k) ⟨bs, r, n, hreader, hwriter⟩ ()
      (overwrite bs r (mapBlocks f ((bs.drop r).take (8 * k)))) (r + 8 * k) n := by
  induction k generalizing bs r with
  | zero =>
    have hnone : overwrite bs r (mapBlocks f ((bs.drop r).take (8 * 0))) = bs := by
      rw [Nat.mul_zero, List.take_zero, mapBlocks_of_lt f (by simp), overwrite]
      exact List.take_append_drop r bs
    rw [hnone]
    exact leaves_pure ()
  | succ k ih =>
    have hdrop : 8 ≤ (bs.drop r).length := by
      rw [List.length_drop]
      omega
    have hlen : (mapBlocks f ((bs.drop r).take 8)).length = 8 := by
      rw [length_mapBlocks, List.length_take]
      omega
    have hrest : (overwrite bs r (mapBlocks f ((bs.drop r).take 8))).drop (r + 8) =
        (bs.drop r).drop 8 := by
      have hover := drop_overwrite (show r ≤ bs.length by omega) (mapBlocks f ((bs.drop r).take 8))
      rw [hlen] at hover
      rw [hover, List.drop_drop]
    apply (leaves_cipherBlock spare (by omega)).bind
    intro hreader hwriter
    have hnext := @ih _ (r + 8) hreader hwriter (by omega)
    have hend : r + 8 + 8 * k = r + 8 * (k + 1) := by omega
    have hover := overwrite_overwrite (show r ≤ bs.length by omega)
      (mapBlocks f ((bs.drop r).take 8)) (mapBlocks f (((bs.drop r).drop 8).take (8 * k)))
    rw [hlen] at hover
    rwa [hrest, hover, ← mapBlocks_take_succ k hdrop, hend] at hnext

/-- The buffer with other bytes in the whole blocks between two positions. -/
theorem leaves_cipher {start stop : ℕ} (hstart : start ≤ stop) (hstop : stop ≤ n) :
    Leaves (cipher spare f start stop) ⟨bs, r, n, hreader, hwriter⟩ ()
      (overwrite bs start (mapBlocks f ((bs.drop start).take (8 * ((stop - start) / 8))))) r n := by
  have hcount : (((stop : ℤ) - start).tdiv 8).toNat = (stop - start) / 8 := by
    rw [Int.tdiv_eq_ediv_of_nonneg (by omega)]
    omega
  unfold cipher
  apply leaves_get.bind
  intro hreader hwriter
  apply leaves_get.bind
  intro hreader hwriter
  dsimp only
  rw [hcount]
  apply (leaves_setReaderIndex rfl (by omega)).bind
  intro hreader hwriter
  apply (leaves_cipherBlocks spare _ (by omega)).bind
  intro hreader hwriter
  apply (leaves_setWriterIndex rfl hreader hwriter).bind
  intro hreader hwriter
  exact leaves_setReaderIndex rfl (by omega)

end Blocks

section Inverse

/-- Nothing but whole blocks between two positions has changed. -/
structure Framed (b c : ByteBuf) (start stop : ℕ) : Prop where
  readerIndex : c.readerIndex = b.readerIndex
  writerIndex : c.writerIndex = b.writerIndex
  capacity : c.bytes.length = b.bytes.length
  outside : ∀ i, i < start ∨ start + 8 * ((stop - start) / 8) ≤ i → c.bytes[i]? = b.bytes[i]?

/-- Blocks mapped back in place. -/
theorem cipher_cipher {f g : Word × Word → Word × Word} (hinverse : Function.LeftInverse g f)
    (spare : Spare) {b : ByteBuf} {start stop : ℕ} (hstart : start ≤ stop)
    (hstop : stop ≤ b.writerIndex) :
    ∃ c, cipher spare f start stop b = some ((), c) ∧ Framed b c start stop ∧
      cipher spare g start stop c = some ((), b) := by
  have hcapacity := b.writer_le
  obtain ⟨c, hc, hbytes, hreader, hwriter⟩ :=
    @leaves_cipher _ _ _ b.reader_le b.writer_le f spare start stop hstart hstop
  obtain ⟨d, hd, hbytes', hreader', hwriter'⟩ :=
    @leaves_cipher _ _ _ c.reader_le c.writer_le g spare start stop hstart (hwriter ▸ hstop)
  generalize hplain : (b.bytes.drop start).take (8 * ((stop - start) / 8)) = plain at hbytes
  have hlen : plain.length = 8 * ((stop - start) / 8) := by
    rw [← hplain, List.length_take, List.length_drop]
    omega
  have hroom : start + (mapBlocks f plain).length ≤ b.bytes.length := by
    rw [length_mapBlocks]
    omega
  have hcipher : (c.bytes.drop start).take (8 * ((stop - start) / 8)) = mapBlocks f plain := by
    have hdrop : c.bytes.drop start =
        mapBlocks f plain ++ b.bytes.drop (start + (mapBlocks f plain).length) := by
      rw [hbytes, overwrite]
      exact List.drop_left' (by rw [List.length_take]; omega)
    rw [hdrop, ← hlen, ← length_mapBlocks f plain, List.take_left]
  refine ⟨c, hc, ⟨hreader, hwriter, ?_, ?_⟩, ?_⟩
  · rw [hbytes]
    exact length_overwrite hroom
  · intro i hi
    rw [hbytes]
    apply getElem?_overwrite hroom
    rwa [length_mapBlocks, hlen]
  · have hsame : d = b := by
      apply ByteBuf.ext
      · rw [hbytes', hcipher, mapBlocks_mapBlocks hinverse, hbytes,
          overwrite_same (by omega) (length_mapBlocks f plain), ← hplain]
        exact overwrite_drop_take _ _ _ (by omega)
      · rw [hreader', hreader]
      · rw [hwriter', hwriter]
    rwa [hsame] at hd

/-- Enciphering and deciphering undo each other, in either order, and touch nothing else. -/
theorem xtea_inverse (spare : Spare) (keys : Seeds) (b : ByteBuf) {start stop : ℕ}
    (hstart : start ≤ stop) (hstop : stop ≤ b.writerIndex) :
    (∃ c, encipherXtea spare keys start stop b = some ((), c) ∧ Framed b c start stop ∧
      decipherXtea spare keys start stop c = some ((), b)) ∧
    (∃ c, decipherXtea spare keys start stop b = some ((), c) ∧ Framed b c start stop ∧
      encipherXtea spare keys start stop c = some ((), b)) := by
  constructor
  · exact cipher_cipher (decipher_encipher keys) spare hstart hstop
  · exact cipher_cipher (encipher_decipher keys) spare hstart hstop

/-- A block behind the first byte, and a byte behind the block. -/
theorem xtea_inverse_block :
    ∃ b c : ByteBuf, b.bytes.length = 10 ∧
      encipherXtea .zeros #v[1, 2, 3, 4] 1 10 b = some ((), c) ∧ Framed b c 1 10 ∧
      decipherXtea .zeros #v[1, 2, 3, 4] 1 10 c = some ((), b) := by
  have hreader : 3 ≤ 10 := by omega
  have hwriter : 10 ≤ (List.replicate 10 (7 : Byte)).length := by
    rw [List.length_replicate]
  obtain ⟨⟨c, hc⟩, -⟩ := xtea_inverse .zeros #v[1, 2, 3, 4]
    ⟨List.replicate 10 7, 3, 10, hreader, hwriter⟩ (show 1 ≤ 10 by omega) le_rfl
  exact ⟨_, c, List.length_replicate, hc⟩

end Inverse

end OpenNXT.Buffer.ByteBuf
