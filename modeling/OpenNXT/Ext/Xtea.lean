import Mathlib.Logic.Function.Iterate
import OpenNXT.Buffer.ByteBuf

/-! The block cipher over the bytes of a buffer, of which it leaves a tail of up to seven plain. -/
namespace OpenNXT.Ext
open Buffer

/-- An `int[4]`. -/
abbrev Seeds := Vector Word 4

section Blocks

/-- Replace two words in every whole block of eight bytes. -/
def mapBlocks (f : Word × Word → Word × Word) (bs : List Byte) : List Byte :=
  if 8 ≤ bs.length then
    let block := f (BitVec.ofNat 32 (ofBytes (bs.take 4)),
      BitVec.ofNat 32 (ofBytes ((bs.drop 4).take 4)))
    putInt block.1 ++ (putInt block.2 ++ mapBlocks f (bs.drop 8))
  else bs
termination_by bs.length
decreasing_by
  rw [List.length_drop]
  omega

theorem mapBlocks_of_lt (f : Word × Word → Word × Word) {bs : List Byte}
    (h : bs.length < 8) : mapBlocks f bs = bs := by
  rw [mapBlocks, if_neg (by omega)]

theorem mapBlocks_block (f : Word × Word → Word × Word) (v w : Word) (bs : List Byte) :
    mapBlocks f (putInt v ++ (putInt w ++ bs)) =
      putInt (f (v, w)).1 ++ (putInt (f (v, w)).2 ++ mapBlocks f bs) := by
  have hv : (putInt v ++ (putInt w ++ bs)).take 4 = putInt v := List.take_left' (length_putWord 4 v)
  have hrest : (putInt v ++ (putInt w ++ bs)).drop 4 = putInt w ++ bs :=
    List.drop_left' (length_putWord 4 v)
  have hw : (putInt w ++ bs).take 4 = putInt w := List.take_left' (length_putWord 4 w)
  have hdrop : (putInt v ++ (putInt w ++ bs)).drop 8 = bs := by
    rw [← List.append_assoc]
    exact List.drop_left' (by simp)
  rw [mapBlocks, if_pos (by simp; omega), hv, hrest, hw, hdrop, ofBytes_putWord, ofBytes_putWord]
  simp only [BitVec.ofNat_toNat, BitVec.setWidth_eq]

/-- A buffer is a tail, or a block of two words in front of a buffer. -/
theorem block_cases {bs : List Byte} (h : 8 ≤ bs.length) :
    ∃ v w rest, bs = putInt v ++ (putInt w ++ rest) := by
  have hlen1 : (bs.take 4).length = 4 := by
    rw [List.length_take]
    omega
  have hlen2 : ((bs.drop 4).take 4).length = 4 := by
    rw [List.length_take, List.length_drop]
    omega
  have hfirst : putInt (BitVec.ofNat 32 (ofBytes (bs.take 4))) = bs.take 4 := by
    have h4 := putWord_ofBytes (bs.take 4)
    rwa [hlen1] at h4
  have hsecond : putInt (BitVec.ofNat 32 (ofBytes ((bs.drop 4).take 4))) = (bs.drop 4).take 4 := by
    have h4 := putWord_ofBytes ((bs.drop 4).take 4)
    rwa [hlen2] at h4
  refine ⟨BitVec.ofNat 32 (ofBytes (bs.take 4)), BitVec.ofNat 32 (ofBytes ((bs.drop 4).take 4)),
    bs.drop 8, ?_⟩
  have hdrop : bs.drop 8 = (bs.drop 4).drop 4 := by rw [List.drop_drop]
  rw [hfirst, hsecond, hdrop, List.take_append_drop, List.take_append_drop]

/-- Blocks mapped back are the blocks. -/
theorem mapBlocks_mapBlocks {f g : Word × Word → Word × Word} (h : Function.LeftInverse g f)
    (bs : List Byte) : mapBlocks g (mapBlocks f bs) = bs := by
  induction hn : bs.length using Nat.strongRecOn generalizing bs with
  | _ n ih =>
    by_cases hle : 8 ≤ bs.length
    · obtain ⟨v, w, rest, rfl⟩ := block_cases hle
      have hlt : rest.length < n := by
        rw [← hn]
        simp
        omega
      rw [mapBlocks_block, mapBlocks_block, ih _ hlt rest rfl]
      have hback : g ((f (v, w)).1, (f (v, w)).2) = (v, w) := h (v, w)
      rw [hback]
    · rw [mapBlocks_of_lt f (not_le.mp hle), mapBlocks_of_lt g (not_le.mp hle)]

@[simp] theorem length_mapBlocks (f : Word × Word → Word × Word) (bs : List Byte) :
    (mapBlocks f bs).length = bs.length := by
  induction hn : bs.length using Nat.strongRecOn generalizing bs with
  | _ n ih =>
    by_cases hle : 8 ≤ bs.length
    · obtain ⟨v, w, rest, rfl⟩ := block_cases hle
      have hlen : (putInt v ++ (putInt w ++ rest)).length = 8 + rest.length := by
        simp
        omega
      rw [mapBlocks_block, List.length_append, List.length_append, length_putWord, length_putWord,
        ih rest.length (by omega) rest rfl, ← hn, hlen]
      omega
    · rw [mapBlocks_of_lt f (not_le.mp hle), hn]

end Blocks

namespace Xtea

def delta : Word := -1640531527

def rounds : ℕ := 32

/-- What one half adds to the other. -/
def mixed (v : Word) : Word := v + ((v <<< 4) ^^^ (v >>> 5))

/-- The halves and the sum. -/
structure Round where
  int1 : Word
  int2 : Word
  sum : Word

def key (keys : Seeds) (i : Word) : Word := keys.get (Fin.ofNat 4 i.toNat)

def encipherRound (keys : Seeds) (r : Round) : Round :=
  let int1 := r.int1 + (mixed r.int2 ^^^ (r.sum + key keys (r.sum &&& 3)))
  let sum := r.sum + delta
  let int2 := r.int2 + (mixed int1 ^^^ (sum + key keys ((sum >>> 11) &&& 3)))
  ⟨int1, int2, sum⟩

def decipherRound (keys : Seeds) (r : Round) : Round :=
  let int2 := r.int2 - ((key keys ((r.sum &&& 0x1c84) >>> 11) + r.sum) ^^^
    (((r.int1 >>> 5) ^^^ (r.int1 <<< 4)) + r.int1))
  let sum := r.sum - delta
  let int1 := r.int1 - ((((int2 >>> 5) ^^^ (int2 <<< 4)) + int2) ^^^ (key keys (sum &&& 3) + sum))
  ⟨int1, int2, sum⟩

def encipher (keys : Seeds) (block : Word × Word) : Word × Word :=
  let r := (encipherRound keys)^[rounds] ⟨block.1, block.2, 0⟩
  (r.int1, r.int2)

def decipher (keys : Seeds) (block : Word × Word) : Word × Word :=
  let r := (decipherRound keys)^[rounds] ⟨block.1, block.2, -0x3910c8e0⟩
  (r.int1, r.int2)

end Xtea

def encipherXtea (keys : Seeds) (bs : List Byte) : List Byte := mapBlocks (Xtea.encipher keys) bs

def decipherXtea (keys : Seeds) (bs : List Byte) : List Byte := mapBlocks (Xtea.decipher keys) bs

section Inverse
open Xtea

/-- Both sides pick the same key. -/
private theorem key_index (sum : Word) : (sum &&& 0x1c84) >>> 11 = (sum >>> 11) &&& 3 := by
  have hmask : (0x1c84 : Word) >>> 11 = 3 := by decide
  rw [BitVec.ushiftRight_and_distrib, hmask]

private theorem mixed_comm (v : Word) : ((v >>> 5) ^^^ (v <<< 4)) + v = mixed v := by
  rw [mixed, BitVec.add_comm, BitVec.xor_comm]

/-- A round undoes its two halves in the other order. -/
theorem decipherRound_encipherRound (keys : Seeds) :
    Function.LeftInverse (decipherRound keys) (encipherRound keys) := by
  rintro ⟨int1, int2, sum⟩
  have hsecond : ∀ v x k s : Word, v + (mixed x ^^^ (s + k)) - ((k + s) ^^^ mixed x) = v := by
    intro v x k s
    rw [BitVec.xor_comm (k + s), BitVec.add_comm k s, BitVec.add_sub_cancel]
  simp only [encipherRound, decipherRound, key_index, mixed_comm, BitVec.add_sub_cancel, hsecond,
    Round.mk.injEq, and_true]
  rw [BitVec.add_comm (key keys (sum &&& 3)) sum, BitVec.add_sub_cancel]

private theorem sum_rounds (keys : Seeds) (n : ℕ) (r : Round) :
    ((encipherRound keys)^[n] r).sum = r.sum + BitVec.ofNat 32 n * delta := by
  induction n generalizing r with
  | zero => simp
  | succ n ih =>
    have hnext : (encipherRound keys r).sum = r.sum + delta := rfl
    have hsucc : BitVec.ofNat 32 (n + 1) = BitVec.ofNat 32 n + 1#32 := BitVec.ofNat_add _ _
    rw [Function.iterate_succ_apply, ih, hnext, hsucc, BitVec.add_mul,
      BitVec.one_mul, BitVec.add_assoc, BitVec.add_comm delta]

theorem decipher_encipher (keys : Seeds) : Function.LeftInverse (decipher keys) (encipher keys) := by
  rintro ⟨int1, int2⟩
  have hback := (decipherRound_encipherRound keys).iterate rounds ⟨int1, int2, 0⟩
  have hsum := sum_rounds keys rounds ⟨int1, int2, 0⟩
  have hstart : (0 : Word) + BitVec.ofNat 32 rounds * delta = -0x3910c8e0 := by decide
  rw [hstart] at hsum
  unfold decipher encipher
  dsimp only
  rw [← hsum]
  show (((decipherRound keys)^[rounds] ((encipherRound keys)^[rounds] ⟨int1, int2, 0⟩)).int1,
    ((decipherRound keys)^[rounds] ((encipherRound keys)^[rounds] ⟨int1, int2, 0⟩)).int2) = _
  rw [hback]

theorem encipherRound_decipherRound (keys : Seeds) :
    Function.LeftInverse (encipherRound keys) (decipherRound keys) := by
  rintro ⟨int1, int2, sum⟩
  have hfirst : ∀ v x k s : Word, v - (mixed x ^^^ (k + s)) + (mixed x ^^^ (s + k)) = v := by
    intro v x k s
    rw [BitVec.add_comm k s, BitVec.sub_add_cancel]
  have hsecond : ∀ v x k s : Word, v - ((k + s) ^^^ mixed x) + (mixed x ^^^ (s + k)) = v := by
    intro v x k s
    rw [BitVec.xor_comm (k + s)]
    exact hfirst v x k s
  simp only [encipherRound, decipherRound, key_index, mixed_comm, hfirst, BitVec.sub_add_cancel,
    hsecond]

private theorem sum_decipherRounds (keys : Seeds) (n : ℕ) (r : Round) :
    ((decipherRound keys)^[n] r).sum = r.sum - BitVec.ofNat 32 n * delta := by
  have hback := (encipherRound_decipherRound keys).iterate n r
  have hsum := sum_rounds keys n ((decipherRound keys)^[n] r)
  rw [hback] at hsum
  rw [hsum, BitVec.add_sub_cancel]

theorem encipher_decipher (keys : Seeds) : Function.LeftInverse (encipher keys) (decipher keys) := by
  rintro ⟨int1, int2⟩
  have hback := (encipherRound_decipherRound keys).iterate rounds ⟨int1, int2, -0x3910c8e0⟩
  have hsum := sum_decipherRounds keys rounds ⟨int1, int2, -0x3910c8e0⟩
  have hend : (-0x3910c8e0 : Word) - BitVec.ofNat 32 rounds * delta = 0 := by decide
  rw [hend] at hsum
  unfold encipher decipher
  dsimp only
  rw [← hsum]
  show (((encipherRound keys)^[rounds] ((decipherRound keys)^[rounds]
      ⟨int1, int2, -0x3910c8e0⟩)).int1,
    ((encipherRound keys)^[rounds] ((decipherRound keys)^[rounds] ⟨int1, int2, -0x3910c8e0⟩)).int2) = _
  rw [hback]

theorem decipherXtea_encipherXtea (keys : Seeds) (bs : List Byte) :
    decipherXtea keys (encipherXtea keys bs) = bs := mapBlocks_mapBlocks (decipher_encipher keys) bs

@[simp] theorem length_encipherXtea (keys : Seeds) (bs : List Byte) :
    (encipherXtea keys bs).length = bs.length := length_mapBlocks _ bs

end Inverse

end OpenNXT.Ext
