import OpenNXT.Buffer.BigEndian

/-! The Whirlpool hash of a whole byte array. -/
namespace OpenNXT.Util
open Buffer

namespace Whirlpool

/-- The number of rounds of the internal dedicated block cipher. -/
def rounds : ℕ := 10

/-- The substitution box, two bytes a character. -/
def sbox : List (BitVec 64) := [
  0x1823, 0xC6E8, 0x87B8, 0x014F, 0x36A6, 0xD2F5, 0x796F, 0x9152,
  0x60BC, 0x9B8E, 0xA30C, 0x7B35, 0x1DE0, 0xD7C2, 0x2E4B, 0xFE57,
  0x1577, 0x37E5, 0x9FF0, 0x4ADA, 0x58C9, 0x290A, 0xB1A0, 0x6B85,
  0xBD5D, 0x10F4, 0xCB3E, 0x0567, 0xE427, 0x418B, 0xA77D, 0x95D8,
  0xFBEE, 0x7C66, 0xDD17, 0x479E, 0xCA2D, 0xBF07, 0xAD5A, 0x8333,
  0x6302, 0xAA71, 0xC819, 0x49D9, 0xF2E3, 0x5B88, 0x9A26, 0x32B0,
  0xE90F, 0xD580, 0xBECD, 0x3448, 0xFF7A, 0x905F, 0x2068, 0x1AAE,
  0xB454, 0x9322, 0x64F1, 0x7312, 0x4008, 0xC3EC, 0xDBA1, 0x8D3D,
  0x9700, 0xCF2B, 0x7682, 0xD61B, 0xB5AF, 0x6A50, 0x45F3, 0x30EF,
  0x3F55, 0xA2EA, 0x65BA, 0x2FC0, 0xDE1C, 0xFD4D, 0x9275, 0x068A,
  0xB2E6, 0x0E1F, 0x62D4, 0xA896, 0xF9C5, 0x2559, 0x8472, 0x394C,
  0x5E78, 0x388C, 0xD1A5, 0xE261, 0xB321, 0x9C1E, 0x43C7, 0xFC04,
  0x5199, 0x6D0D, 0xFADF, 0x7E24, 0x3BAB, 0xCE11, 0x8F4E, 0xB7EB,
  0x3C81, 0x94F7, 0xB913, 0x2CD3, 0xE76E, 0xC403, 0x5644, 0x7FA9,
  0x2ABB, 0xC153, 0xDC0B, 0x9D6C, 0x3174, 0xF646, 0xAC89, 0x14E1,
  0x163A, 0x6909, 0x70B6, 0xD0ED, 0xCC42, 0x98A4, 0x285C, 0xF886]

/-- Multiplication by two in the field of the diffusion matrix. -/
def double (v : BitVec 64) : BitVec 64 :=
  if 0x100 ≤ (v <<< 1).toNat then (v <<< 1) ^^^ 0x11D else v <<< 1

/-- The circulant tables; each is the one before, rotated by a byte. -/
def table : ℕ → ℕ → BitVec 64
  | 0, x =>
    let c := sbox.getD (x / 2) 0
    let v1 := if x % 2 = 0 then c >>> 8 else c &&& 0xFF
    let v2 := double v1
    let v4 := double v2
    let v5 := v4 ^^^ v1
    let v8 := double v4
    let v9 := v8 ^^^ v1
    (v1 <<< 56) ||| (v1 <<< 48) ||| (v4 <<< 40) ||| (v1 <<< 32) ||| (v8 <<< 24) ||| (v5 <<< 16) |||
      (v2 <<< 8) ||| v9
  | t + 1, x =>
    let previous := table t x
    (previous >>> 8) ||| (previous <<< 56)

/-- The round constants: of eight entries in turn, one byte of each. -/
def roundConstant (r : ℕ) : BitVec 64 :=
  (List.range 8).foldl
    (fun rc t => rc ^^^ (table t (8 * (r - 1) + t) &&& (0xFF00000000000000 >>> (8 * t)))) 0

/-- A `long[8]`. -/
abbrev State := Vector (BitVec 64) 8

/-- Each lane starts from the key, and takes one byte from every lane of the state. -/
def diffuse (key state : State) : State :=
  Vector.ofFn fun i => (List.finRange 8).foldl (fun lane t =>
    lane ^^^ table t.val (((state.get (i - t)) >>> (56 - 8 * t.val)) &&& 0xFF).toNat) (key.get i)

/-- One round, on the round key and the cipher state. -/
def round (p : State × State) (r : ℕ) : State × State :=
  let mixed := diffuse (Vector.replicate 8 0) p.1
  let key := mixed.set 0 (mixed.get 0 ^^^ roundConstant r)
  (key, diffuse key p.2)

/-- The core transform: one block into the hashing state. -/
def processBuffer (hash : State) (buffer : List Byte) : State :=
  let block : State :=
    Vector.ofFn fun i => BitVec.ofNat 64 (ofBytes ((buffer.drop (8 * i.val)).take 8))
  let state := Vector.zipWith (· ^^^ ·) block hash
  let p := ((List.range rounds).map (· + 1)).foldl round (hash, state)
  Vector.zipWith (· ^^^ ·) hash (Vector.zipWith (· ^^^ ·) p.2 block)

/-- A bit `1`, zeros up to the last half of a block, and the number of bits. -/
def pad (data : List Byte) : List Byte :=
  data ++ 0x80 :: (List.replicate ((95 - data.length % 64) % 64) 0 ++
    toBytes 32 (8 * data.length))

/-- The hash of all of an array below 256 MiB, whose number of bits is an `Int`. -/
def getHash (data : List Byte) : List Byte :=
  let padded := pad data
  let hash := (List.range (padded.length / 64)).foldl
    (fun hash i => processBuffer hash ((padded.drop (64 * i)).take 64)) (Vector.replicate 8 0)
  hash.toList.flatMap (putWord 8)

section Widths

private theorem length_flatMap_putWord (lanes : List (BitVec 64)) :
    (lanes.flatMap (putWord 8)).length = 8 * lanes.length := by
  induction lanes with
  | nil => rfl
  | cons lane lanes ih =>
    rw [List.flatMap_cons, List.length_append, length_putWord, ih, List.length_cons]
    ring

/-- Padding fills whole blocks. -/
theorem length_pad (data : List Byte) : (pad data).length % 64 = 0 := by
  rw [pad, List.length_append, List.length_cons, List.length_append, List.length_replicate,
    length_toBytes]
  omega

@[simp] theorem length_getHash (data : List Byte) : (getHash data).length = 64 :=
  (length_flatMap_putWord _).trans (by rw [Vector.length_toList])

end Widths

end Whirlpool

end OpenNXT.Util
