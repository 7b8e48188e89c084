import OpenNXT.Net.Buf.BitSections

/-! A bit index is an `Int`: past 2^28 bytes the builder throws, or goes back in its buffer. -/
namespace OpenNXT.Net.Buf
open Buffer ByteBuf

/-- A bit index past the `Int`s stands for one below. -/
theorem bmod_wrapped {i : ℕ} (hi : 2 ^ 31 ≤ i) (hmost : i < 2 ^ 34) :
    ∃ j : ℤ, 1 ≤ j ∧ j ≤ 4 ∧ (i : ℤ).bmod (2 ^ 32) = i - j * 2 ^ 32 := by
  refine ⟨(i + 2 ^ 31) / 2 ^ 32, by omega, by omega, ?_⟩
  rw [Int.bmod_def]
  split_ifs with hlow
  · omega
  · omega

namespace GamePacketBuilder

/-- The space that is asked for is negative. -/
theorem putBits_none (spare : Spare) {p : GamePacketBuilder} {i n : ℕ} (v : Word)
    (hindex : p.bitIndex = BitVec.ofNat 32 i) (hi : 2 ^ 31 ≤ i) (hmost : i < 2 ^ 34)
    (hstart : 8 * p.buffer.writerIndex ≤ i)
    (hnear : i < 8 * p.buffer.writerIndex + 2 ^ 31 + 32) (hn : n ≤ 32) :
    p.putBits spare n v = none := by
  obtain ⟨j, hlow, hhigh, hwrapped⟩ := bmod_wrapped hi hmost
  have hnegative : (BitVec.ofInt 32 ((p.bitIndex.sshiftRight 3).toInt - p.buffer.writerIndex + 1 +
      (n + 7) / 8)).toInt < 0 := by
    rw [hindex, bytePos_bmod, hwrapped, BitVec.toInt_ofInt,
      Int.bmod_eq_of_le (by omega) (by omega)]
    omega
  have hensure : ∀ f : Unit → Op Unit, (ensureWritable spare
      (BitVec.ofInt 32 ((p.bitIndex.sshiftRight 3).toInt - p.buffer.writerIndex + 1 +
        (n + 7) / 8)).toInt >>= f) p.buffer = none := by
    intro f
    change (ensureWritable spare _ p.buffer).bind _ = none
    rw [ensureWritable, if_pos hnegative, Option.bind_none]
  rw [putBits]
  split_ifs with hmode
  · rfl
  · dsimp only
    rw [hensure, Option.map_none]

/-- A section that the builder gets through, up to the switch back, is short. -/
theorem putFields_short {spare : Spare} {fields : List Field} {p q : GamePacketBuilder} {r w i : ℕ}
    (h : putFields spare fields p = some q) (hbits : p.InBits r w i) (hi : i < 2 ^ 31 + 32) :
    q.InBits r w (i + totalBits fields) ∧ i + totalBits fields < 2 ^ 31 + 32 := by
  induction fields generalizing p i with
  | nil =>
    cases h
    exact ⟨hbits, hi⟩
  | cons f fields ih =>
    obtain ⟨m, hm, hrest⟩ := Option.bind_eq_some_iff.mp h
    have hstart := hbits.start
    have hmost := f.most
    by_cases hlow : i < 2 ^ 31
    · obtain ⟨m', hm', hbits', -⟩ := putBits_field spare hbits hlow f.most f.positive f.value
      rw [hm] at hm'
      cases hm'
      rw [totalBits, ← Nat.add_assoc]
      exact ih hrest hbits' (by omega)
    · have hnone := putBits_none spare f.value hbits.index (by omega) (by omega)
        (by rwa [hbits.writer]) (by rw [hbits.writer]; omega) f.most
      rw [hm] at hnone
      cases hnone

/-- The switch back throws, or goes back in the buffer. -/
theorem switchToByteAccess_back {p q : GamePacketBuilder} {i : ℕ}
    (h : p.switchToByteAccess = some q) (hmode : p.mode = .bitAccess)
    (hindex : p.bitIndex = BitVec.ofNat 32 i) (hi : 2 ^ 31 ≤ i + 7) (hmost : i + 7 < 2 ^ 34) :
    8 * q.buffer.writerIndex + 2 ^ 32 ≤ i + 14 := by
  obtain ⟨j, hlow, hhigh, hwrapped⟩ := bmod_wrapped hi hmost
  have hround : (p.bitIndex + 7).toInt = i + 7 - j * 2 ^ 32 := by
    rw [hindex, show (7 : Word) = BitVec.ofNat 32 7 from rfl, ← BitVec.ofNat_add,
      BitVec.toInt_ofNat', hwrapped, Nat.cast_add]
    rfl
  rw [switchToByteAccess, if_neg (by rw [hmode]; decide), hround] at h
  obtain ⟨⟨_, c⟩, hset, rfl⟩ := Option.map_eq_some_iff.mp h
  unfold setWriterIndex at hset
  split_ifs at hset with hrange
  cases hset
  dsimp only
  rw [Int.tdiv_eq_ediv, show Int.sign 8 = 1 from rfl] at hrange ⊢
  split_ifs at hrange ⊢ with hsign
  · omega
  · omega

/-- Whatever the section, what the builder gets through without going back is a short one. -/
theorem fits_of_putFields {spare : Spare} {fields : List Field} {p q m : GamePacketBuilder}
    (hmode : p.mode = .byteAccess) (hcapacity : p.buffer.bytes.length ≤ maxCapacity)
    (hq : putFields spare fields p.switchToBitAccess = some q)
    (hm : q.switchToByteAccess = some m) (hkeeps : p.buffer.writerIndex ≤ m.buffer.writerIndex) :
    (Part.bits fields).Fits p.buffer.writerIndex ∧ m.mode = .byteAccess ∧
      m.buffer.bytes = q.buffer.bytes ∧
      m.buffer.writerIndex = (Part.bits fields).stop p.buffer.writerIndex := by
  have hwriter := p.buffer.writer_le
  obtain ⟨-, hbits⟩ := switchToBitAccess_inBits hmode
  rw [maxCapacity] at hcapacity
  change (8 * p.buffer.writerIndex + totalBits fields + 7) / 8 < 2 ^ 28 ∧ _
  by_cases hlow : 8 * p.buffer.writerIndex < 2 ^ 31
  · obtain ⟨hend, hmost⟩ := putFields_short hq hbits (by omega)
    by_cases hshort : (8 * p.buffer.writerIndex + totalBits fields + 7) / 8 < 2 ^ 28
    · obtain ⟨m', hm', hbyte, hbytes, -, hw⟩ := switchToByteAccess_round hend hshort
      rw [hm] at hm'
      cases hm'
      exact ⟨hshort, hbyte, hbytes, hw⟩
    · have hback := switchToByteAccess_back hm hend.mode hend.index (by omega) (by omega)
      omega
  · cases fields with
    | nil =>
      cases hq
      have hback := switchToByteAccess_back hm hbits.mode hbits.index (by omega) (by omega)
      omega
    | cons f fields =>
      have hnone := putBits_none spare f.value hbits.index (by omega) (by omega)
        (by rw [hbits.writer])
        (by rw [hbits.writer]; omega) f.most
      rw [putFields, hnone] at hq
      cases hq

theorem bounded_putLoop (v : Word) (n : ℕ) (used : BitVec 3) (bytePos : ℤ) :
    Bounded (putLoop v n used bytePos) := by
  induction n using Nat.strong_induction_on generalizing used bytePos with
  | _ n ih =>
    rw [putLoop]
    split_ifs with hloop hlast
    · exact (bounded_getByte _).bind fun _ => (bounded_setByte _ _).bind fun _ =>
        ih _ (by have := used.isLt; omega) _ _
    · exact (bounded_getByte _).bind fun _ => bounded_setByte _ _
    · exact (bounded_getByte _).bind fun _ => bounded_setByte _ _

theorem putFields_bounded {fields : List Field} {p q : GamePacketBuilder}
    (h : putFields .zeros fields p = some q) (hp : p.buffer.bytes.length ≤ maxCapacity) :
    q.buffer.bytes.length ≤ maxCapacity := by
  induction fields generalizing p with
  | nil =>
    cases h
    exact hp
  | cons f fields ih =>
    obtain ⟨m, hm, hrest⟩ := Option.bind_eq_some_iff.mp h
    rw [putBits] at hm
    split_ifs at hm with hmode
    obtain ⟨⟨u, c⟩, hc, rfl⟩ := Option.map_eq_some_iff.mp hm
    exact ih hrest (((bounded_ensureWritable _).bind fun _ => bounded_putLoop _ _ _ _) _ _ _ hc hp)

/-- What the builder gets through fits. -/
theorem fits_of_putPart {part : Part} {p m : GamePacketBuilder} (hmode : p.mode = .byteAccess)
    (hcapacity : p.buffer.bytes.length ≤ maxCapacity) (hm : p.putPart .zeros part = some m)
    (hkeeps : Keeps p.buffer m.buffer) :
    part.Fits p.buffer.writerIndex ∧ m.mode = .byteAccess ∧
      m.buffer.bytes.length ≤ maxCapacity ∧
      m.buffer.writerIndex = part.stop p.buffer.writerIndex := by
  cases part with
  | bytes content =>
    obtain ⟨⟨u, c⟩, hc, rfl⟩ := Option.map_eq_some_iff.mp hm
    obtain ⟨hfits, hbytes, hw⟩ := writeBytes_fits hc hcapacity
    exact ⟨hfits, hmode, hbytes, hw⟩
  | bits fields =>
    obtain ⟨q, hq, hback⟩ := Option.bind_eq_some_iff.mp hm
    obtain ⟨hfits, hbyte, hbytes, hstop⟩ :=
      fits_of_putFields hmode hcapacity hq hback hkeeps.writer
    refine ⟨hfits, hbyte, ?_, hstop⟩
    rw [hbytes]
    apply putFields_bounded hq
    rwa [(switchToBitAccess_inBits hmode).1]

end GamePacketBuilder

theorem fits_of_builds {parts : List Part} {p q : GamePacketBuilder} (hmode : p.mode = .byteAccess)
    (hcapacity : p.buffer.bytes.length ≤ maxCapacity) (h : Builds .zeros parts p q) :
    Fits p.buffer.writerIndex parts := by
  induction parts generalizing p with
  | nil => trivial
  | cons part parts ih =>
    obtain ⟨m, hm, hkeeps, hrest⟩ := h
    obtain ⟨hfits, hbyte, hm', hstop⟩ :=
      GamePacketBuilder.fits_of_putPart hmode hcapacity hm hkeeps
    have hlater := ih hbyte hm' hrest
    rw [hstop] at hlater
    exact ⟨hfits, hlater⟩

/-- What is put is read back exactly where every bit section ends below byte 2^28 and the packet
below `Integer.MAX_VALUE`. -/
theorem roundTrips_iff {b : ByteBuf} (hcapacity : b.bytes.length ≤ maxCapacity)
    (parts : List Part) : RoundTrips b parts ↔ Fits b.writerIndex parts := by
  constructor
  · intro h
    obtain ⟨q, hq, -⟩ := h .zeros
    exact @fits_of_builds parts { buffer := b } q rfl hcapacity hq
  · exact roundTrips_of_fits hcapacity

/-- Fields across five bytes between bytes. -/
theorem roundTrips_straddling : RoundTrips ⟨[9], 0, 1, by decide, by decide⟩
    [.bytes [1, 2], .bits [⟨3, 5, by decide, by decide⟩, ⟨32, -1, by decide, by decide⟩],
      .bits [⟨1, 1, by decide, by decide⟩], .bytes [7]] :=
  (roundTrips_iff (by decide) _).mpr (by decide)

/-- One bit behind 2^28 bytes: the builder asks for negative space. -/
theorem not_roundTrips_behind : ¬ RoundTrips
    ⟨List.replicate (2 ^ 28) 0, 0, 2 ^ 28, Nat.zero_le _, by rw [List.length_replicate]⟩
    [.bits [⟨1, 1, by decide, by decide⟩]] := by
  intro h
  obtain ⟨q, hq, -⟩ := h .zeros
  have hcapacity : (List.replicate (2 ^ 28) (0 : Byte)).length ≤ maxCapacity := by
    rw [List.length_replicate, maxCapacity]
    omega
  obtain ⟨hfits, -⟩ := fits_of_builds rfl hcapacity hq
  simp only [Part.Fits, totalBits] at hfits
  omega

end OpenNXT.Net.Buf
