import OpenNXT.Net.Login.LoginRSAHeader

/-! Which headers of a login request are read back, of both kinds. -/
namespace OpenNXT.Net
open Buffer Ext

namespace LoginRSAHeader

/-- The block before it is encrypted. -/
def block : LoginRSAHeader → Option (List Byte)
  | fresh header => header.block
  | reconnecting header => some header.block

/-- Any old seeds, and for a fresh header a value its thing id can carry and a password a zero byte
may end. -/
def Accepted : LoginRSAHeader → Prop
  | fresh header => header.Accepted
  | reconnecting _ => True

/-- The size field counts the encrypted number's bytes. -/
def FitsSize (encrypted : ℕ) : Prop := encrypted.size < 8 * 65535

/-- What comes back: a fresh header with a password of the charset, and a reconnecting one whose
block, raised to the modulus modulo the exponent, happens to be the encryption of a number that
begins with the block. -/
def Carried (exponent modulus : ℕ) : LoginRSAHeader → Prop
  | fresh header => (∀ c ∈ header.password, Windows1252.Encodable c) ∧
      ∀ block ∈ header.block, FitsSize (ofBytes block ^ exponent % modulus)
  | reconnecting header => FitsSize (ofBytes header.block ^ modulus % exponent) ∧
      ∃ m < modulus, header.block <+: BigInteger.toByteArray m ∧
        m ^ exponent % modulus = ofBytes header.block ^ modulus % exponent % modulus

end LoginRSAHeader

section Sized
open LoginRSAHeader

theorem length_lt_iff_fitsSize (n : ℕ) :
    (BigInteger.toByteArray n).length < 2 ^ 16 ↔ FitsSize n := by
  rw [BigInteger.length_toByteArray, BigInteger.bitLength_natCast, FitsSize]
  omega

theorem readLoginHeader_written {type : LoginType} {decryption modulus : ℤ}
    {flag crypted : List Byte} {reconnecting : Bool}
    (hflag : Reads (readReconnecting type) flag reconnecting) (h : crypted.length < 2 ^ 16)
    (rest : List Byte) :
    readLoginHeader type decryption modulus
        (flag ++ (writeShort (BitVec.ofNat 32 crypted.length) ++ crypted) ++ rest) =
      (decryptBlock decryption modulus reconnecting crypted).map fun header => (header, rest) := by
  obtain ⟨hsize, hraw⟩ := reads_sized crypted h
  rw [List.append_assoc, List.append_assoc, readLoginHeader, Reader.bind_apply, hflag,
    Option.bind_some, Reader.bind_apply, hsize, Option.bind_some, Reader.bind_apply, hraw,
    Option.bind_some, Reader.ofOption]

/-- A size that is cut off leaves bytes of the block unread. -/
theorem reads_written_iff {type : LoginType} {decryption modulus : ℤ} {flag crypted : List Byte}
    {reconnecting : Bool} {header : LoginRSAHeader}
    (hflag : Reads (readReconnecting type) flag reconnecting) :
    Reads (readLoginHeader type decryption modulus)
        (flag ++ (writeShort (BitVec.ofNat 32 crypted.length) ++ crypted)) header ↔
      crypted.length < 2 ^ 16 ∧
        decryptBlock decryption modulus reconnecting crypted = some header := by
  constructor
  · intro h
    have hrun := h.run
    have hsize := reads_unsigned_low 2 (BitVec.ofNat 32 crypted.length) crypted
    have hcount : (((BitVec.ofNat 32 crypted.length).setWidth (8 * 2)).setWidth 32).toNat =
        crypted.length % 2 ^ 16 := by
      rw [BitVec.toNat_setWidth, BitVec.toNat_setWidth, BitVec.toNat_ofNat]
      omega
    have hle : crypted.length % 2 ^ 16 ≤ crypted.length := Nat.mod_le _ _
    rw [readLoginHeader, Reader.bind_apply, hflag, Option.bind_some, Reader.bind_apply,
      readUnsignedShort, writeShort, hsize, Option.bind_some, hcount, Reader.bind_apply,
      Reader.bytes, if_pos hle, Option.bind_some] at hrun
    obtain ⟨value, hvalue, hrest⟩ := Option.map_eq_some_iff.mp hrun
    obtain ⟨rfl, hdrop⟩ := Prod.mk.inj hrest
    have hall : crypted.length ≤ crypted.length % 2 ^ 16 := List.drop_eq_nil_iff.mp hdrop
    refine ⟨by omega, ?_⟩
    rwa [List.take_of_length_le hall] at hvalue
  · rintro ⟨hlen, hdecrypt⟩ rest
    rw [readLoginHeader_written hflag hlen, hdecrypt]
    rfl

end Sized

section Reconnecting
open LoginRSAHeader

theorem writeByte_of_readUnsignedByte {bs rest : List Byte} {v : Word}
    (h : readUnsignedByte bs = some (v, rest)) : bs = writeByte v ++ rest := by
  rw [readUnsignedByte, readUnsigned, Reader.bind_apply] at h
  obtain ⟨⟨w, tail⟩, hw, hv⟩ := Option.bind_eq_some_iff.mp h
  cases hv
  rw [Reader.eq_append_of_word hw, writeByte]
  congr 2
  apply BitVec.eq_of_toNat_eq
  have hlt := w.isLt
  dsimp only
  rw [BitVec.toNat_setWidth, BitVec.toNat_setWidth]
  omega

theorem writeSeeds_of_readSeeds {bs rest : List Byte} {seeds : Seeds}
    (h : readSeeds bs = some (seeds, rest)) : bs = writeSeeds seeds ++ rest := by
  rw [readSeeds, Reader.bind_apply] at h
  obtain ⟨⟨seed0, tail0⟩, h0, h⟩ := Option.bind_eq_some_iff.mp h
  rw [Reader.bind_apply] at h
  obtain ⟨⟨seed1, tail1⟩, h1, h⟩ := Option.bind_eq_some_iff.mp h
  rw [Reader.bind_apply] at h
  obtain ⟨⟨seed2, tail2⟩, h2, h⟩ := Option.bind_eq_some_iff.mp h
  rw [Reader.bind_apply] at h
  obtain ⟨⟨seed3, tail3⟩, h3, h⟩ := Option.bind_eq_some_iff.mp h
  cases h
  dsimp only at h1 h2 h3 ⊢
  rw [Reader.eq_append_of_word h0, Reader.eq_append_of_word h1, Reader.eq_append_of_word h2,
    Reader.eq_append_of_word h3, writeSeeds]
  simp only [List.append_assoc]
  rfl

/-- A reconnecting header is read from whatever begins with its block. -/
theorem readBlock_reconnecting_iff {bs : List Byte} {header : Reconnecting} :
    (∃ rest, readBlock true bs = some (.reconnecting header, rest)) ↔ header.block <+: bs := by
  constructor
  · rintro ⟨rest, h⟩
    rw [readBlock, Reader.bind_apply] at h
    obtain ⟨⟨magic, tail⟩, hmagic, h⟩ := Option.bind_eq_some_iff.mp h
    dsimp only at h
    split_ifs at h with hten
    · cases h
    rw [not_not] at hten
    rw [readFields, Reader.bind_apply] at h
    obtain ⟨⟨seeds, tail0⟩, hseeds, h⟩ := Option.bind_eq_some_iff.mp h
    rw [Reader.bind_apply] at h
    obtain ⟨⟨uniqueId, tail1⟩, hunique, h⟩ := Option.bind_eq_some_iff.mp h
    rw [if_pos rfl, Reader.bind_apply] at h
    obtain ⟨⟨oldSeeds, tail2⟩, hold, h⟩ := Option.bind_eq_some_iff.mp h
    cases h
    dsimp only at hunique hold
    rw [writeByte_of_readUnsignedByte hmagic, hten, writeSeeds_of_readSeeds hseeds,
      Reader.eq_append_of_word hunique, writeSeeds_of_readSeeds hold]
    refine ⟨tail2, ?_⟩
    simp only [Reconnecting.block, List.append_assoc]
    rfl
  · rintro ⟨rest, rfl⟩
    refine ⟨rest, ?_⟩
    have hfields : Reads (readFields true)
        (writeSeeds header.seeds ++ (writeLong header.uniqueId ++ writeSeeds header.oldSeeds))
        (.reconnecting header) := by
      refine Reads.bind (reads_seeds header.seeds) ?_
      refine Reads.bind (reads_long header.uniqueId) ?_
      rw [if_pos rfl]
      exact (reads_seeds header.oldSeeds).map _
    have hread : Reads (if (10 : Word) ≠ 10 then Reader.fail else readFields true)
        (writeSeeds header.seeds ++ (writeLong header.uniqueId ++ writeSeeds header.oldSeeds))
        (.reconnecting header) := by
      rwa [if_neg (not_not.mpr rfl)]
    exact Reads.bind (reads_unsignedByte (v := 10) (by decide)) hread rest

/-- What is encrypted to a number is its decryption. -/
theorem encrypt_decrypt {exponent decryption modulus : ℕ}
    (hkey : ∀ m < modulus, (m ^ exponent % modulus) ^ decryption % modulus = m) {value : ℕ}
    (h : value < modulus) : (value ^ decryption % modulus) ^ exponent % modulus = value := by
  have hpos : 0 < modulus := by omega
  have hlt : ∀ m : ℕ, m % modulus < modulus := fun m => Nat.mod_lt _ hpos
  let encrypt : Fin modulus → Fin modulus := fun m => ⟨m.val ^ exponent % modulus, hlt _⟩
  let decrypt : Fin modulus → Fin modulus := fun m => ⟨m.val ^ decryption % modulus, hlt _⟩
  have hleft : Function.LeftInverse decrypt encrypt := fun m => Fin.ext (hkey m.val m.isLt)
  have hsurjective : Function.Surjective encrypt := Finite.surjective_of_injective hleft.injective
  have hright := hleft.rightInverse_of_surjective hsurjective
  exact congrArg Fin.val (hright ⟨value, h⟩)

theorem decryptBlock_reconnecting_iff {exponent decryption modulus : ℕ}
    (hkey : ∀ m < modulus, (m ^ exponent % modulus) ^ decryption % modulus = m)
    (hmodulus : 0 < modulus) (encrypted : ℕ) {header : Reconnecting} :
    decryptBlock decryption modulus true (BigInteger.toByteArray encrypted) =
        some (.reconnecting header) ↔
      ∃ m < modulus, header.block <+: BigInteger.toByteArray m ∧
        m ^ exponent % modulus = encrypted % modulus := by
  rw [decryptBlock, crypt_natCast hmodulus, Option.bind_eq_bind, Option.bind_some]
  have hread : ((readBlock true (BigInteger.toByteArray (encrypted ^ decryption % modulus : ℕ))).bind
      fun header => some header.1) = some (.reconnecting header) ↔
        header.block <+: BigInteger.toByteArray (encrypted ^ decryption % modulus : ℕ) := by
    rw [← readBlock_reconnecting_iff, Option.bind_eq_some_iff]
    constructor
    · rintro ⟨⟨value, rest⟩, hvalue, heq⟩
      cases heq
      exact ⟨rest, hvalue⟩
    · rintro ⟨rest, hvalue⟩
      exact ⟨(_, rest), hvalue, rfl⟩
  refine hread.trans ?_
  constructor
  · intro hbegins
    refine ⟨encrypted ^ decryption % modulus, Nat.mod_lt _ hmodulus, hbegins, ?_⟩
    have hback := encrypt_decrypt hkey (Nat.mod_lt encrypted hmodulus)
    rwa [(Nat.pow_mod encrypted decryption modulus).symm] at hback
  · rintro ⟨m, hm, hbegins, heq⟩
    have hback := hkey m hm
    rw [heq, ← Nat.pow_mod] at hback
    rwa [hback]

end Reconnecting

section Headers
open LoginRSAHeader
variable {exponent decryption modulus : ℕ}

private theorem decryptBlock_fresh
    (hkey : ∀ m < modulus, (m ^ exponent % modulus) ^ decryption % modulus = m) {header : Fresh}
    {tail : List Byte} (hlt : ofBytes (10 :: tail) < modulus)
    (hread : Reads (readBlock false) (10 :: tail) (.fresh header)) :
    decryptBlock decryption modulus false
        (BigInteger.toByteArray (ofBytes (10 :: tail) ^ exponent % modulus : ℕ)) =
      some (.fresh header) := by
  have hback : BigInteger.toByteArray (ofBytes (10 :: tail)) = 10 :: tail :=
    BigInteger.toByteArray_ofBytes tail (by decide) (by decide)
  rw [decryptBlock, crypt_natCast (by omega), hkey _ hlt, hback, Option.bind_eq_bind,
    Option.bind_some, hread.run]
  rfl

private theorem reads_reconnecting_one {type : LoginType} (h : hasReconnectByte type) :
    Reads (readReconnecting type) (writeByte 1) true := by
  rw [readReconnecting, if_pos h]
  exact (reads_unsignedByte (v := 1) (by decide)).map fun flag => decide (flag = 1)

private theorem writeLoginHeader_fresh {type : LoginType} {header : Fresh} {bytes tail : List Byte}
    (hmodulus : 0 < modulus) (hblock : header.block = some (10 :: tail))
    (hwritten : writeLoginHeader type (.fresh header) exponent modulus = some bytes) :
    bytes = (if hasReconnectByte type then writeByte 0 else []) ++
      (writeShort (BitVec.ofNat 32 (BigInteger.toByteArray
          (ofBytes (10 :: tail) ^ exponent % modulus : ℕ)).length) ++
        BigInteger.toByteArray (ofBytes (10 :: tail) ^ exponent % modulus : ℕ)) := by
  rw [writeLoginHeader, hblock, Option.bind_eq_bind, Option.bind_some,
    crypt_cons hmodulus (by decide) (by decide)] at hwritten
  cases hwritten
  rfl

/-- The writer takes the modulus for the exponent. -/
private theorem writeLoginHeader_reconnecting {type : LoginType} {header : Reconnecting}
    {bytes : List Byte}
    (hwritten : writeLoginHeader type (.reconnecting header) exponent modulus = some bytes) :
    hasReconnectByte type ∧ bytes = writeByte 1 ++
      (writeShort (BitVec.ofNat 32 (BigInteger.toByteArray
          (ofBytes header.block ^ modulus % exponent : ℕ)).length) ++
        BigInteger.toByteArray (ofBytes header.block ^ modulus % exponent : ℕ)) := by
  have hten : header.block = 10 :: (writeSeeds header.seeds ++ (writeLong header.uniqueId ++
    writeSeeds header.oldSeeds)) := rfl
  rw [writeLoginHeader] at hwritten
  split_ifs at hwritten with hflag
  refine ⟨hflag, ?_⟩
  by_cases hexponent : 0 < exponent
  · rw [hten, crypt_cons hexponent (by decide) (by decide), Option.bind_eq_bind,
      Option.bind_some, ← hten] at hwritten
    cases hwritten
    rfl
  · have hnone : crypt modulus exponent header.block = none := by
      rw [crypt]
      cases BigInteger.ofByteArray header.block with
      | none => rfl
      | some value =>
        rw [Option.bind_eq_bind, Option.bind_some, BigInteger.modPow, if_pos (by omega)]
        rfl
    rw [hnone] at hwritten
    cases hwritten

/-- A header is read back in front of any further bytes exactly if it is carried. -/
theorem reads_writeLoginHeader_iff
    (hkey : ∀ m < modulus, (m ^ exponent % modulus) ^ decryption % modulus = m)
    {type : LoginType} {header : LoginRSAHeader} {bytes : List Byte} (haccepted : header.Accepted)
    (hblock : ∀ block ∈ header.block, ofBytes block < modulus)
    (hwritten : writeLoginHeader type header exponent modulus = some bytes) :
    Reads (readLoginHeader type decryption modulus) bytes header ↔
      header.Carried exponent modulus := by
  cases header with
  | fresh header =>
    obtain ⟨tail, htail, hread⟩ := reads_block_inCharset haccepted
    have hlt : ofBytes (10 :: tail) < modulus := hblock _ htail
    have hdecrypt := decryptBlock_fresh hkey hlt hread
    rw [writeLoginHeader_fresh (by omega) htail hwritten,
      reads_written_iff (reads_reconnecting type), hdecrypt, length_lt_iff_fitsSize, Carried, htail,
      ← Fresh.inCharset_eq_iff, and_comm]
    simp
  | reconnecting header =>
    have hlt : ofBytes header.block < modulus := hblock _ rfl
    obtain ⟨hflag, hbytes⟩ := writeLoginHeader_reconnecting hwritten
    rw [hbytes, reads_written_iff (reads_reconnecting_one hflag),
      decryptBlock_reconnecting_iff hkey (by omega), length_lt_iff_fitsSize]
    rfl

/-- A login with an empty password. -/
def emptyPasswordHeader : Fresh where
  seeds := Vector.replicate 4 7
  uniqueId := 77
  weirdThingId := 3
  weirdThingValue := 0
  thatBoolean := false
  password := []
  someLong := 5
  randClient := 9

theorem reads_emptyPasswordHeader :
    ∃ bytes, writeLoginHeader .game (.fresh emptyPasswordHeader) (65537 : ℕ) keyModulus = some bytes ∧
      Reads (readLoginHeader .game keyDecryption keyModulus) bytes
        (.fresh emptyPasswordHeader) := by
  have haccepted : emptyPasswordHeader.Accepted :=
    ⟨Or.inr (Or.inr ⟨rfl, rfl⟩), List.not_mem_nil⟩
  have hlt : ∀ block ∈ emptyPasswordHeader.block, ofBytes block < keyModulus := by
    intro block hblock
    have hlen : block.length = 48 := length_block hblock
    have hbytes := ofBytes_lt block
    have hmodulus : 256 ^ 48 ≤ keyModulus := by decide +kernel
    rw [hlen] at hbytes
    exact hbytes.trans_le hmodulus
  obtain ⟨tail, htail, -⟩ := reads_block_inCharset haccepted
  have hpos : 0 < keyModulus := (Nat.zero_le _).trans_lt (hlt _ htail)
  have hcrypt := @crypt_cons 65537 keyModulus hpos 10 tail (by decide) (by decide)
  have hsize : ∀ v, (v % keyModulus).size < 8 * 65535 := by
    intro v
    have hle : keyModulus.size ≤ 2000 := by
      rw [Nat.size_le]
      decide +kernel
    exact ((Nat.size_le_size (Nat.mod_lt v hpos).le).trans hle).trans_lt (by decide)
  have hcarried : (LoginRSAHeader.fresh emptyPasswordHeader).Carried 65537 keyModulus := by
    constructor
    · exact fun c hc => absurd hc List.not_mem_nil
    · exact fun block _ => hsize _
  have hwritten : ∃ bytes,
      writeLoginHeader .game (.fresh emptyPasswordHeader) (65537 : ℕ) keyModulus = some bytes := by
    rw [writeLoginHeader, htail, Option.bind_eq_bind, Option.bind_some, hcrypt]
    exact ⟨_, rfl⟩
  obtain ⟨bytes, hbytes⟩ := hwritten
  have hheader : (LoginRSAHeader.fresh emptyPasswordHeader).Accepted := haccepted
  exact ⟨bytes, hbytes, (reads_writeLoginHeader_iff decrypts hheader hlt hbytes).mpr hcarried⟩

/-- A number that is one modulo the public exponent. -/
def reconnectHeader : Reconnecting where
  seeds := #v[0, 0, 0, 0]
  uniqueId := 0
  oldSeeds := #v[0, 0, 0, 65528]

private theorem pow_mod_eq_one {a m : ℕ} (h : a % m = 1) (n : ℕ) : a ^ n % m = 1 := by
  rw [Nat.pow_mod, h, Nat.one_pow, ← h, Nat.mod_mod]

private theorem toByteArray_one : BigInteger.toByteArray (1 : ℕ) = [1] := by
  have hone := @BigInteger.toByteArray_ofBytes 1 [] (by decide) (by decide)
  rwa [show ofBytes [1] = 1 from rfl] at hone

/-- One is decrypted to itself, which is not the magic byte. -/
private theorem decryptBlock_one (hmodulus : 1 < modulus) (reconnecting : Bool) :
    decryptBlock decryption modulus reconnecting (BigInteger.toByteArray (1 : ℕ)) = none := by
  rw [decryptBlock, crypt_natCast (by omega), Nat.one_pow, Nat.mod_eq_of_lt hmodulus,
    toByteArray_one]
  rfl

/-- Under a key of which decryption undoes encryption, a block is raised to the modulus, and
decrypted to one. -/
theorem reconnectHeader_not_read :
    (∀ m < keyModulus, (m ^ 65537 % keyModulus) ^ keyDecryption % keyModulus = m) ∧
      ofBytes reconnectHeader.block < keyModulus ∧
      ∃ bytes, writeLoginHeader .game (.reconnecting reconnectHeader) (65537 : ℕ) keyModulus =
          some bytes ∧
        readLoginHeader .game keyDecryption keyModulus bytes = none := by
  have hlt : 1 < keyModulus ∧ ofBytes reconnectHeader.block < keyModulus := by decide +kernel
  have hresidue : ofBytes reconnectHeader.block % 65537 = 1 := by decide +kernel
  have hcrypted : crypt keyModulus (65537 : ℕ) reconnectHeader.block =
      some (BigInteger.toByteArray (1 : ℕ)) := by
    have hten : reconnectHeader.block = 10 :: (writeSeeds reconnectHeader.seeds ++
      (writeLong reconnectHeader.uniqueId ++ writeSeeds reconnectHeader.oldSeeds)) := rfl
    have hcons := @crypt_cons keyModulus 65537 (by omega) 10 (writeSeeds reconnectHeader.seeds ++
      (writeLong reconnectHeader.uniqueId ++ writeSeeds reconnectHeader.oldSeeds))
      (by decide) (by decide)
    rwa [← hten, pow_mod_eq_one hresidue] at hcons
  refine ⟨decrypts, hlt.2, writeByte 1 ++ (writeShort (BitVec.ofNat 32
    (BigInteger.toByteArray (1 : ℕ)).length) ++ BigInteger.toByteArray (1 : ℕ)), ?_, ?_⟩
  · have hflag : hasReconnectByte .game = true := rfl
    rw [writeLoginHeader, if_pos hflag, hcrypted]
    rfl
  · have hflag : Reads (readReconnecting .game) (writeByte 1) true := reads_reconnecting_one rfl
    have hlen : (BigInteger.toByteArray (1 : ℕ)).length < 2 ^ 16 := by
      rw [toByteArray_one]
      decide
    have hread := @readLoginHeader_written .game keyDecryption keyModulus _ _ _ hflag hlen []
    rwa [decryptBlock_one hlt.1, List.append_nil] at hread

end Headers

end OpenNXT.Net
