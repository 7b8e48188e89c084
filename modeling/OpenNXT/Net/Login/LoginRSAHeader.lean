import Mathlib.NumberTheory.LucasLehmer
import OpenNXT.Arithmetic.Rsa
import OpenNXT.Buffer.BigInteger
import OpenNXT.Net.Login.LoginPacket

/-! The header of a login request: a block encrypted with RSA. -/
namespace OpenNXT.Net
open Buffer Ext

def readSeeds : Reader Seeds := do
  let seed0 ← readInt
  let seed1 ← readInt
  let seed2 ← readInt
  let seed3 ← readInt
  return #v[seed0, seed1, seed2, seed3]

def writeSeeds (seeds : Seeds) : List Byte :=
  writeInt seeds[0] ++ (writeInt seeds[1] ++ (writeInt seeds[2] ++ writeInt seeds[3]))

namespace LoginRSAHeader

/-- `BigInteger(raw).modPow(exponent, modulus).toByteArray()` -/
def crypt (exponent modulus : ℤ) (raw : List Byte) : Option (List Byte) := do
  let value ← BigInteger.ofByteArray raw
  let result ← BigInteger.modPow value exponent modulus
  return BigInteger.toByteArray result

/-- Only a game login says whether it reconnects. -/
def hasReconnectByte (type : LoginType) : Bool := type = .game ∨ type = .gameAlt

def readThingValue (thingId : Word) : Reader Word :=
  if thingId = 0 ∨ thingId = 1 then do
    let value ← readUnsignedMedium
    let _ ← Reader.bytes 1
    return value
  else if thingId = 2 then readInt
  else if thingId = 3 then do
    let _ ← Reader.bytes 4
    return 0
  else Reader.fail

/-- What follows the magic byte. -/
def readFields (reconnecting : Bool) : Reader LoginRSAHeader := do
  let seeds ← readSeeds
  let uniqueId ← readLong
  if reconnecting then do
    let oldSeeds ← readSeeds
    return .reconnecting ⟨seeds, uniqueId, oldSeeds⟩
  else do
    let thingId ← readUnsignedByte
    let thingValue ← readThingValue thingId
    let someBool ← readUnsignedByte
    let password ← readString
    let someLong ← readLong
    let randClient ← readLong
    return .fresh ⟨seeds, uniqueId, thingId, thingValue, someBool = 1, password, someLong, randClient⟩

/-- A decrypted block without the magic byte is rejected. -/
def readBlock (reconnecting : Bool) : Reader LoginRSAHeader := do
  let magic ← readUnsignedByte
  if magic ≠ 10 then Reader.fail else readFields reconnecting

/-- The block is read from a buffer of its own. -/
def decryptBlock (exponent modulus : ℤ) (reconnecting : Bool) (raw : List Byte) :
    Option LoginRSAHeader := do
  let block ← crypt exponent modulus raw
  let header ← readBlock reconnecting block
  return header.1

def readReconnecting (type : LoginType) : Reader Bool :=
  if hasReconnectByte type then do
    let flag ← readUnsignedByte
    return flag = 1
  else return false

def readLoginHeader (type : LoginType) (exponent modulus : ℤ) : Reader LoginRSAHeader := do
  let reconnecting ← readReconnecting type
  let size ← readUnsignedShort
  let raw ← Reader.bytes size.toNat
  Reader.ofOption (decryptBlock exponent modulus reconnecting raw)

/-- A thing id above 3 is an exception. -/
def thingBytes (thingId thingValue : Word) : Option (List Byte) :=
  if thingId = 0 ∨ thingId = 1 then some (writeMedium thingValue ++ writeByte 0)
  else if thingId = 2 then some (writeInt thingValue)
  else if thingId = 3 then some (writeInt 0)
  else none

/-- What a fresh header writes behind the magic byte. -/
def Fresh.fields (header : Fresh) (thing : List Byte) : List Byte :=
  writeSeeds header.seeds ++ (writeLong header.uniqueId ++ (writeByte header.weirdThingId ++
    (thing ++ (writeBoolean header.thatBoolean ++ (writeString header.password ++
      (writeLong header.someLong ++ writeLong header.randClient))))))

def Fresh.block (header : Fresh) : Option (List Byte) := do
  let thing ← thingBytes header.weirdThingId header.weirdThingValue
  return writeByte 10 ++ header.fields thing

def Reconnecting.block (header : Reconnecting) : List Byte :=
  writeByte 10 ++ (writeSeeds header.seeds ++ (writeLong header.uniqueId ++
    writeSeeds header.oldSeeds))

/-- The reconnecting block is raised to the modulus, modulo the exponent. A reconnecting header in a
lobby login is a cast exception. -/
def writeLoginHeader (type : LoginType) (header : LoginRSAHeader) (exponent modulus : ℤ) :
    Option (List Byte) :=
  match header with
  | .reconnecting header =>
    if hasReconnectByte type then do
      let crypted ← crypt modulus exponent header.block
      return writeByte 1 ++ (writeShort (BitVec.ofNat 32 crypted.length) ++ crypted)
    else none
  | .fresh header => do
    let block ← header.block
    let crypted ← crypt exponent modulus block
    return (if hasReconnectByte type then writeByte 0 else []) ++
      (writeShort (BitVec.ofNat 32 crypted.length) ++ crypted)

/-- A value the header can carry: three bytes, a whole word or zero, and a password a zero byte may
end. -/
structure Fresh.Valid (header : Fresh) : Prop where
  thing : (header.weirdThingId = 0 ∨ header.weirdThingId = 1) ∧ header.weirdThingValue.toNat < 2 ^ 24 ∨
    header.weirdThingId = 2 ∨ header.weirdThingId = 3 ∧ header.weirdThingValue = 0
  password : Windows1252.Plain header.password

/-- A header whose password need not be of the charset. -/
structure Fresh.Accepted (header : Fresh) : Prop where
  thing : (header.weirdThingId = 0 ∨ header.weirdThingId = 1) ∧ header.weirdThingValue.toNat < 2 ^ 24 ∨
    header.weirdThingId = 2 ∨ header.weirdThingId = 3 ∧ header.weirdThingValue = 0
  password : '\x00' ∉ header.password

/-- The header with question marks in its password. -/
def Fresh.inCharset (header : Fresh) : Fresh :=
  { header with password := Windows1252.decode (Windows1252.encode header.password) }

theorem Fresh.Valid.accepted {header : Fresh} (h : header.Valid) : header.Accepted where
  thing := h.thing
  password hzero := (h.password _ hzero).2 rfl

theorem Fresh.inCharset_eq_iff {header : Fresh} :
    header.inCharset = header ↔ ∀ c ∈ header.password, Windows1252.Encodable c := by
  rw [← Windows1252.decode_encode_iff]
  constructor
  · intro h
    exact congrArg Fresh.password h
  · intro h
    rw [Fresh.inCharset, h]

end LoginRSAHeader

section RoundTrip
open LoginRSAHeader

theorem reads_seeds (seeds : Seeds) : Reads readSeeds (writeSeeds seeds) seeds := by
  have hseeds : (#v[seeds[0], seeds[1], seeds[2], seeds[3]] : Seeds) = seeds := by
    apply Vector.ext
    intro i hi
    have hcases : i = 0 ∨ i = 1 ∨ i = 2 ∨ i = 3 := by omega
    rcases hcases with rfl | rfl | rfl | rfl <;> rfl
  have hread : Reads readSeeds (writeSeeds seeds) #v[seeds[0], seeds[1], seeds[2], seeds[3]] :=
    Reads.bind (reads_int _) (Reads.bind (reads_int _) (Reads.bind (reads_int _)
      ((reads_int seeds[3]).map fun seed3 => #v[seeds[0], seeds[1], seeds[2], seed3])))
  rwa [hseeds] at hread

private theorem reads_thing {header : Fresh} (h : header.Accepted) :
    header.weirdThingId.toNat < 2 ^ 8 ∧ ∃ thing,
      thingBytes header.weirdThingId header.weirdThingValue = some thing ∧
        Reads (readThingValue header.weirdThingId) thing header.weirdThingValue := by
  rcases h.thing with ⟨hid, hvalue⟩ | hid | ⟨hid, hvalue⟩
  · refine ⟨by rcases hid with hid | hid <;> rw [hid] <;> decide, _, if_pos hid, ?_⟩
    have hpad : Reads (Reader.bytes 1) (writeByte 0) (writeByte 0) := by
      have hbytes := Reads.bytes (writeByte 0)
      rwa [length_writeByte] at hbytes
    rw [readThingValue, if_pos hid]
    exact Reads.bind (reads_unsignedMedium hvalue) (hpad.map fun _ => header.weirdThingValue)
  · rw [hid]
    exact ⟨by decide, _, rfl, reads_int _⟩
  · rw [hid, hvalue]
    have hpad : Reads (Reader.bytes 4) (writeInt 0) (writeInt 0) := by
      have hbytes := Reads.bytes (writeInt 0)
      rwa [length_writeInt] at hbytes
    exact ⟨by decide, _, rfl, hpad.map fun _ => 0⟩

/-- A block of 48 bytes and the password. -/
theorem length_block {header : Fresh} {block : List Byte} (h : header.block = some block) :
    block.length = 48 + header.password.length := by
  obtain ⟨thing, hthing, hblock⟩ := Option.bind_eq_some_iff.mp h
  cases hblock
  have hlen : thing.length = 4 := by
    unfold thingBytes at hthing
    split_ifs at hthing <;> cases hthing <;> simp
  simp only [Fresh.fields, writeSeeds, List.length_append, length_writeByte, length_writeInt,
    length_writeLong, length_writeBoolean, length_writeString, hlen]
  omega

private theorem reads_fields {header : Fresh} (h : header.Accepted) :
    ∃ thing, thingBytes header.weirdThingId header.weirdThingValue = some thing ∧
      Reads (readFields false) (header.fields thing) (.fresh header.inCharset) := by
  obtain ⟨hid, thing, hthing, hread⟩ := reads_thing h
  have hflag : decide ((if header.thatBoolean then 1 else 0 : Word) = 1) = header.thatBoolean := by
    cases header.thatBoolean <;> rfl
  refine ⟨thing, hthing, ?_⟩
  refine Reads.bind (reads_seeds header.seeds) ?_
  refine Reads.bind (reads_long header.uniqueId) ?_
  refine Reads.bind (reads_unsignedByte hid) ?_
  refine Reads.bind hread ?_
  refine Reads.bind (reads_boolean header.thatBoolean) ?_
  refine Reads.bind (reads_string h.password) ?_
  refine Reads.bind (reads_long header.someLong) ?_
  rw [hflag]
  exact Reads.map _ (reads_long header.randClient)

/-- The block begins with the magic byte, and is read back but for its password's charset. -/
theorem reads_block_inCharset {header : Fresh} (h : header.Accepted) :
    ∃ tail, header.block = some (10 :: tail) ∧
      Reads (readBlock false) (10 :: tail) (.fresh header.inCharset) := by
  obtain ⟨thing, hthing, hread⟩ := reads_fields h
  have hmagic : (10 : Word).toNat < 2 ^ 8 := by decide
  have hfields : Reads (if (10 : Word) ≠ 10 then Reader.fail else readFields false)
      (header.fields thing) (.fresh header.inCharset) := by
    rw [if_neg (not_not.mpr rfl)]
    exact hread
  refine ⟨header.fields thing, ?_, Reads.bind (reads_unsignedByte hmagic) hfields⟩
  rw [Fresh.block, hthing]
  rfl

theorem reads_block {header : Fresh} (h : header.Valid) :
    ∃ tail, header.block = some (10 :: tail) ∧
      Reads (readBlock false) (10 :: tail) (.fresh header) := by
  have hread := reads_block_inCharset h.accepted
  rwa [Fresh.inCharset_eq_iff.mpr fun c hc => (h.password c hc).1] at hread

section Key
variable {exponent decryption modulus : ℕ}

theorem crypt_natCast (hmodulus : 0 < modulus) (value : ℕ) :
    crypt exponent modulus (BigInteger.toByteArray value) =
      some (BigInteger.toByteArray (value ^ exponent % modulus : ℕ)) := by
  rw [crypt, BigInteger.ofByteArray_toByteArray, Option.bind_eq_bind, Option.bind_some,
    BigInteger.modPow_natCast hmodulus]
  rfl

theorem crypt_cons (hmodulus : 0 < modulus) {b : Byte} {bs : List Byte} (hpos : 0 < b.toNat)
    (hsign : b.toNat < 128) :
    crypt exponent modulus (b :: bs) =
      some (BigInteger.toByteArray (ofBytes (b :: bs) ^ exponent % modulus : ℕ)) := by
  rw [← crypt_natCast hmodulus, BigInteger.toByteArray_ofBytes bs hpos hsign]

/-- What is below the modulus is decrypted to itself. -/
theorem crypt_crypt (hkey : ∀ m < modulus, (m ^ exponent % modulus) ^ decryption % modulus = m)
    {b : Byte} {bs : List Byte} (hpos : 0 < b.toNat) (hsign : b.toNat < 128)
    (hlt : ofBytes (b :: bs) < modulus) :
    ∃ crypted, crypt exponent modulus (b :: bs) = some crypted ∧
      crypted.length ≤ modulus.size / 8 + 1 ∧
      crypt decryption modulus crypted = some (b :: bs) := by
  have hmodulus : 0 < modulus := by omega
  refine ⟨_, crypt_cons hmodulus hpos hsign, ?_, ?_⟩
  · have hsize : (ofBytes (b :: bs) ^ exponent % modulus).size ≤ modulus.size :=
      Nat.size_le_size (Nat.mod_lt _ hmodulus).le
    rw [BigInteger.length_toByteArray, BigInteger.bitLength_natCast]
    omega
  · rw [crypt_natCast hmodulus, hkey _ hlt]
    exact congrArg some (BigInteger.toByteArray_ofBytes bs hpos hsign)

theorem reads_reconnecting (type : LoginType) :
    Reads (readReconnecting type) (if hasReconnectByte type then writeByte 0 else []) false := by
  rw [readReconnecting]
  split_ifs
  · exact (reads_unsignedByte (by decide)).map fun flag => decide (flag = 1)
  · exact Reads.pure false

/-- An array behind its length. -/
theorem reads_sized (raw : List Byte) (h : raw.length < 2 ^ 16) :
    Reads readUnsignedShort (writeShort (BitVec.ofNat 32 raw.length)) (BitVec.ofNat 32 raw.length) ∧
      Reads (Reader.bytes (BitVec.ofNat 32 raw.length).toNat) raw raw := by
  have hsize : (BitVec.ofNat 32 raw.length).toNat = raw.length := by
    rw [BitVec.toNat_ofNat]
    exact Nat.mod_eq_of_lt (by omega)
  constructor
  · apply reads_unsignedShort
    rwa [hsize]
  · rw [hsize]
    exact Reads.bytes raw

/-- A fresh header is read back under the other half of the key. -/
theorem reads_loginHeader
    (hkey : ∀ m < modulus, (m ^ exponent % modulus) ^ decryption % modulus = m)
    (type : LoginType) {header : Fresh} {block : List Byte} (h : header.Valid)
    (hblock : header.block = some block) (hlt : ofBytes block < modulus) :
    ∃ bytes, writeLoginHeader type (.fresh header) exponent modulus = some bytes ∧
      bytes.length ≤ modulus.size / 8 + 4 ∧
      (bytes.length < 2 ^ 16 →
        Reads (readLoginHeader type decryption modulus) bytes (.fresh header)) := by
  obtain ⟨tail, htail, hread⟩ := reads_block h
  rw [htail] at hblock
  cases hblock
  obtain ⟨crypted, hcrypted, hlen, hback⟩ := crypt_crypt hkey (by decide) (by decide) hlt
  have hdecrypt : decryptBlock decryption modulus false crypted = some (.fresh header) := by
    rw [decryptBlock, hback, Option.bind_eq_bind, Option.bind_some, hread.run]
    rfl
  refine ⟨(if hasReconnectByte type then writeByte 0 else []) ++
    (writeShort (BitVec.ofNat 32 crypted.length) ++ crypted), ?_, ?_, fun hfits => ?_⟩
  · rw [writeLoginHeader, htail, Option.bind_eq_bind, Option.bind_some, hcrypted]
    rfl
  · rw [List.length_append, List.length_append, length_writeShort]
    split_ifs
    · rw [length_writeByte]
      omega
    · rw [List.length_nil]
      omega
  · rw [List.length_append, List.length_append, length_writeShort] at hfits
    obtain ⟨hsize, hraw⟩ := reads_sized crypted (by omega)
    have hlast := Reads.bind (f := fun raw => Reader.ofOption
      (decryptBlock decryption modulus false raw)) hraw (Reads.ofOption hdecrypt)
    rw [List.append_nil] at hlast
    exact Reads.bind (reads_reconnecting type) (Reads.bind hsize hlast)

end Key

private theorem prime_mersenne_521 : (mersenne 521).Prime :=
  lucas_lehmer_sufficiency _ (by norm_num) (by norm_num)

private theorem prime_mersenne_607 : (mersenne 607).Prime :=
  lucas_lehmer_sufficiency _ (by norm_num) (by norm_num)

/-- A key of 1128 bits, with the usual public exponent. -/
def keyModulus : ℕ := mersenne 521 * mersenne 607

def keyDecryption : ℕ := (10880 * ((mersenne 521 - 1) * (mersenne 607 - 1)) + 1) / 65537

theorem decrypts (m : ℕ) (hm : m < keyModulus) :
    (m ^ 65537 % keyModulus) ^ keyDecryption % keyModulus = m := by
  have hexact : 65537 * keyDecryption = 10880 * ((mersenne 521 - 1) * (mersenne 607 - 1)) + 1 := by
    decide +kernel
  have hne : mersenne 521 ≠ mersenne 607 := by decide +kernel
  exact Arithmetic.pow_pow_mod prime_mersenne_521 prime_mersenne_607 hne hexact hm

end RoundTrip

end OpenNXT.Net
