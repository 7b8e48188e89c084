import OpenNXT.Buffer.BigInteger
import OpenNXT.Util.Whirlpool

/-! The table of checksums of the reference tables, signed with RSA. -/
namespace OpenNXT.Ext
open Buffer

/-- `none` is an arithmetic exception. -/
def rsaEncrypt (raw : List Byte) (modulus exponent : ℤ) : Option (List Byte) := do
  let value ← BigInteger.ofByteArray raw
  let result ← BigInteger.modPow value exponent modulus
  return BigInteger.toByteArray result

end OpenNXT.Ext

namespace OpenNXT.Filesystem
open Buffer Ext Util

structure TableEntry where
  crc : Word
  version : Word
  files : Word
  size : Word
  whirlpool : List Byte
  deriving DecidableEq

namespace TableEntry

def empty : TableEntry := ⟨0, 0, 0, 0, List.replicate 64 0⟩

def encode (entry : TableEntry) : List Byte :=
  putInt entry.crc ++ (putInt entry.version ++ (putInt entry.files ++ (putInt entry.size ++
    entry.whirlpool)))

def read : Reader TableEntry := do
  let crc ← Reader.int
  let version ← Reader.int
  let files ← Reader.int
  let size ← Reader.int
  let whirlpool ← Reader.bytes 64
  return ⟨crc, version, files, size, whirlpool⟩

end TableEntry

structure ChecksumTable where
  entries : List TableEntry
  deriving DecidableEq

namespace ChecksumTable

def readEntries : ℕ → Reader (List TableEntry)
  | 0 => return []
  | n + 1 => do
    let entry ← TableEntry.read
    let entries ← readEntries n
    return entry :: entries

/-- From a `ByteBuf`. -/
def decode : Reader ChecksumTable := do
  let count ← Reader.byte
  let entries ← readEntries count.toNat
  return ⟨entries⟩

/-- From a `ByteBuffer`; an array of a negative size is an exception. -/
def decodeByteBuffer : Reader ChecksumTable := do
  let count ← Reader.byte
  if count.toInt < 0 then Reader.fail
  else do
    let entries ← readEntries count.toInt.toNat
    return ⟨entries⟩

/-- A fixed-width unsigned block. A signature that does not fit is an exception. -/
def signature (modulusBytes : ℕ) (rawSignature : List Byte) : Option (List Byte) :=
  if rawSignature.length = modulusBytes + 1 ∧ rawSignature.head? = some 0 then
    some (rawSignature.drop 1)
  else if rawSignature.length < modulusBytes then
    some (List.replicate (modulusBytes - rawSignature.length) 0 ++ rawSignature)
  else if rawSignature.length = modulusBytes then some rawSignature
  else none

/-- What is hashed: the count in one byte, and the entries. -/
def body (table : ChecksumTable) : List Byte :=
  BitVec.ofNat 8 table.entries.length :: table.entries.flatMap TableEntry.encode

def encode (table : ChecksumTable) (modulus exponent : ℤ) : Option (List Byte) := do
  let rawSignature ← rsaEncrypt (10 :: Whirlpool.getHash table.body) modulus exponent
  let signature ← signature ((BigInteger.bitLength modulus + 7) / 8) rawSignature
  return table.body ++ signature

end ChecksumTable

section Reading
open ChecksumTable

private theorem reads_entry {entry : TableEntry} (h : entry.whirlpool.length = 64) :
    Reads TableEntry.read entry.encode entry := by
  have hwhirlpool := Reads.bytes entry.whirlpool
  rw [h] at hwhirlpool
  have hlast := hwhirlpool.map fun whirlpool =>
    (⟨entry.crc, entry.version, entry.files, entry.size, whirlpool⟩ : TableEntry)
  exact Reads.bind (Reads.word 4 entry.crc) (Reads.bind (Reads.word 4 entry.version)
    (Reads.bind (Reads.word 4 entry.files) (Reads.bind (Reads.word 4 entry.size) hlast)))

private theorem reads_entries {entries : List TableEntry}
    (h : ∀ entry ∈ entries, entry.whirlpool.length = 64) :
    Reads (readEntries entries.length) (entries.flatMap TableEntry.encode) entries := by
  induction entries with
  | nil => exact Reads.pure []
  | cons entry entries ih =>
    have hrest := ih fun e he => h e (List.mem_cons_of_mem _ he)
    exact Reads.bind (reads_entry (h entry List.mem_cons_self)) (hrest.map (entry :: ·))

theorem length_encode {entries : List TableEntry}
    (h : ∀ entry ∈ entries, entry.whirlpool.length = 64) :
    (entries.flatMap TableEntry.encode).length = 80 * entries.length := by
  induction entries with
  | nil => rfl
  | cons entry entries ih =>
    have hentry : entry.encode.length = 80 := by
      simp [TableEntry.encode, h entry List.mem_cons_self]
    rw [List.flatMap_cons, List.length_append, hentry,
      ih fun e he => h e (List.mem_cons_of_mem _ he), List.length_cons]
    ring

/-- One byte carries every count up to 255. -/
theorem reads_decode {table : ChecksumTable} (hcount : table.entries.length ≤ 255)
    (h : ∀ entry ∈ table.entries, entry.whirlpool.length = 64) :
    Reads decode table.body table := by
  have hbyte : (BitVec.ofNat 8 table.entries.length).toNat = table.entries.length := by
    rw [BitVec.toNat_ofNat]
    exact Nat.mod_eq_of_lt (by omega)
  have hentries := (reads_entries h).map ChecksumTable.mk
  rw [← hbyte] at hentries
  exact Reads.bind (Reads.byte _) hentries

private theorem toInt_count {n : ℕ} (h : n ≤ 255) :
    (BitVec.ofNat 8 n).toInt = if n ≤ 127 then (n : ℤ) else n - 256 := by
  rw [BitVec.toInt_eq_toNat_cond, BitVec.toNat_ofNat, Nat.mod_eq_of_lt (by omega)]
  split_ifs <;> omega

theorem reads_decodeByteBuffer {table : ChecksumTable} (hcount : table.entries.length ≤ 127)
    (h : ∀ entry ∈ table.entries, entry.whirlpool.length = 64) :
    Reads decodeByteBuffer table.body table := by
  have hbyte := toInt_count (show table.entries.length ≤ 255 by omega)
  rw [if_pos hcount] at hbyte
  have hentries := (reads_entries h).map ChecksumTable.mk
  refine Reads.bind (Reads.byte _) ?_
  rw [hbyte, if_neg (by omega), Int.toNat_natCast]
  exact hentries

/-- A count above 127 is a negative byte. -/
theorem decodeByteBuffer_eq_none {table : ChecksumTable} (hlow : 127 < table.entries.length)
    (hhigh : table.entries.length ≤ 255) (rest : List Byte) :
    decodeByteBuffer (table.body ++ rest) = none := by
  have hbyte := toInt_count hhigh
  rw [if_neg (by omega)] at hbyte
  have hread := Reads.byte (BitVec.ofNat 8 table.entries.length)
    (table.entries.flatMap TableEntry.encode ++ rest)
  rw [decodeByteBuffer, Reader.bind_apply, body, List.cons_append]
  rw [List.singleton_append] at hread
  rw [hread, Option.bind_some, hbyte, if_pos (by omega)]
  rfl

end Reading

section Signing
open ChecksumTable

/-- The signature has the width of the modulus. -/
private theorem signature_below {n modulus : ℕ} (h : n < modulus) :
    ∃ bs, signature ((BigInteger.bitLength modulus + 7) / 8) (BigInteger.toByteArray n) = some bs ∧
      bs.length = (BigInteger.bitLength modulus + 7) / 8 := by
  rw [signature]
  rcases BigInteger.toByteArray_below h with hle | ⟨hlen, hhead⟩
  · rw [if_neg fun hc => by omega]
    rcases hle.lt_or_eq with hlt | heq
    · rw [if_pos hlt]
      refine ⟨_, rfl, ?_⟩
      rw [List.length_append, List.length_replicate]
      omega
    · rw [if_neg heq.not_lt, if_pos heq]
      exact ⟨_, rfl, heq⟩
  · rw [if_pos ⟨hlen, hhead⟩]
    refine ⟨_, rfl, ?_⟩
    rw [List.length_drop, hlen, Nat.add_sub_cancel]

private theorem rsaEncrypt_below (hash : List Byte) {modulus exponent : ℤ} (hmodulus : 0 < modulus)
    (hexponent : 0 ≤ exponent) :
    ∃ n : ℕ, (n : ℤ) < modulus ∧
      rsaEncrypt (10 :: hash) modulus exponent = some (BigInteger.toByteArray n) := by
  obtain ⟨m, rfl⟩ := Int.eq_ofNat_of_zero_le hmodulus.le
  obtain ⟨e, rfl⟩ := Int.eq_ofNat_of_zero_le hexponent
  have hm : 0 < m := by omega
  refine ⟨ofBytes (10 :: hash) ^ e % m, ?_, ?_⟩
  · exact_mod_cast Nat.mod_lt _ hm
  · have hvalue : BigInteger.ofByteArray (10 :: hash) = some ((ofBytes (10 :: hash) : ℕ) : ℤ) := by
      rw [BigInteger.ofByteArray, if_pos (by decide)]
    rw [rsaEncrypt, hvalue, Option.bind_eq_bind, Option.bind_some, BigInteger.modPow_natCast hm]
    rfl

/-- A table is written as its body and a signature as wide as the modulus. -/
theorem encode_eq (table : ChecksumTable) {modulus exponent : ℤ} (hmodulus : 0 < modulus)
    (hexponent : 0 ≤ exponent) :
    ∃ block : List Byte, block.length = (BigInteger.bitLength modulus + 7) / 8 ∧
      encode table modulus exponent = some (table.body ++ block) := by
  obtain ⟨n, hn, hraw⟩ :=
    rsaEncrypt_below (Whirlpool.getHash table.body) hmodulus hexponent
  obtain ⟨m, rfl⟩ := Int.eq_ofNat_of_zero_le hmodulus.le
  obtain ⟨block, hblock, hlen⟩ := signature_below (show n < m by omega)
  refine ⟨block, hlen, ?_⟩
  rw [encode, hraw, Option.bind_eq_bind, Option.bind_some, hblock]
  rfl

end Signing

namespace ChecksumTable

/-- The table is written in its width, and read back by both decoders. -/
def RoundTrips (table : ChecksumTable) (modulus exponent : ℤ) : Prop :=
  ∃ bytes, table.encode modulus exponent = some bytes ∧
    bytes.length = 1 + 80 * table.entries.length + (BigInteger.bitLength modulus + 7) / 8 ∧
    (∃ rest, decode bytes = some (table, rest)) ∧ ∃ rest, decodeByteBuffer bytes = some (table, rest)

end ChecksumTable

section RoundTrip
open ChecksumTable

/-- Only the decoder of a `ByteBuf` reads the count without a sign. -/
theorem checksumTable_roundTrips_iff (table : ChecksumTable)
    (hcount : table.entries.length ≤ 255)
    (hwhirlpool : ∀ entry ∈ table.entries, entry.whirlpool.length = 64) {modulus exponent : ℤ}
    (hmodulus : 0 < modulus) (hexponent : 0 ≤ exponent) :
    table.RoundTrips modulus exponent ↔ table.entries.length ≤ 127 := by
  obtain ⟨block, hlen, hencode⟩ := encode_eq table hmodulus hexponent
  constructor
  · rintro ⟨bytes, hbytes, -, -, rest, hdecode⟩
    by_contra hlow
    rw [hencode] at hbytes
    cases hbytes
    rw [decodeByteBuffer_eq_none (not_le.mp hlow) hcount] at hdecode
    cases hdecode
  · intro hlow
    refine ⟨_, hencode, ?_, ⟨block, reads_decode hcount hwhirlpool block⟩, block,
      reads_decodeByteBuffer hlow hwhirlpool block⟩
    rw [List.length_append, hlen, body, List.length_cons, length_encode hwhirlpool]
    ring

/-- A table of one entry, under a modulus of nine bits. -/
theorem checksumTable_roundTrips_empty :
    (⟨[TableEntry.empty]⟩ : ChecksumTable).RoundTrips 323 5 :=
  (checksumTable_roundTrips_iff ⟨[TableEntry.empty]⟩ (by decide) (by simp [TableEntry.empty])
    (by decide) (by decide)).mpr (by decide)

/-- Of 128 entries the count is a negative size for the decoder of a `ByteBuffer`. -/
theorem not_roundTrips_128 :
    ¬ (⟨List.replicate 128 TableEntry.empty⟩ : ChecksumTable).RoundTrips 323 5 := by
  obtain ⟨block, -, hencode⟩ := encode_eq ⟨List.replicate 128 TableEntry.empty⟩
    (show (0 : ℤ) < 323 by decide) (show (0 : ℤ) ≤ 5 by decide)
  rintro ⟨bytes, hbytes, -, -, rest, hdecode⟩
  rw [hencode] at hbytes
  cases hbytes
  rw [decodeByteBuffer_eq_none (by simp) (by simp)] at hdecode
  cases hdecode

end RoundTrip

end OpenNXT.Filesystem
