import OpenNXT.Buffer.BigEndian

/-! The characters of the legacy type codes. -/
namespace OpenNXT.Util
open Buffer

namespace TextUtils

/-- The characters of the bytes 128 to 159; zero where there is none. -/
def cp1252 : List Char :=
  ['\u20ac', '\u0000', '\u201a', '\u0192', '\u201e', '\u2026', '\u2020', '\u2021', '\u02c6', '\u2030',
    '\u0160', '\u2039', '\u0152', '\u0000', '\u017d', '\u0000', '\u0000', '\u2018', '\u2019', '\u201c',
    '\u201d', '\u2022', '\u2013', '\u2014', '\u02dc', '\u2122', '\u0161', '\u203a', '\u0153', '\u0000',
    '\u017e', '\u0178']

/-- `none` is an exception, a zero byte. -/
def cp1252ToChar (i : Byte) : Option Char :=
  if i = 0 then none
  else if 128 ≤ i.toNat ∧ i.toNat ≤ 159 then
    let translated := cp1252.getD (i.toNat - 128) '\u0000'
    some (if translated = '\u0000' then '?' else translated)
  else some (Char.ofNat i.toNat)

/-- A character that there is not becomes a question mark. -/
def charToCp1252 (c : Char) : Byte :=
  if 0 < c.toNat ∧ c.toNat < 0x80 ∨ 0xa0 ≤ c.toNat ∧ c.toNat ≤ 0xff then BitVec.ofNat 8 c.toNat
  else if c ≠ '\u0000' ∧ c ∈ cp1252 then BitVec.ofNat 8 (128 + cp1252.idxOf c)
  else 63

end TextUtils

end OpenNXT.Util
