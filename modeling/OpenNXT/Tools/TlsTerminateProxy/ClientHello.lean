import Mathlib.Data.List.Nodup
import OpenNXT.Buffer.Cursor

/-! The server name in the first record of a TLS client. -/
namespace OpenNXT.Tools.TlsTerminateProxy
open Buffer

/-- What an index past the end raises. -/
inductive Raised
  | indexError
  deriving DecidableEq

/-- `data[i]` -/
def byteAt (data : List Byte) (i : ℕ) : Except Raised Byte :=
  match data[i]? with
  | some b => .ok b
  | none => .error .indexError

def looksLikeTlsClientHello (data : List Byte) : Bool :=
  5 ≤ data.length && data.getD 0 0 = 0x16 && data.getD 1 0 = 0x03 && (data.getD 2 0).toNat ≤ 0x04

/-- `bytes.decode("ascii", errors="ignore") or None` -/
def decodeName (bytes : List Byte) : Option (List Char) :=
  let name := (bytes.filter fun b => b.toNat < 128).map fun b => Char.ofNat b.toNat
  if name = [] then none else some name

/-- The loop over the names of a list. -/
def scanNames (data : List Byte) (nameListEnd cursor : ℕ) : Except Raised (Option (List Char)) :=
  if cursor + 3 ≤ nameListEnd then do
    let nameType ← byteAt data cursor
    let nameLength := intAt data (cursor + 1) 2
    if nameListEnd < cursor + 3 + nameLength then return none
    else if nameType = 0 then return decodeName (sliceAt data (cursor + 3) nameLength)
    else scanNames data nameListEnd (cursor + 3 + nameLength)
  else return none
termination_by nameListEnd - cursor

/-- The loop over the extensions. -/
def scanExtensions (data : List Byte) (extensionsEnd offset : ℕ) :
    Except Raised (Option (List Char)) :=
  if offset + 4 ≤ extensionsEnd then
    let extensionType := intAt data offset 2
    let extensionLength := intAt data (offset + 2) 2
    if extensionsEnd < offset + 4 + extensionLength then return none
    else if extensionType = 0 then
      if extensionLength < 2 then return none
      else
        let nameListLength := intAt data (offset + 4) 2
        scanNames data (min (offset + 4 + 2 + nameListLength) (offset + 4 + extensionLength))
          (offset + 4 + 2)
    else scanExtensions data extensionsEnd (offset + 4 + extensionLength)
  else return none
termination_by extensionsEnd - offset

/-- From the session id on. -/
def parseAfterRandom (data : List Byte) (handshakeEnd offset : ℕ) :
    Except Raised (Option (List Char)) := do
  let sessionIdLength ← byteAt data offset
  let offset := offset + 1 + sessionIdLength.toNat
  if handshakeEnd < offset + 2 then return none
  else
    let cipherSuitesLength := intAt data offset 2
    let offset := offset + (2 + cipherSuitesLength)
    if handshakeEnd ≤ offset then return none
    else do
      let compressionMethodsLength ← byteAt data offset
      let offset := offset + (1 + compressionMethodsLength.toNat)
      if handshakeEnd < offset + 2 then return none
      else
        let extensionsLength := intAt data offset 2
        let offset := offset + 2
        scanExtensions data (min handshakeEnd (offset + extensionsLength)) offset

/-- From the type of the handshake on. -/
def parseHandshake (data : List Byte) : Except Raised (Option (List Char)) := do
  let handshakeType ← byteAt data 5
  if handshakeType ≠ 0x01 then return none
  else if data.length < 9 then return none
  else
    let handshakeEnd := 9 + intAt data 6 3
    if data.length < handshakeEnd then return none
    else if handshakeEnd < 9 + 2 + 32 then return none
    else parseAfterRandom data handshakeEnd (9 + 2 + 32)

def parseTlsClientHelloSni (data : List Byte) : Except Raised (Option (List Char)) :=
  if data.length < 5 ∨ ¬ looksLikeTlsClientHello data then return none
  else
    let recordEnd := 5 + intAt data 3 2
    if data.length < recordEnd then return none
    else parseHandshake data

section Raises
variable {data : List Byte}

theorem byteAt_eq {i : ℕ} {b : Byte} (h : data[i]? = some b) : byteAt data i = .ok b := by
  rw [byteAt, h]

theorem byteAt_of_lt {i : ℕ} (h : i < data.length) : ∃ b, byteAt data i = .ok b :=
  ⟨data[i], byteAt_eq (List.getElem?_eq_getElem h)⟩

theorem byteAt_of_le {i : ℕ} (h : data.length ≤ i) : byteAt data i = .error .indexError := by
  rw [byteAt, List.getElem?_eq_none h]

theorem ok_bind {α β : Type} (a : α) (f : α → Except Raised β) : (Except.ok a >>= f) = f a := rfl

/-- The bound of the list is what the index is checked against. -/
theorem scanNames_returns {nameListEnd : ℕ} (h : nameListEnd ≤ data.length) (cursor : ℕ) :
    ∃ name, scanNames data nameListEnd cursor = .ok name := by
  fun_induction scanNames data nameListEnd cursor with
  | case1 cursor hin ih =>
    obtain ⟨nameType, htype⟩ := byteAt_of_lt (show cursor < data.length by omega)
    rw [htype, ok_bind]
    dsimp only
    split_ifs with hlong
    · exact ⟨_, rfl⟩
    · exact ⟨_, rfl⟩
    · exact ih hlong
  | case2 cursor hout => exact ⟨_, rfl⟩

theorem scanExtensions_returns {extensionsEnd : ℕ} (h : extensionsEnd ≤ data.length) (offset : ℕ) :
    ∃ name, scanExtensions data extensionsEnd offset = .ok name := by
  fun_induction scanExtensions data extensionsEnd offset with
  | case1 offset hin length hlong => exact ⟨_, rfl⟩
  | case2 offset hin type length hfits htype hshort => exact ⟨_, rfl⟩
  | case3 offset hin type length hfits htype hlong => exact scanNames_returns (by omega) _
  | case4 offset hin type length hfits htype ih => exact ih
  | case5 offset hout => exact ⟨_, rfl⟩

/-- The only index that is not checked first. -/
theorem parseAfterRandom_returns_iff {handshakeEnd offset : ℕ} (h : handshakeEnd ≤ data.length) :
    (∃ name, parseAfterRandom data handshakeEnd offset = .ok name) ↔ offset < data.length := by
  constructor
  · rintro ⟨name, hname⟩
    by_contra hge
    rw [parseAfterRandom, byteAt_of_le (by omega)] at hname
    cases hname
  · intro hlt
    obtain ⟨sessionIdLength, hsession⟩ := byteAt_of_lt hlt
    rw [parseAfterRandom, hsession, ok_bind]
    dsimp only
    split_ifs with hciphers hcompression
    · exact ⟨_, rfl⟩
    · exact ⟨_, rfl⟩
    · obtain ⟨compressionMethodsLength, hmethods⟩ := byteAt_of_lt
        (show offset + 1 + sessionIdLength.toNat +
          (2 + intAt data (offset + 1 + sessionIdLength.toNat) 2) < data.length by omega)
      rw [hmethods, ok_bind]
      split_ifs
      · exact ⟨_, rfl⟩
      · exact scanExtensions_returns (by omega) _

/-- A record without content, or a handshake that stops after the random bytes. -/
def Overruns (data : List Byte) : Prop :=
  looksLikeTlsClientHello data ∧
    (data.length = 5 ∧ intAt data 3 2 = 0 ∨
      data.length = 43 ∧ intAt data 3 2 ≤ 38 ∧ data[5]? = some 0x01 ∧ intAt data 6 3 = 34)

theorem length_of_looksLike (h : looksLikeTlsClientHello data) : 5 ≤ data.length := by
  simp only [looksLikeTlsClientHello, Bool.and_eq_true, decide_eq_true_eq] at h
  exact h.1.1.1

theorem parseHandshake_returns_iff (h : 5 ≤ data.length) :
    (∃ name, parseHandshake data = .ok name) ↔
      ¬ (data.length = 5 ∨ data.length = 43 ∧ data[5]? = some 0x01 ∧ intAt data 6 3 = 34) := by
  rw [parseHandshake]
  by_cases hfive : data.length = 5
  · rw [byteAt_of_le (by omega)]
    exact iff_of_false (fun ⟨name, hname⟩ => nomatch hname) (not_not.mpr (Or.inl hfive))
  · have hget : data[5]? = some data[5] := List.getElem?_eq_getElem (by omega)
    rw [byteAt_eq hget, ok_bind, hget, Option.some_inj, or_iff_right hfive]
    dsimp only
    split_ifs with htype hshort hhandshake hrandom
    · exact iff_of_true ⟨_, rfl⟩ fun hrun => htype hrun.2.1
    · exact iff_of_true ⟨_, rfl⟩ (by omega)
    · exact iff_of_true ⟨_, rfl⟩ (by omega)
    · exact iff_of_true ⟨_, rfl⟩ (by omega)
    · rw [parseAfterRandom_returns_iff (by omega), not_not.mp htype, and_iff_right rfl]
      omega

theorem returns_iff (data : List Byte) :
    (∃ name, parseTlsClientHelloSni data = .ok name) ↔ ¬ Overruns data := by
  rw [parseTlsClientHelloSni, Overruns]
  by_cases hlooks : looksLikeTlsClientHello data
  · have hlen := length_of_looksLike hlooks
    rw [if_neg (by rw [not_or, not_not]; exact ⟨by omega, hlooks⟩), and_iff_right hlooks]
    dsimp only
    by_cases hrecord : data.length < 5 + intAt data 3 2
    · rw [if_pos hrecord]
      exact iff_of_true ⟨_, rfl⟩ (by omega)
    · rw [if_neg hrecord, parseHandshake_returns_iff hlen]
      constructor
      · rintro hno (hempty | ⟨hlength, -, hrest⟩)
        · exact hno (Or.inl hempty.1)
        · exact hno (Or.inr ⟨hlength, hrest⟩)
      · rintro hno (hlength | ⟨hlength, hrest⟩)
        · exact hno (Or.inl ⟨hlength, by omega⟩)
        · exact hno (Or.inr ⟨hlength, by omega, hrest⟩)
  · rw [if_pos (Or.inr hlooks)]
    exact iff_of_true ⟨_, rfl⟩ fun h => hlooks h.1

end Raises

end OpenNXT.Tools.TlsTerminateProxy
