import OpenNXT.Buffer.Cursor

/-! The first TLS record of a connection as the transport sniffer looks at it: in a buffer that may
hold more than the record, and in memory that holds more than was written. -/
namespace OpenNXT.Net.TransportSniffer
open Buffer

/-- A buffer from its reader index on: what is written, and what its memory holds behind that up to
the capacity. -/
structure Cumulation where
  readable : List Byte
  stale : List Byte := []

/-- What an index past the capacity throws. -/
inductive Thrown
  | indexOutOfBounds
  deriving DecidableEq

structure TlsClientHelloInfo where
  serverName : Option (List Char) := none
  alpnProtocols : List (List Char) := []
  supportedVersions : List (List Char) := []
  deriving DecidableEq

namespace Cumulation

def memory (buf : Cumulation) : List Byte := buf.readable ++ buf.stale

/-- An index is checked against the capacity, not against the writer index. -/
def getUnsigned (buf : Cumulation) (n i : ℕ) : Except Thrown ℕ :=
  if i + n ≤ buf.memory.length then .ok (intAt buf.memory i n) else .error .indexOutOfBounds

def getUnsignedByte (buf : Cumulation) (i : ℕ) : Except Thrown ℕ := buf.getUnsigned 1 i

def getUnsignedShort (buf : Cumulation) (i : ℕ) : Except Thrown ℕ := buf.getUnsigned 2 i

def getUnsignedMedium (buf : Cumulation) (i : ℕ) : Except Thrown ℕ := buf.getUnsigned 3 i

end Cumulation

/-- `US_ASCII` puts the replacement character for what it does not have. -/
def decodeAscii (b : Byte) : Char := if b.toNat < 128 then Char.ofNat b.toNat else Char.ofNat 0xfffd

/-- `buf.toString(i, n, US_ASCII)` -/
def Cumulation.toText (buf : Cumulation) (i n : ℕ) : Except Thrown (List Char) :=
  if i + n ≤ buf.memory.length then .ok ((sliceAt buf.memory i n).map decodeAscii)
  else .error .indexOutOfBounds

/-- `toString(16).padStart(2, '0')` -/
def padded (n : ℕ) : List Char :=
  List.replicate (2 - (Nat.toDigits 16 n).length) '0' ++ Nat.toDigits 16 n

def formatTlsVersion (major minor : ℕ) : List Char :=
  let version := major * 256 + minor
  if version = 0x0300 then ['S', 'S', 'L', 'v', '3']
  else if version = 0x0301 then ['T', 'L', 'S', 'v', '1', '.', '0']
  else if version = 0x0302 then ['T', 'L', 'S', 'v', '1', '.', '1']
  else if version = 0x0303 then ['T', 'L', 'S', 'v', '1', '.', '2']
  else if version = 0x0304 then ['T', 'L', 'S', 'v', '1', '.', '3']
  else ['0', 'x'] ++ (padded major ++ padded minor)

/-- The first name of type zero. -/
def scanNames (buf : Cumulation) (nameEnd nameOffset : ℕ) : Except Thrown (Option (List Char)) :=
  if nameOffset + 3 ≤ nameEnd then do
    let nameType ← buf.getUnsignedByte nameOffset
    let nameLength ← buf.getUnsignedShort (nameOffset + 1)
    if nameEnd < nameOffset + 3 + nameLength then return none
    else if nameType = 0 then do
      let name ← buf.toText (nameOffset + 3) nameLength
      return some name
    else scanNames buf nameEnd (nameOffset + 3 + nameLength)
  else return none
termination_by nameEnd - nameOffset

def scanProtocols (buf : Cumulation) (protoEnd protoOffset : ℕ) (alpnProtocols : List (List Char)) :
    Except Thrown (List (List Char)) :=
  if protoOffset + 1 ≤ protoEnd then do
    let protoLength ← buf.getUnsignedByte protoOffset
    if protoEnd < protoOffset + 1 + protoLength then return alpnProtocols
    else do
      let proto ← buf.toText (protoOffset + 1) protoLength
      scanProtocols buf protoEnd (protoOffset + 1 + protoLength) (alpnProtocols ++ [proto])
  else return alpnProtocols
termination_by protoEnd - protoOffset

def scanVersions (buf : Cumulation) (versionEnd versionOffset : ℕ)
    (supportedVersions : List (List Char)) : Except Thrown (List (List Char)) :=
  if versionOffset + 2 ≤ versionEnd then do
    let encodedVersion ← buf.getUnsignedShort versionOffset
    scanVersions buf versionEnd (versionOffset + 2)
      (supportedVersions ++ [formatTlsVersion (encodedVersion / 256) (encodedVersion % 256)])
  else return supportedVersions
termination_by versionEnd - versionOffset

/-- The `when` over the type of an extension. A list ends with its extension at the latest. -/
def readExtension (buf : Cumulation) (extensionType extensionLength offset : ℕ)
    (info : TlsClientHelloInfo) : Except Thrown TlsClientHelloInfo :=
  if extensionType = 0x0000 then
    if 5 ≤ extensionLength then do
      let listLength ← buf.getUnsignedShort offset
      let found ← scanNames buf (min (offset + 2 + listLength) (offset + extensionLength))
        (offset + 2)
      return { info with serverName := found.or info.serverName }
    else return info
  else if extensionType = 0x0010 then
    if 2 ≤ extensionLength then do
      let listLength ← buf.getUnsignedShort offset
      let protocols ← scanProtocols buf
        (min (offset + 2 + listLength) (offset + extensionLength)) (offset + 2) info.alpnProtocols
      return { info with alpnProtocols := protocols }
    else return info
  else if extensionType = 0x002b then
    if 1 ≤ extensionLength then do
      let listLength ← buf.getUnsignedByte offset
      let versions ← scanVersions buf
        (min (offset + 1 + listLength) (offset + extensionLength)) (offset + 1)
        info.supportedVersions
      return { info with supportedVersions := versions }
    else return info
  else return info

/-- The loop over the extensions. -/
def scanExtensions (buf : Cumulation) (extensionsEnd offset : ℕ) (info : TlsClientHelloInfo) :
    Except Thrown TlsClientHelloInfo :=
  if offset + 4 ≤ extensionsEnd then do
    let extensionType ← buf.getUnsignedShort offset
    let extensionLength ← buf.getUnsignedShort (offset + 2)
    if extensionsEnd < offset + 4 + extensionLength then return info
    else do
      let info ← readExtension buf extensionType extensionLength (offset + 4) info
      scanExtensions buf extensionsEnd (offset + 4 + extensionLength) info
  else return info
termination_by extensionsEnd - offset

/-- From the length of the compression methods on. -/
def parseCompression (buf : Cumulation) (handshakeEnd offset : ℕ) :
    Except Thrown (Option TlsClientHelloInfo) :=
  if handshakeEnd < offset + 1 then return none
  else do
    let compressionMethodsLength ← buf.getUnsignedByte offset
    let offset := offset + 1
    if handshakeEnd < offset + compressionMethodsLength then return none
    else
      let offset := offset + compressionMethodsLength
      if handshakeEnd < offset + 2 then return some {}
      else do
        let extensionsLength ← buf.getUnsignedShort offset
        let offset := offset + 2
        let info ← scanExtensions buf (min handshakeEnd (offset + extensionsLength)) offset {}
        return some info

/-- From the length of the cipher suites on. -/
def parseCipherSuites (buf : Cumulation) (handshakeEnd offset : ℕ) :
    Except Thrown (Option TlsClientHelloInfo) :=
  if handshakeEnd < offset + 2 then return none
  else do
    let cipherSuitesLength ← buf.getUnsignedShort offset
    let offset := offset + 2
    if handshakeEnd < offset + cipherSuitesLength then return none
    else parseCompression buf handshakeEnd (offset + cipherSuitesLength)

/-- From the length of the session id on. -/
def parseSessionId (buf : Cumulation) (handshakeEnd offset : ℕ) :
    Except Thrown (Option TlsClientHelloInfo) :=
  if handshakeEnd < offset + 1 then return none
  else do
    let sessionIdLength ← buf.getUnsignedByte offset
    let offset := offset + 1
    if handshakeEnd < offset + sessionIdLength then return none
    else parseCipherSuites buf handshakeEnd (offset + sessionIdLength)

def parseTlsClientHello (buf : Cumulation) : Except Thrown (Option TlsClientHelloInfo) :=
  if buf.readable.length < 5 then return none
  else do
    let recordLength ← buf.getUnsignedShort 3
    let recordEnd := 5 + recordLength
    if buf.readable.length < recordEnd then return none
    else do
      let handshakeType ← buf.getUnsignedByte 5
      if handshakeType ≠ 0x01 then return none
      else do
        let handshakeLength ← buf.getUnsignedMedium 6
        let handshakeEnd := min recordEnd (9 + handshakeLength)
        if handshakeEnd < 9 + (2 + 32) then return none
        else parseSessionId buf handshakeEnd (9 + (2 + 32))

section Record

/-- Two computations return, and the same. -/
def Settled {α : Type} (x y : Except Thrown α) : Prop := ∃ v, x = .ok v ∧ y = .ok v

theorem Settled.pure {α : Type} (v : α) : Settled (pure v) (pure v) := ⟨v, rfl, rfl⟩

theorem Settled.bind {α β : Type} {x y : Except Thrown α} {f g : α → Except Thrown β}
    (h : Settled x y) (hf : ∀ v, Settled (f v) (g v)) : Settled (x >>= f) (y >>= g) := by
  obtain ⟨v, rfl, rfl⟩ := h
  exact hf v

/-- The memories of two buffers are there up to an index, and the same. -/
structure Cumulation.Agrees (a b : Cumulation) (e : ℕ) : Prop where
  take_eq : a.memory.take e = b.memory.take e
  le_left : e ≤ a.memory.length
  le_right : e ≤ b.memory.length

namespace Cumulation.Agrees
variable {a b : Cumulation} {e : ℕ}

theorem sliceAt_eq (h : a.Agrees b e) {i n : ℕ} (hin : i + n ≤ e) :
    sliceAt a.memory i n = sliceAt b.memory i n := by
  have hinside : ∀ bs : List Byte, sliceAt bs i n = sliceAt (bs.take e) i n := by
    intro bs
    rw [sliceAt, sliceAt, List.drop_take, List.take_take, Nat.min_eq_left (by omega)]
  rw [hinside, h.take_eq, ← hinside]

theorem getUnsigned (h : a.Agrees b e) {i n : ℕ} (hin : i + n ≤ e) :
    Settled (a.getUnsigned n i) (b.getUnsigned n i) := by
  have hleft := h.le_left
  have hright := h.le_right
  refine ⟨intAt a.memory i n, ?_, ?_⟩
  · rw [Cumulation.getUnsigned, if_pos (by omega)]
  · rw [Cumulation.getUnsigned, if_pos (by omega), intAt, intAt, h.sliceAt_eq hin]

theorem toText (h : a.Agrees b e) {i n : ℕ} (hin : i + n ≤ e) :
    Settled (a.toText i n) (b.toText i n) := by
  have hleft := h.le_left
  have hright := h.le_right
  refine ⟨(sliceAt a.memory i n).map decodeAscii, ?_, ?_⟩
  · rw [Cumulation.toText, if_pos (by omega)]
  · rw [Cumulation.toText, if_pos (by omega), h.sliceAt_eq hin]

theorem scanNames (h : a.Agrees b e) {nameEnd : ℕ} (hend : nameEnd ≤ e) (nameOffset : ℕ) :
    Settled (scanNames a nameEnd nameOffset) (scanNames b nameEnd nameOffset) := by
  fun_induction TransportSniffer.scanNames a nameEnd nameOffset with
  | case1 nameOffset hin ih =>
    rw [TransportSniffer.scanNames.eq_def b, if_pos hin]
    apply (h.getUnsigned (by omega)).bind
    intro nameType
    apply (h.getUnsigned (by omega)).bind
    intro nameLength
    split_ifs with hlong htype
    · exact .pure _
    · apply (h.toText (by omega)).bind
      intro name
      exact .pure _
    · exact ih nameLength hlong
  | case2 nameOffset hout =>
    rw [TransportSniffer.scanNames.eq_def b, if_neg hout]
    exact .pure _

theorem scanProtocols (h : a.Agrees b e) {protoEnd : ℕ} (hend : protoEnd ≤ e) (protoOffset : ℕ)
    (found : List (List Char)) :
    Settled (scanProtocols a protoEnd protoOffset found)
      (scanProtocols b protoEnd protoOffset found) := by
  fun_induction TransportSniffer.scanProtocols a protoEnd protoOffset found with
  | case1 protoOffset found hin ih =>
    rw [TransportSniffer.scanProtocols.eq_def b, if_pos hin]
    apply (h.getUnsigned (by omega)).bind
    intro protoLength
    split_ifs with hlong
    · exact .pure _
    · apply (h.toText (by omega)).bind
      intro proto
      exact ih protoLength hlong proto
  | case2 protoOffset found hout =>
    rw [TransportSniffer.scanProtocols.eq_def b, if_neg hout]
    exact .pure _

theorem scanVersions (h : a.Agrees b e) {versionEnd : ℕ} (hend : versionEnd ≤ e)
    (versionOffset : ℕ) (found : List (List Char)) :
    Settled (scanVersions a versionEnd versionOffset found)
      (scanVersions b versionEnd versionOffset found) := by
  fun_induction TransportSniffer.scanVersions a versionEnd versionOffset found with
  | case1 versionOffset found hin ih =>
    rw [TransportSniffer.scanVersions.eq_def b, if_pos hin]
    apply (h.getUnsigned (by omega)).bind
    intro encodedVersion
    exact ih encodedVersion
  | case2 versionOffset found hout =>
    rw [TransportSniffer.scanVersions.eq_def b, if_neg hout]
    exact .pure _

theorem readExtension (h : a.Agrees b e) {type length offset : ℕ} (hend : offset + length ≤ e)
    (info : TlsClientHelloInfo) :
    Settled (readExtension a type length offset info) (readExtension b type length offset info) := by
  unfold TransportSniffer.readExtension
  split_ifs
  · apply (h.getUnsigned (by omega)).bind
    intro listLength
    exact (h.scanNames (by omega) _).bind fun _ => .pure _
  · exact .pure _
  · apply (h.getUnsigned (by omega)).bind
    intro listLength
    exact (h.scanProtocols (by omega) _ _).bind fun _ => .pure _
  · exact .pure _
  · apply (h.getUnsigned (by omega)).bind
    intro listLength
    exact (h.scanVersions (by omega) _ _).bind fun _ => .pure _
  · exact .pure _
  · exact .pure _

theorem scanExtensions (h : a.Agrees b e) {extensionsEnd : ℕ} (hend : extensionsEnd ≤ e)
    (offset : ℕ) (info : TlsClientHelloInfo) :
    Settled (scanExtensions a extensionsEnd offset info)
      (scanExtensions b extensionsEnd offset info) := by
  fun_induction TransportSniffer.scanExtensions a extensionsEnd offset info with
  | case1 offset info hin ih =>
    rw [TransportSniffer.scanExtensions.eq_def b, if_pos hin]
    apply (h.getUnsigned (by omega)).bind
    intro extensionType
    apply (h.getUnsigned (by omega)).bind
    intro extensionLength
    split_ifs with hlong
    · exact .pure _
    · apply (h.readExtension (by omega) info).bind
      intro info'
      exact ih extensionLength hlong info'
  | case2 offset info hout =>
    rw [TransportSniffer.scanExtensions.eq_def b, if_neg hout]
    exact .pure _

theorem parseCompression (h : a.Agrees b e) {handshakeEnd : ℕ} (hend : handshakeEnd ≤ e)
    (offset : ℕ) :
    Settled (parseCompression a handshakeEnd offset) (parseCompression b handshakeEnd offset) := by
  unfold TransportSniffer.parseCompression
  split_ifs with hone
  · exact .pure _
  · apply (h.getUnsigned (by omega)).bind
    intro compressionMethodsLength
    dsimp only
    split_ifs with hmethods htwo
    · exact .pure _
    · exact .pure _
    · apply (h.getUnsigned (by omega)).bind
      intro extensionsLength
      exact (h.scanExtensions (by omega) _ _).bind fun _ => .pure _

theorem parseCipherSuites (h : a.Agrees b e) {handshakeEnd : ℕ} (hend : handshakeEnd ≤ e)
    (offset : ℕ) :
    Settled (parseCipherSuites a handshakeEnd offset) (parseCipherSuites b handshakeEnd offset) := by
  unfold TransportSniffer.parseCipherSuites
  split_ifs with htwo
  · exact .pure _
  · apply (h.getUnsigned (by omega)).bind
    intro cipherSuitesLength
    dsimp only
    split_ifs with hsuites
    · exact .pure _
    · exact h.parseCompression hend _

theorem parseSessionId (h : a.Agrees b e) {handshakeEnd : ℕ} (hend : handshakeEnd ≤ e)
    (offset : ℕ) :
    Settled (parseSessionId a handshakeEnd offset) (parseSessionId b handshakeEnd offset) := by
  unfold TransportSniffer.parseSessionId
  split_ifs with hone
  · exact .pure _
  · apply (h.getUnsigned (by omega)).bind
    intro sessionIdLength
    dsimp only
    split_ifs with hsession
    · exact .pure _
    · exact h.parseCipherSuites hend _

end Cumulation.Agrees

/-- A header, and as many bytes as it declares. -/
def IsRecord (record : List Byte) : Prop :=
  5 ≤ record.length ∧ record.length = 5 + intAt record 3 2

/-- A buffer too small for the header of a handshake, of which the type is missing or that of a
ClientHello. -/
def Overruns (buf : Cumulation) : Prop :=
  buf.memory.length < 9 ∧ (buf.memory.length = 5 ∨ intAt buf.memory 5 1 = 0x01)

instance (buf : Cumulation) : Decidable (Overruns buf) := inferInstanceAs (Decidable (_ ∧ _))

theorem parse_settled {a b : Cumulation} {e : ℕ} (h : a.Agrees b e) (hnine : 9 ≤ e)
    (hrecord : e = 5 + intAt a.memory 3 2) (ha : e ≤ a.readable.length)
    (hb : e ≤ b.readable.length) :
    Settled (parseTlsClientHello a) (parseTlsClientHello b) := by
  have hleft := h.le_left
  have hright := h.le_right
  have hsame : intAt b.memory 3 2 = intAt a.memory 3 2 := by
    rw [intAt, intAt, h.sliceAt_eq (by omega)]
  have hshort : ∀ {buf : Cumulation}, 9 ≤ buf.memory.length →
      buf.getUnsignedShort 3 = .ok (intAt buf.memory 3 2) := by
    intro buf hbuf
    rw [Cumulation.getUnsignedShort, Cumulation.getUnsigned, if_pos (by omega)]
  rw [parseTlsClientHello, parseTlsClientHello, if_neg (by omega), if_neg (by omega),
    hshort (by omega), hshort (by omega), hsame]
  change Settled (if _ then _ else _) (if _ then _ else _)
  rw [if_neg (by omega), if_neg (by omega)]
  apply (h.getUnsigned (by omega)).bind
  intro handshakeType
  split_ifs with htype
  · exact .pure _
  · apply (h.getUnsigned (by omega)).bind
    intro handshakeLength
    dsimp only
    split_ifs with hrandom
    · exact .pure _
    · exact h.parseSessionId (by omega) _

/-- A record that ends before the header of its handshake does. -/
theorem parse_of_short {buf : Cumulation} (hfive : 5 ≤ buf.readable.length)
    (hrecord : 5 + intAt buf.memory 3 2 ≤ buf.readable.length)
    (hshort : 5 + intAt buf.memory 3 2 < 9) :
    parseTlsClientHello buf =
      if Overruns buf then .error .indexOutOfBounds else .ok none := by
  have hmemory : buf.readable.length ≤ buf.memory.length := by
    rw [Cumulation.memory, List.length_append]
    omega
  rw [parseTlsClientHello, if_neg (by omega), Cumulation.getUnsignedShort, Cumulation.getUnsigned,
    if_pos (by omega)]
  change (if _ then _ else _) = _
  rw [if_neg (by omega), Cumulation.getUnsignedByte, Cumulation.getUnsigned]
  by_cases hfull : buf.memory.length = 5
  · rw [if_neg (by omega), if_pos ⟨by omega, .inl hfull⟩]
    rfl
  · rw [if_pos (by omega)]
    change (if _ then _ else _) = _
    by_cases htype : intAt buf.memory 5 1 = 0x01
    · rw [if_neg (not_not.mpr htype), Cumulation.getUnsignedMedium, Cumulation.getUnsigned]
      by_cases hnine : 9 ≤ buf.memory.length
      · rw [if_pos (by omega), if_neg (fun h => absurd h.1 (by omega))]
        change (if _ then _ else _) = _
        rw [if_pos (by omega)]
        rfl
      · rw [if_neg (by omega), if_pos ⟨by omega, .inr htype⟩]
        rfl
    · rw [if_pos htype, if_neg fun h => h.2.elim hfull htype]
      rfl

/-- What is read does not depend on what stands behind the record, whether it was received or is
left from an earlier use of the memory, but for buffers with no room for a handshake. -/
theorem parse_record_front {record : List Byte} (hrecord : IsRecord record) :
    ∃ info, ∀ more stale, parseTlsClientHello ⟨record ++ more, stale⟩ =
      if Overruns ⟨record ++ more, stale⟩ then .error .indexOutOfBounds else .ok info := by
  obtain ⟨hfive, hlength⟩ := hrecord
  have htake : ∀ more stale : List Byte,
      (Cumulation.mk (record ++ more) stale).memory.take record.length = record := by
    intro more stale
    rw [Cumulation.memory, List.append_assoc, List.take_left]
  have hroom : ∀ more stale : List Byte,
      record.length ≤ (Cumulation.mk (record ++ more) stale).memory.length := by
    intro more stale
    simp only [Cumulation.memory, List.length_append]
    omega
  have hagrees : ∀ more stale : List Byte, (Cumulation.mk (record ++ more) stale).Agrees
      ⟨record, []⟩ record.length := by
    intro more stale
    have halone := htake [] []
    rw [List.append_nil] at halone
    refine ⟨(htake more stale).trans halone.symm, hroom more stale, ?_⟩
    rw [Cumulation.memory, List.append_nil]
  have hdeclared : ∀ more stale : List Byte,
      intAt (Cumulation.mk (record ++ more) stale).memory 3 2 = intAt record 3 2 := by
    intro more stale
    rw [intAt, (hagrees more stale).sliceAt_eq (by omega), Cumulation.memory, List.append_nil,
      ← intAt]
  by_cases hnine : 9 ≤ record.length
  · obtain ⟨info, -, hinfo⟩ := parse_settled (hagrees [] []) hnine
      (by rw [hdeclared]; exact hlength) (by simp) (by simp)
    refine ⟨info, fun more stale => ?_⟩
    have hlong := hroom more stale
    obtain ⟨same, hsame, halone⟩ := parse_settled (hagrees more stale) hnine
      (by rw [hdeclared]; exact hlength) (by simp) (by simp)
    rw [hinfo] at halone
    cases halone
    rw [if_neg (fun h => absurd h.1 (by omega))]
    exact hsame
  · refine ⟨none, fun more stale => ?_⟩
    apply parse_of_short
    · simp only [List.length_append]
      omega
    · rw [hdeclared, ← hlength]
      simp
    · rw [hdeclared]
      omega

/-- With room for the header of a handshake nothing is thrown. -/
theorem parse_returns {buf : Cumulation} (h : 9 ≤ buf.memory.length) :
    ∃ info, parseTlsClientHello buf = .ok info := by
  by_cases hfive : buf.readable.length < 5
  · rw [parseTlsClientHello, if_pos hfive]
    exact ⟨none, rfl⟩
  by_cases hpart : buf.readable.length < 5 + intAt buf.memory 3 2
  · refine ⟨none, ?_⟩
    rw [parseTlsClientHello, if_neg hfive, Cumulation.getUnsignedShort, Cumulation.getUnsigned,
      if_pos (by omega)]
    change (if _ then _ else _) = _
    rw [if_pos hpart]
    rfl
  · have hmemory : buf.readable.length ≤ buf.memory.length := by
      rw [Cumulation.memory, List.length_append]
      omega
    by_cases hnine : 9 ≤ 5 + intAt buf.memory 3 2
    · obtain ⟨info, hinfo, -⟩ :=
        @parse_settled buf buf _ ⟨rfl, by omega, by omega⟩ hnine rfl (by omega) (by omega)
      exact ⟨info, hinfo⟩
    · refine ⟨none, ?_⟩
      rw [parse_of_short (by omega) (by omega) (by omega),
        if_neg fun hover => absurd hover.1 (by omega)]

/-- A record without content, in a buffer with no room and in one with some. -/
theorem parse_record_front_empty : ∃ info, ∀ more stale,
    parseTlsClientHello ⟨[0x16, 0x03, 0x01, 0x00, 0x00] ++ more, stale⟩ =
      if Overruns ⟨[0x16, 0x03, 0x01, 0x00, 0x00] ++ more, stale⟩ then .error .indexOutOfBounds
      else .ok info :=
  parse_record_front ⟨by decide, by decide⟩

end Record

end OpenNXT.Net.TransportSniffer
