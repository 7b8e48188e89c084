import OpenNXT.Tools.TlsTerminateProxy.ClientHello

/-! The first record of a client as TLS lays it out, and what the parser finds in it. -/
namespace OpenNXT.Tools.TlsTerminateProxy
open Buffer

structure ServerName where
  nameType : Byte
  name : List Byte

/-- The extension with the type zero is the list of names. -/
inductive Extension
  | serverName (names : List ServerName)
  | other (type : BitVec 16) (nonzero : type ≠ 0) (body : List Byte)

structure ClientHello where
  recordVersion : Byte
  version : BitVec 16
  random : Vector Byte 32
  sessionId : List Byte
  cipherSuites : List Byte
  compressionMethods : List Byte
  /-- The whole block of extensions may be left out. -/
  extensions : Option (List Extension)

namespace ServerName

def bytes (n : ServerName) : List Byte := n.nameType :: (toBytes 2 n.name.length ++ n.name)

end ServerName

namespace Extension

def type : Extension → BitVec 16
  | serverName _ => 0
  | other type _ _ => type

def listBytes (names : List ServerName) : List Byte := names.flatMap ServerName.bytes

def body : Extension → List Byte
  | serverName names => toBytes 2 (listBytes names).length ++ listBytes names
  | other _ _ body => body

def bytes (e : Extension) : List Byte :=
  toBytes 2 e.type.toNat ++ (toBytes 2 e.body.length ++ e.body)

end Extension

namespace ClientHello

def extensionBlock (h : ClientHello) : List Byte :=
  match h.extensions with
  | none => []
  | some es => toBytes 2 (es.flatMap Extension.bytes).length ++ es.flatMap Extension.bytes

def body (h : ClientHello) : List Byte :=
  toBytes 2 h.version.toNat ++ (h.random.toList ++
    (BitVec.ofNat 8 h.sessionId.length :: (h.sessionId ++
      (toBytes 2 h.cipherSuites.length ++ (h.cipherSuites ++
        (BitVec.ofNat 8 h.compressionMethods.length ::
          (h.compressionMethods ++ h.extensionBlock)))))))

def handshake (h : ClientHello) : List Byte := 0x01 :: (toBytes 3 h.body.length ++ h.body)

def record (h : ClientHello) : List Byte :=
  [0x16, 0x03, h.recordVersion] ++ (toBytes 2 h.handshake.length ++ h.handshake)

/-- What TLS asks of the lengths, and of the types of the extensions. -/
structure WellFormed (h : ClientHello) : Prop where
  recordVersion : h.recordVersion.toNat ≤ 0x04
  sessionId : h.sessionId.length ≤ 32
  compressionMethods : h.compressionMethods.length < 256
  fits : h.handshake.length < 65536
  distinct : ((h.extensions.getD []).map Extension.type).Nodup

end ClientHello

/-- The first name of the type that stands for a host. -/
def hostName : List ServerName → Option (List Char)
  | [] => none
  | n :: ns => if n.nameType = 0 then decodeName n.name else hostName ns

/-- The first list of names. -/
def sniOf : List Extension → Option (List Char)
  | [] => none
  | .serverName names :: _ => hostName names
  | .other _ _ _ :: es => sniOf es

section Scan
variable {data : List Byte}

theorem scanNames_list {names : List ServerName} {cursor : ℕ}
    (h : Stands data cursor (Extension.listBytes names))
    (hsmall : (Extension.listBytes names).length < 65536) :
    scanNames data (cursor + (Extension.listBytes names).length) cursor = .ok (hostName names) := by
  induction names generalizing cursor with
  | nil =>
    rw [scanNames, if_neg (by change ¬ cursor + 3 ≤ cursor + 0; omega)]
    rfl
  | cons n ns ih =>
    have hbytes : Extension.listBytes (n :: ns) =
        [n.nameType] ++ (toBytes 2 n.name.length ++ (n.name ++ Extension.listBytes ns)) := by
      simp [Extension.listBytes, ServerName.bytes]
    have hlen : (Extension.listBytes (n :: ns)).length =
        3 + n.name.length + (Extension.listBytes ns).length := by
      rw [hbytes]
      simp only [List.length_append, List.length_singleton, length_toBytes]
      omega
    rw [hbytes] at h
    have hlength := h.after (j := cursor + 1) rfl
    have hname := hlength.after (j := cursor + 3) (by rw [length_toBytes])
    have hint : intAt data (cursor + 1) 2 = n.name.length := hlength.left.int (by omega)
    have hrest := ih hname.right (by omega)
    rw [scanNames, if_pos (by omega), byteAt_eq h.head, ok_bind, hint]
    dsimp only
    rw [if_neg (by omega), hname.left.slice, hostName]
    by_cases hhost : n.nameType = 0
    · rw [if_pos hhost, if_pos hhost]
      rfl
    · rw [if_neg hhost, if_neg hhost, ← hrest]
      congr 1
      omega

theorem Extension.length_bytes (e : Extension) : e.bytes.length = 4 + e.body.length := by
  rw [Extension.bytes, List.length_append, List.length_append, length_toBytes, length_toBytes]
  omega

/-- The first list of names ends the scan, whatever follows it. -/
theorem scanExtensions_list {es : List Extension} {offset : ℕ}
    (h : Stands data offset (es.flatMap Extension.bytes))
    (hsmall : (es.flatMap Extension.bytes).length < 65536) :
    scanExtensions data (offset + (es.flatMap Extension.bytes).length) offset = .ok (sniOf es) := by
  induction es generalizing offset with
  | nil =>
    rw [scanExtensions, if_neg (by change ¬ offset + 4 ≤ offset + 0; omega)]
    rfl
  | cons e es ih =>
    have hlen : ((e :: es).flatMap Extension.bytes).length =
        4 + e.body.length + (es.flatMap Extension.bytes).length := by
      rw [List.flatMap_cons, List.length_append, e.length_bytes]
    rw [List.flatMap_cons, Extension.bytes, List.append_assoc, List.append_assoc] at h
    have htypeLt := e.type.isLt
    have hlength := h.after (j := offset + 2) (by rw [length_toBytes])
    have hbody := hlength.after (j := offset + 4) (by rw [length_toBytes])
    have htype : intAt data offset 2 = e.type.toNat := h.left.int (by omega)
    have hint : intAt data (offset + 2) 2 = e.body.length := hlength.left.int (by omega)
    rw [scanExtensions, if_pos (by omega), htype, hint]
    dsimp only
    rw [if_neg (by omega)]
    cases e with
    | serverName names =>
      have hnames := hbody.left
      have hlist : (Extension.serverName names).body.length =
          2 + (Extension.listBytes names).length := by
        rw [Extension.body, List.length_append, length_toBytes]
      rw [Extension.body] at hnames
      have hcount : intAt data (offset + 4) 2 = (Extension.listBytes names).length :=
        hnames.left.int (by omega)
      have hscan := scanNames_list (hnames.after (j := offset + 4 + 2) (by rw [length_toBytes]))
        (by omega)
      have hzero : (Extension.serverName names).type.toNat = 0 := rfl
      rw [if_pos hzero, if_neg (by omega), hcount, Nat.min_eq_left (by omega)]
      exact hscan
    | other type nonzero body =>
      have hne : (Extension.other type nonzero body).type.toNat ≠ 0 := by
        intro hzero
        exact nonzero (BitVec.eq_of_toNat_eq hzero)
      rw [if_neg hne, sniOf, ← ih hbody.right (by omega)]
      congr 1
      omega

end Scan

namespace ClientHello
variable {h : ClientHello}

theorem length_body (h : ClientHello) : h.body.length =
    38 + h.sessionId.length + h.cipherSuites.length + h.compressionMethods.length +
      h.extensionBlock.length := by
  simp only [body, List.length_append, List.length_cons, length_toBytes, Vector.length_toList]
  omega

theorem length_handshake (h : ClientHello) : h.handshake.length = 4 + h.body.length := by
  rw [handshake, List.length_cons, List.length_append, length_toBytes]
  omega

theorem toNat_length {bs : List Byte} (hbs : bs.length < 256) :
    (BitVec.ofNat 8 bs.length).toNat = bs.length := by
  rw [BitVec.toNat_ofNat, Nat.mod_eq_of_lt hbs]

/-- The block of extensions is where the lengths before it say. -/
theorem parseAfterRandom_body {data : List Byte} (hw : h.WellFormed)
    (hdata : Stands data 9 h.body) :
    parseAfterRandom data (9 + h.body.length) 43 = .ok (sniOf (h.extensions.getD [])) := by
  have hlength := h.length_body
  have hhandshake : h.handshake.length = 4 + h.body.length := h.length_handshake
  have hfits := hw.fits
  have hsid := toNat_length (lt_of_le_of_lt hw.sessionId (by omega))
  have hmethods := toNat_length hw.compressionMethods
  rw [body] at hdata
  have hrandom := hdata.after (j := 11) (by rw [length_toBytes])
  have hsession := hrandom.after (j := 43) (by rw [Vector.length_toList])
  have hciphers := hsession.tail.after (j := 43 + 1 + h.sessionId.length) rfl
  have hcount : intAt data (43 + 1 + h.sessionId.length) 2 = h.cipherSuites.length :=
    hciphers.left.int (by omega)
  have hcompression := (hciphers.after (j := 43 + 1 + h.sessionId.length + 2)
    (by rw [length_toBytes])).after
      (j := 43 + 1 + h.sessionId.length + (2 + h.cipherSuites.length)) (by omega)
  have hblock := hcompression.tail.after (j := 43 + 1 + h.sessionId.length +
    (2 + h.cipherSuites.length) + (1 + h.compressionMethods.length)) (by omega)
  rw [parseAfterRandom, byteAt_eq hsession.head, ok_bind, hsid]
  dsimp only
  rw [if_neg (by omega), hcount, if_neg (by omega), byteAt_eq hcompression.head, ok_bind, hmethods]
  cases hextensions : h.extensions with
  | none =>
    have hempty : h.extensionBlock.length = 0 := by rw [extensionBlock, hextensions]; rfl
    rw [if_pos (by omega)]
    rfl
  | some es =>
    have hes : h.extensionBlock =
        toBytes 2 (es.flatMap Extension.bytes).length ++ es.flatMap Extension.bytes := by
      rw [extensionBlock, hextensions]
    have hsize : h.extensionBlock.length = 2 + (es.flatMap Extension.bytes).length := by
      rw [hes, List.length_append, length_toBytes]
    rw [hes] at hblock
    have htotal := hblock.left.int (by omega)
    have hscan := scanExtensions_list (hblock.after rfl) (by omega)
    rw [length_toBytes] at hscan
    rw [if_neg (by omega), htotal, Nat.min_eq_right (by omega)]
    exact hscan

theorem parse_record (hw : h.WellFormed) :
    parseTlsClientHelloSni h.record = .ok (sniOf (h.extensions.getD [])) := by
  have hlength := h.length_body
  have hhandshake := h.length_handshake
  have hfits := hw.fits
  have hrecord : h.record.length = 5 + h.handshake.length := by
    rw [record, List.length_append, List.length_append, length_toBytes, List.length_cons,
      List.length_cons, List.length_singleton]
    omega
  have hlooks : looksLikeTlsClientHello h.record := by
    have hversion := hw.recordVersion
    have hfive : 5 ≤ h.record.length := by omega
    rw [looksLikeTlsClientHello, decide_eq_true hfive]
    simpa [record] using hversion
  have hstart : Stands h.record 0 ([0x16, 0x03, h.recordVersion] ++
      (toBytes 2 h.handshake.length ++ h.handshake)) := Stands.start h.record
  have hsize := hstart.after (j := 3) rfl
  have hinner : Stands h.record 5 (0x01 :: (toBytes 3 h.body.length ++ h.body)) :=
    hsize.after (by rw [length_toBytes])
  have hrecordLength : intAt h.record 3 2 = h.handshake.length := hsize.left.int (by omega)
  have hbodyLength : intAt h.record 6 3 = h.body.length := hinner.tail.left.int (by omega)
  have hbody := hinner.tail.after (j := 9) (by rw [length_toBytes])
  rw [parseTlsClientHelloSni, if_neg (by rw [not_or, not_not]; exact ⟨by omega, hlooks⟩),
    hrecordLength]
  dsimp only
  rw [if_neg (by omega), parseHandshake, byteAt_eq hinner.head, ok_bind, if_neg (not_not.mpr rfl),
    if_neg (by omega), hbodyLength]
  dsimp only
  rw [if_neg (by omega), if_neg (by omega)]
  exact parseAfterRandom_body hw hbody

end ClientHello

section Names

/-- With types that differ there is one list of names at most. -/
theorem sniOf_eq {es : List Extension} (hdistinct : (es.map Extension.type).Nodup)
    {names : List ServerName} (hmem : Extension.serverName names ∈ es) :
    sniOf es = hostName names := by
  induction es with
  | nil => cases hmem
  | cons e es ih =>
    rw [List.map_cons, List.nodup_cons] at hdistinct
    rcases List.mem_cons.mp hmem with rfl | hlater
    · rfl
    · cases e with
      | serverName others =>
        exact absurd (List.mem_map.mpr ⟨_, hlater, rfl⟩) hdistinct.1
      | other type nonzero body => exact ih hdistinct.2 hlater

theorem sniOf_eq_none {es : List Extension} (h : ∀ names, Extension.serverName names ∉ es) :
    sniOf es = none := by
  induction es with
  | nil => rfl
  | cons e es ih =>
    cases e with
    | serverName names => exact absurd List.mem_cons_self (h names)
    | other type nonzero body =>
      exact ih fun names hmem => h names (List.mem_cons_of_mem _ hmem)

theorem decodeName_ascii {name : List Byte} (hne : name ≠ []) (h : ∀ b ∈ name, b.toNat < 128) :
    decodeName name = some (name.map fun b => Char.ofNat b.toNat) := by
  have hall : (name.filter fun b => b.toNat < 128) = name := by
    apply List.filter_eq_self.mpr
    intro b hb
    exact decide_eq_true (h b hb)
  rw [decodeName, hall, if_neg fun hempty => hne (List.map_eq_nil_iff.mp hempty)]

/-- The names before the first host do not matter. -/
theorem hostName_append {before after : List ServerName} (n : ServerName)
    (hbefore : ∀ m ∈ before, m.nameType ≠ 0) (hn : n.nameType = 0) :
    hostName (before ++ n :: after) = decodeName n.name := by
  induction before with
  | nil =>
    change hostName (n :: after) = _
    rw [hostName, if_pos hn]
  | cons m ms ih =>
    change hostName (m :: (ms ++ n :: after)) = _
    rw [hostName, if_neg (hbefore m List.mem_cons_self)]
    exact ih fun k hk => hbefore k (List.mem_cons_of_mem m hk)

end Names

/-- The parser raises nothing, and is exact on the records that are well formed: the first host of
the list of names if it is ASCII and not empty, and nothing where there is no such list. -/
def TotalAndExact (data : List Byte) : Prop :=
  (∀ raised, parseTlsClientHelloSni data ≠ .error raised) ∧
    ∀ h : ClientHello, h.WellFormed → h.record = data →
      (∀ before n after, Extension.serverName (before ++ n :: after) ∈ h.extensions.getD [] →
        (∀ m ∈ before, m.nameType ≠ 0) → n.nameType = 0 → n.name ≠ [] →
        (∀ b ∈ n.name, b.toNat < 128) →
        parseTlsClientHelloSni data = .ok (some (n.name.map fun b => Char.ofNat b.toNat))) ∧
      ((∀ names, Extension.serverName names ∉ h.extensions.getD []) →
        parseTlsClientHelloSni data = .ok none)

/-- All that is wrong is an index that is read before its bound is known. -/
theorem totalAndExact_iff (data : List Byte) : TotalAndExact data ↔ ¬ Overruns data := by
  rw [← returns_iff]
  constructor
  · intro htotal
    cases hparse : parseTlsClientHelloSni data with
    | ok name => exact ⟨name, rfl⟩
    | error raised => exact absurd hparse (htotal.1 raised)
  · rintro ⟨name, hname⟩
    have htotal : ∀ raised, parseTlsClientHelloSni data ≠ .error raised := by
      intro raised hraised
      rw [hname] at hraised
      cases hraised
    refine ⟨htotal, ?_⟩
    rintro h hw rfl
    rw [ClientHello.parse_record hw]
    constructor
    · intro before n after hmem hbefore hn hne hascii
      rw [sniOf_eq hw.distinct hmem, hostName_append n hbefore hn, decodeName_ascii hne hascii]
    · intro hno
      rw [sniOf_eq_none hno]

/-- A record that says it is empty. -/
theorem not_totalAndExact_empty : ¬ TotalAndExact [0x16, 0x03, 0x01, 0x00, 0x00] := by
  intro htotal
  apply htotal.1 .indexError
  rw [parseTlsClientHelloSni, if_neg (by decide)]
  dsimp only
  rw [if_neg (by decide), parseHandshake, byteAt_of_le (by decide)]
  rfl

end OpenNXT.Tools.TlsTerminateProxy
