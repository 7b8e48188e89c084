import OpenNXT.Net.TransportSniffer.TlsClientHello
import OpenNXT.Tools.TlsTerminateProxy.ClientHelloRecord

/-! What the sniffer finds in a record that is laid out as TLS says, and what the terminating proxy
finds in the same record. -/
namespace OpenNXT.Net.TransportSniffer
open Buffer Tools.TlsTerminateProxy

/-- The extensions the sniffer knows, and the others. -/
inductive Announcement
  | serverName (names : List ServerName)
  | alpn (protocols : List (List Byte))
  | supportedVersions (versions : List (BitVec 16))
  | other (type : BitVec 16) (unknown : type ≠ 0x0000 ∧ type ≠ 0x0010 ∧ type ≠ 0x002b)
      (body : List Byte)

def protocolBytes (protocols : List (List Byte)) : List Byte :=
  protocols.flatMap fun p => BitVec.ofNat 8 p.length :: p

def versionBytes (versions : List (BitVec 16)) : List Byte :=
  versions.flatMap fun v => toBytes 2 v.toNat

namespace Announcement

def extension : Announcement → Extension
  | serverName names => .serverName names
  | alpn protocols =>
    .other 0x0010 (by decide) (toBytes 2 (protocolBytes protocols).length ++ protocolBytes protocols)
  | supportedVersions versions =>
    .other 0x002b (by decide)
      (BitVec.ofNat 8 (versionBytes versions).length :: versionBytes versions)
  | other type unknown body => .other type unknown.1 body

/-- A protocol and a list of versions have one byte of length. -/
def Fits : Announcement → Prop
  | alpn protocols => ∀ p ∈ protocols, p.length < 256
  | supportedVersions versions => versions.length < 128
  | _ => True

end Announcement

/-- The first name that stands for a host. -/
def hostOf : List ServerName → Option (List Char)
  | [] => none
  | n :: ns => if n.nameType = 0 then some (n.name.map decodeAscii) else hostOf ns

def tell (info : TlsClientHelloInfo) : Announcement → TlsClientHelloInfo
  | .serverName names => { info with serverName := (hostOf names).or info.serverName }
  | .alpn protocols =>
    { info with alpnProtocols := info.alpnProtocols ++ protocols.map (·.map decodeAscii) }
  | .supportedVersions versions =>
    { info with supportedVersions := info.supportedVersions ++
        versions.map fun v => formatTlsVersion (v.toNat / 256) (v.toNat % 256) }
  | .other _ _ _ => info

section Scan
variable {buf : Cumulation} {i n v : ℕ} {bytes rest : List Byte}

theorem getUnsigned_of_stands (h : Stands buf.memory i (toBytes n v ++ rest)) (hv : v < 256 ^ n) :
    buf.getUnsigned n i = .ok v := by
  have hle := h.left.le
  rw [length_toBytes] at hle
  rw [Cumulation.getUnsigned, if_pos hle, h.left.int hv]

theorem getUnsignedByte_of_stands {b : Byte} (h : Stands buf.memory i (b :: rest)) :
    buf.getUnsignedByte i = .ok b.toNat := by
  have hbyte : toBytes 1 b.toNat ++ rest = b :: rest := by simp [toBytes]
  rw [← hbyte] at h
  exact getUnsigned_of_stands h b.isLt

theorem toText_of_stands (h : Stands buf.memory i (bytes ++ rest)) :
    buf.toText i bytes.length = .ok (bytes.map decodeAscii) := by
  rw [Cumulation.toText, if_pos h.left.le, h.left.slice]

theorem ok_bind {α β : Type} (a : α) (f : α → Except Thrown β) : (Except.ok a >>= f) = f a := rfl

theorem scanNames_list {names : List ServerName} {nameOffset : ℕ}
    (h : Stands buf.memory nameOffset (Extension.listBytes names))
    (hsmall : (Extension.listBytes names).length < 65536) :
    scanNames buf (nameOffset + (Extension.listBytes names).length) nameOffset =
      .ok (hostOf names) := by
  induction names generalizing nameOffset with
  | nil =>
    rw [scanNames, if_neg (by change ¬ nameOffset + 3 ≤ nameOffset + 0; omega)]
    rfl
  | cons n ns ih =>
    have hbytes : Extension.listBytes (n :: ns) =
        [n.nameType] ++ (toBytes 2 n.name.length ++ (n.name ++ Extension.listBytes ns)) := by
      simp [Extension.listBytes, ServerName.bytes]
    have hlen : (Extension.listBytes (n :: ns)).length =
        3 + n.name.length + (Extension.listBytes ns).length := by
      rw [hbytes]
      simp only [List.length_append, List.length_singleton, length_toBytes]
      omega
    rw [hbytes] at h
    have hlength := h.after (j := nameOffset + 1) rfl
    have hname := hlength.after (j := nameOffset + 3) (by rw [length_toBytes])
    have hint : buf.getUnsignedShort (nameOffset + 1) = .ok n.name.length :=
      getUnsigned_of_stands hlength (by omega)
    rw [scanNames, if_pos (by omega), getUnsignedByte_of_stands h, ok_bind, hint, ok_bind,
      if_neg (by omega), hostOf]
    by_cases hhost : n.nameType = 0
    · have hzero : n.nameType.toNat = 0 := congrArg BitVec.toNat hhost
      rw [if_pos hzero, if_pos hhost, toText_of_stands hname, ok_bind]
      rfl
    · have hne : n.nameType.toNat ≠ 0 := fun hzero => hhost (BitVec.eq_of_toNat_eq hzero)
      have hend : nameOffset + (Extension.listBytes (n :: ns)).length =
          nameOffset + 3 + n.name.length + (Extension.listBytes ns).length := by omega
      rw [if_neg hne, if_neg hhost, hend]
      exact ih (hname.after rfl) (by omega)

theorem scanProtocols_list {protocols : List (List Byte)} {protoOffset : ℕ}
    {found : List (List Char)} (h : Stands buf.memory protoOffset (protocolBytes protocols))
    (hfit : ∀ p ∈ protocols, p.length < 256) :
    scanProtocols buf (protoOffset + (protocolBytes protocols).length) protoOffset found =
      .ok (found ++ protocols.map (·.map decodeAscii)) := by
  induction protocols generalizing protoOffset found with
  | nil =>
    rw [scanProtocols, if_neg (by change ¬ protoOffset + 1 ≤ protoOffset + 0; omega), List.map_nil,
      List.append_nil]
    rfl
  | cons p ps ih =>
    have hbytes : protocolBytes (p :: ps) =
        BitVec.ofNat 8 p.length :: (p ++ protocolBytes ps) := rfl
    have hlen : (protocolBytes (p :: ps)).length = 1 + p.length + (protocolBytes ps).length := by
      rw [hbytes, List.length_cons, List.length_append]
      omega
    have hend : protoOffset + (protocolBytes (p :: ps)).length =
        protoOffset + 1 + p.length + (protocolBytes ps).length := by omega
    rw [hbytes] at h
    rw [scanProtocols, if_pos (by omega), getUnsignedByte_of_stands h, ok_bind,
      ClientHello.toNat_length (hfit p List.mem_cons_self), if_neg (by omega),
      toText_of_stands h.tail, ok_bind, hend,
      ih (h.tail.after rfl) fun q hq => hfit q (List.mem_cons_of_mem _ hq)]
    simp

theorem scanVersions_list {versions : List (BitVec 16)} {versionOffset : ℕ}
    {found : List (List Char)} (h : Stands buf.memory versionOffset (versionBytes versions)) :
    scanVersions buf (versionOffset + (versionBytes versions).length) versionOffset found =
      .ok (found ++ versions.map fun v => formatTlsVersion (v.toNat / 256) (v.toNat % 256)) := by
  induction versions generalizing versionOffset found with
  | nil =>
    rw [scanVersions, if_neg (by change ¬ versionOffset + 2 ≤ versionOffset + 0; omega),
      List.map_nil, List.append_nil]
    rfl
  | cons v vs ih =>
    have hlen : (versionBytes (v :: vs)).length = 2 + (versionBytes vs).length := by
      rw [versionBytes, List.flatMap_cons, List.length_append, length_toBytes]
      rfl
    have hend : versionOffset + (versionBytes (v :: vs)).length =
        versionOffset + 2 + (versionBytes vs).length := by omega
    have hstands : Stands buf.memory versionOffset (toBytes 2 v.toNat ++ versionBytes vs) := h
    have hint : buf.getUnsignedShort versionOffset = .ok v.toNat :=
      getUnsigned_of_stands hstands v.isLt
    rw [scanVersions, if_pos (by omega), hint, ok_bind, hend,
      ih (hstands.after (by rw [length_toBytes]))]
    simp

theorem length_versionBytes (versions : List (BitVec 16)) :
    (versionBytes versions).length = 2 * versions.length := by
  induction versions with
  | nil => rfl
  | cons v vs ih =>
    rw [versionBytes, List.flatMap_cons, List.length_append, length_toBytes, ← versionBytes, ih,
      List.length_cons]
    omega

/-- A list of names that has one has at least three bytes. -/
theorem hostOf_of_length_lt {names : List ServerName}
    (h : (Extension.listBytes names).length < 3) : hostOf names = none := by
  cases names with
  | nil => rfl
  | cons n ns =>
    have hlen : (Extension.listBytes (n :: ns)).length =
        3 + n.name.length + (Extension.listBytes ns).length := by
      rw [Extension.listBytes, List.flatMap_cons, ServerName.bytes, Extension.listBytes]
      simp only [List.length_append, List.length_cons, length_toBytes]
      omega
    omega

theorem readExtension_body {a : Announcement} {offset : ℕ} (info : TlsClientHelloInfo)
    (hfit : a.Fits) (h : Stands buf.memory offset a.extension.body)
    (hsmall : a.extension.body.length < 65536) :
    readExtension buf a.extension.type.toNat a.extension.body.length offset info =
      .ok (tell info a) := by
  cases a with
  | serverName names =>
    have hbody : (Announcement.serverName names).extension.body =
        toBytes 2 (Extension.listBytes names).length ++ Extension.listBytes names := rfl
    have htype : (Announcement.serverName names).extension.type.toNat = 0x0000 := rfl
    rw [htype, readExtension, if_pos rfl]
    rw [hbody] at h hsmall ⊢
    rw [List.length_append, length_toBytes] at hsmall ⊢
    split_ifs with hfive
    · have hlist : buf.getUnsignedShort offset = .ok (Extension.listBytes names).length :=
        getUnsigned_of_stands h (by omega)
      rw [hlist, ok_bind, Nat.min_eq_left (by omega),
        scanNames_list (h.after (by rw [length_toBytes])) (by omega), ok_bind]
      rfl
    · rw [tell, hostOf_of_length_lt (by omega)]
      rfl
  | alpn protocols =>
    have hbody : (Announcement.alpn protocols).extension.body =
        toBytes 2 (protocolBytes protocols).length ++ protocolBytes protocols := rfl
    have htype : (Announcement.alpn protocols).extension.type.toNat = 0x0010 := rfl
    rw [htype, readExtension, if_neg (by decide), if_pos rfl]
    rw [hbody] at h hsmall ⊢
    rw [List.length_append, length_toBytes] at hsmall ⊢
    have hlist : buf.getUnsignedShort offset = .ok (protocolBytes protocols).length :=
      getUnsigned_of_stands h (by omega)
    rw [if_pos (by omega), hlist, ok_bind, Nat.min_eq_left (by omega),
      scanProtocols_list (h.after (by rw [length_toBytes])) hfit, ok_bind]
    rfl
  | supportedVersions versions =>
    have hbody : (Announcement.supportedVersions versions).extension.body =
        BitVec.ofNat 8 (versionBytes versions).length :: versionBytes versions := rfl
    have htype : (Announcement.supportedVersions versions).extension.type.toNat = 0x002b := rfl
    have hcount : versions.length < 128 := hfit
    have hbytes := length_versionBytes versions
    rw [htype, readExtension, if_neg (by decide), if_neg (by decide), if_pos rfl]
    rw [hbody] at h hsmall ⊢
    rw [List.length_cons] at hsmall ⊢
    rw [if_pos (by omega), getUnsignedByte_of_stands h, ok_bind,
      ClientHello.toNat_length (by omega), Nat.min_eq_left (by omega),
      scanVersions_list h.tail, ok_bind]
    rfl
  | other type unknown body =>
    obtain ⟨hname, halpn, hversions⟩ := unknown
    have hzero : type.toNat ≠ 0x0000 := fun heq => hname (BitVec.eq_of_toNat_eq heq)
    have hsixteen : type.toNat ≠ 0x0010 := fun heq => halpn (BitVec.eq_of_toNat_eq heq)
    have hlast : type.toNat ≠ 0x002b := fun heq => hversions (BitVec.eq_of_toNat_eq heq)
    have htype : (Announcement.other type ⟨hname, halpn, hversions⟩ body).extension.type.toNat =
        type.toNat := rfl
    rw [htype, readExtension, if_neg hzero, if_neg hsixteen, if_neg hlast]
    rfl

theorem scanExtensions_list {as : List Announcement} {offset : ℕ} {info : TlsClientHelloInfo}
    (hfits : ∀ a ∈ as, a.Fits)
    (h : Stands buf.memory offset ((as.map Announcement.extension).flatMap Extension.bytes))
    (hsmall : ((as.map Announcement.extension).flatMap Extension.bytes).length < 65536) :
    scanExtensions buf
        (offset + ((as.map Announcement.extension).flatMap Extension.bytes).length) offset info =
      .ok (as.foldl tell info) := by
  induction as generalizing offset info with
  | nil =>
    rw [scanExtensions, if_neg (by change ¬ offset + 4 ≤ offset + 0; omega)]
    rfl
  | cons a as ih =>
    have hlen : (((a :: as).map Announcement.extension).flatMap Extension.bytes).length =
        4 + a.extension.body.length +
          ((as.map Announcement.extension).flatMap Extension.bytes).length := by
      rw [List.map_cons, List.flatMap_cons, List.length_append, a.extension.length_bytes]
    have hend : offset + (((a :: as).map Announcement.extension).flatMap Extension.bytes).length =
        offset + 4 + a.extension.body.length +
          ((as.map Announcement.extension).flatMap Extension.bytes).length := by omega
    rw [List.map_cons, List.flatMap_cons, Extension.bytes, List.append_assoc, List.append_assoc] at h
    have hlength := h.after (j := offset + 2) (by rw [length_toBytes])
    have hbody := hlength.after (j := offset + 4) (by rw [length_toBytes])
    have htype : buf.getUnsignedShort offset = .ok a.extension.type.toNat :=
      getUnsigned_of_stands h a.extension.type.isLt
    have hint : buf.getUnsignedShort (offset + 2) = .ok a.extension.body.length :=
      getUnsigned_of_stands hlength (by omega)
    rw [scanExtensions, if_pos (by omega), htype, ok_bind, hint, ok_bind, if_neg (by omega),
      readExtension_body info (hfits a List.mem_cons_self) hbody.left (by omega), ok_bind, hend,
      ih (fun b hb => hfits b (List.mem_cons_of_mem _ hb)) (hbody.after rfl) (by omega)]
    rfl

end Scan

section Record
variable {h : ClientHello} {as : List Announcement} {buf : Cumulation}

/-- The extensions of a record are these, each as the sniffer expects it. -/
structure Announces (h : ClientHello) (as : List Announcement) : Prop where
  extensions : h.extensions.getD [] = as.map Announcement.extension
  fits : ∀ a ∈ as, a.Fits

theorem parseSessionId_body (hw : h.WellFormed) (has : Announces h as)
    (hbuf : Stands buf.memory 9 h.body) :
    parseSessionId buf (9 + h.body.length) 43 = .ok (some (as.foldl tell {})) := by
  have hlength := h.length_body
  have hhandshake : h.handshake.length = 4 + h.body.length := h.length_handshake
  have hfits := hw.fits
  have hsid := ClientHello.toNat_length (lt_of_le_of_lt hw.sessionId (by omega))
  have hmethods := ClientHello.toNat_length hw.compressionMethods
  rw [ClientHello.body] at hbuf
  have hrandom := hbuf.after (j := 11) (by rw [length_toBytes])
  have hsession := hrandom.after (j := 43) (by rw [Vector.length_toList])
  have hciphers := hsession.tail.after (j := 43 + 1 + h.sessionId.length) rfl
  have hcount : buf.getUnsignedShort (43 + 1 + h.sessionId.length) = .ok h.cipherSuites.length :=
    getUnsigned_of_stands hciphers (by omega)
  have hcompression := (hciphers.after (j := 43 + 1 + h.sessionId.length + 2)
    (by rw [length_toBytes])).after
      (j := 43 + 1 + h.sessionId.length + 2 + h.cipherSuites.length) rfl
  have hblock := hcompression.tail.after (j := 43 + 1 + h.sessionId.length + 2 +
    h.cipherSuites.length + 1 + h.compressionMethods.length) rfl
  rw [parseSessionId, if_neg (by omega), getUnsignedByte_of_stands hsession, ok_bind, hsid]
  dsimp only
  rw [if_neg (by omega), parseCipherSuites, if_neg (by omega), hcount, ok_bind]
  dsimp only
  rw [if_neg (by omega), parseCompression, if_neg (by omega),
    getUnsignedByte_of_stands hcompression, ok_bind, hmethods]
  dsimp only
  rw [if_neg (by omega)]
  cases hextensions : h.extensions with
  | none =>
    have hempty : h.extensionBlock.length = 0 := by
      rw [ClientHello.extensionBlock, hextensions]
      rfl
    have hnil : as = [] := by
      have hmap := has.extensions
      rw [hextensions] at hmap
      exact List.map_eq_nil_iff.mp hmap.symm
    rw [if_pos (by omega), hnil]
    rfl
  | some es =>
    have hes : es = as.map Announcement.extension := by
      have hmap := has.extensions
      rwa [hextensions] at hmap
    have hextensionBlock : h.extensionBlock =
        toBytes 2 (es.flatMap Extension.bytes).length ++ es.flatMap Extension.bytes := by
      rw [ClientHello.extensionBlock, hextensions]
    have hsize : h.extensionBlock.length = 2 + (es.flatMap Extension.bytes).length := by
      rw [hextensionBlock, List.length_append, length_toBytes]
    rw [hextensionBlock] at hblock
    have htotal : buf.getUnsignedShort (43 + 1 + h.sessionId.length + 2 +
        h.cipherSuites.length + 1 + h.compressionMethods.length) =
          .ok (es.flatMap Extension.bytes).length := getUnsigned_of_stands hblock (by omega)
    have hrest := hblock.after (j := 43 + 1 + h.sessionId.length + 2 +
      h.cipherSuites.length + 1 + h.compressionMethods.length + 2) (by rw [length_toBytes])
    rw [if_neg (by omega), htotal, ok_bind, Nat.min_eq_right (by omega)]
    subst es
    rw [scanExtensions_list has.fits hrest (by omega), ok_bind]
    rfl

/-- In front of whatever else was received, and of whatever memory. -/
theorem parse_wellFormed (hw : h.WellFormed) (has : Announces h as) (more stale : List Byte) :
    parseTlsClientHello ⟨h.record ++ more, stale⟩ = .ok (some (as.foldl tell {})) := by
  have hlength := h.length_body
  have hhandshake := h.length_handshake
  have hfits := hw.fits
  have hrecord : h.record.length = 5 + h.handshake.length := by
    rw [ClientHello.record, List.length_append, List.length_append, length_toBytes,
      List.length_cons, List.length_cons, List.length_singleton]
    omega
  generalize hbuf : Cumulation.mk (h.record ++ more) stale = buf
  have hreadable : h.record.length ≤ buf.readable.length := by
    rw [← hbuf, List.length_append]
    omega
  have hstart : Stands buf.memory 0 ([0x16, 0x03, h.recordVersion] ++
      (toBytes 2 h.handshake.length ++ h.handshake)) := by
    refine ⟨[], more ++ stale, ?_, rfl⟩
    rw [← hbuf, Cumulation.memory, List.append_assoc]
    rfl
  have hsize := hstart.after (j := 3) rfl
  have hinner : Stands buf.memory 5 (0x01 :: (toBytes 3 h.body.length ++ h.body)) :=
    hsize.after (by rw [length_toBytes])
  have hrecordLength : buf.getUnsignedShort 3 = .ok h.handshake.length :=
    getUnsigned_of_stands hsize (by omega)
  have hbodyLength : buf.getUnsignedMedium 6 = .ok h.body.length :=
    getUnsigned_of_stands hinner.tail (by omega)
  have hbody := hinner.tail.after (j := 9) (by rw [length_toBytes])
  have htype : (0x01 : Byte).toNat = 0x01 := rfl
  rw [parseTlsClientHello, if_neg (by omega), hrecordLength, ok_bind]
  dsimp only
  rw [if_neg (by omega), getUnsignedByte_of_stands hinner, ok_bind, htype,
    if_neg (not_not.mpr rfl), hbodyLength, ok_bind, Nat.min_eq_right (by omega),
    if_neg (by omega)]
  exact parseSessionId_body hw has hbody

end Record

section Agreement
variable {h : ClientHello} {as : List Announcement}

/-- Every host is named in ASCII. -/
def AsciiHosts (h : ClientHello) : Prop :=
  ∀ names, Extension.serverName names ∈ h.extensions.getD [] →
    ∀ n ∈ names, n.nameType = 0 → n.name ≠ [] ∧ ∀ b ∈ n.name, b.toNat < 128

theorem hostOf_eq_hostName {names : List ServerName}
    (hascii : ∀ n ∈ names, n.nameType = 0 → n.name ≠ [] ∧ ∀ b ∈ n.name, b.toNat < 128) :
    hostOf names = hostName names := by
  induction names with
  | nil => rfl
  | cons n ns ih =>
    rw [hostOf, hostName]
    split_ifs with hhost
    · obtain ⟨hne, hsmall⟩ := hascii n List.mem_cons_self hhost
      rw [decodeName_ascii hne hsmall]
      congr 1
      apply List.map_congr_left
      intro b hb
      rw [decodeAscii, if_pos (hsmall b hb)]
    · exact ih fun m hm => hascii m (List.mem_cons_of_mem _ hm)

/-- The name that is found first is the one that is found last: there is one list of names. -/
theorem serverName_foldl {info : TlsClientHelloInfo}
    (hdistinct : ((as.map Announcement.extension).map Extension.type).Nodup)
    (hascii : ∀ names, Announcement.serverName names ∈ as →
      ∀ n ∈ names, n.nameType = 0 → n.name ≠ [] ∧ ∀ b ∈ n.name, b.toNat < 128) :
    (as.foldl tell info).serverName =
      (sniOf (as.map Announcement.extension)).or info.serverName := by
  induction as generalizing info with
  | nil => rfl
  | cons a as ih =>
    rw [List.map_cons, List.map_cons, List.nodup_cons] at hdistinct
    have htail := fun info : TlsClientHelloInfo => @ih info hdistinct.2
      fun names hmem => hascii names (List.mem_cons_of_mem _ hmem)
    rw [List.foldl_cons, htail]
    cases a with
    | serverName names =>
      have hnone : sniOf (as.map Announcement.extension) = none := by
        apply sniOf_eq_none
        intro others hmem
        exact hdistinct.1 (List.mem_map.mpr ⟨_, hmem, rfl⟩)
      have hsame := hostOf_eq_hostName (hascii names List.mem_cons_self)
      rw [hnone, Option.none_or, tell, hsame]
      rfl
    | alpn protocols => rfl
    | supportedVersions versions => rfl
    | other type unknown body => rfl

/-- The sniffer, which logs the server name, and the proxy, which routes by it, see the same name in
every well-formed record of ASCII hosts. -/
theorem serverName_eq_proxied (hw : h.WellFormed) (has : Announces h as) (hascii : AsciiHosts h)
    (more stale : List Byte) :
    parseTlsClientHello ⟨h.record ++ more, stale⟩ = .ok (some (as.foldl tell {})) ∧
      parseTlsClientHelloSni h.record = .ok (as.foldl tell {}).serverName := by
  refine ⟨parse_wellFormed hw has more stale, ?_⟩
  have hdistinct := hw.distinct
  rw [has.extensions] at hdistinct
  have hnames : ∀ names, Announcement.serverName names ∈ as →
      ∀ n ∈ names, n.nameType = 0 → n.name ≠ [] ∧ ∀ b ∈ n.name, b.toNat < 128 := by
    intro names hmem
    apply hascii names
    rw [has.extensions]
    exact List.mem_map.mpr ⟨_, hmem, rfl⟩
  rw [ClientHello.parse_record hw, has.extensions, serverName_foldl hdistinct hnames,
    Option.or_none]

/-- A host, two protocols and two versions. -/
def announced : List Announcement :=
  [.serverName [⟨0, [0x61]⟩], .alpn [[0x68, 0x32], [0x68]], .supportedVersions [0x0304, 0x7f1c]]

def announcingHello : ClientHello where
  recordVersion := 0x01
  version := 0x0303
  random := Vector.replicate 32 0
  sessionId := []
  cipherSuites := [0x13, 0x01]
  compressionMethods := [0x00]
  extensions := some (announced.map Announcement.extension)

set_option maxRecDepth 2000 in
theorem serverName_eq_proxied_announced :
    parseTlsClientHello ⟨announcingHello.record ++ [0x14, 0x03], [0xff]⟩ = .ok (some
        { serverName := some ['a']
          alpnProtocols := [['h', '2'], ['h']]
          supportedVersions :=
            [['T', 'L', 'S', 'v', '1', '.', '3'], ['0', 'x', '7', 'f', '1', 'c']] }) ∧
      parseTlsClientHelloSni announcingHello.record = .ok (some ['a']) := by
  have hw : announcingHello.WellFormed := by
    constructor
    · decide
    · decide
    · decide
    · decide
    · decide
  have has : Announces announcingHello announced := by
    refine ⟨rfl, ?_⟩
    intro a ha
    simp only [announced, List.mem_cons, List.not_mem_nil, or_false] at ha
    rcases ha with rfl | rfl | rfl
    · trivial
    · intro p hp
      simp only [List.mem_cons, List.not_mem_nil, or_false] at hp
      rcases hp with rfl | rfl <;> decide
    · change 2 < 128
      decide
  have hascii : AsciiHosts announcingHello := by
    intro names hmem n hn _
    have hnames : names = [⟨0, [0x61]⟩] := by
      simpa [announcingHello, announced, Announcement.extension] using hmem
    subst hnames
    rw [List.mem_singleton.mp hn]
    exact ⟨by simp, by simp⟩
  have htold : announced.foldl tell {} =
      { serverName := some ['a']
        alpnProtocols := [['h', '2'], ['h']]
        supportedVersions :=
          [['T', 'L', 'S', 'v', '1', '.', '3'], ['0', 'x', '7', 'f', '1', 'c']] } := by
    decide
  have hparsed := serverName_eq_proxied hw has hascii [0x14, 0x03] [0xff]
  rw [htold] at hparsed
  exact hparsed

end Agreement

end OpenNXT.Net.TransportSniffer
