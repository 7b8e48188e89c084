import OpenNXT.Buffer.ByteBuf
import OpenNXT.Ext.ByteBuf

/-! The worlds of a list, their hash codes, and how they are written. -/
namespace OpenNXT.Model
open Buffer Ext

/-- `31 * h + x`, over a row of hash codes. -/
def combine (start : Word) (hashes : List Word) : Word :=
  hashes.foldl (fun h x => 31 * h + x) start

/-- The UTF-16 code units of a character. -/
def utf16 (c : Char) : List Word :=
  if c.toNat < 0x10000 then [BitVec.ofNat 32 c.toNat]
  else [BitVec.ofNat 32 (0xD800 + (c.toNat - 0x10000) / 0x400),
    BitVec.ofNat 32 (0xDC00 + (c.toNat - 0x10000) % 0x400)]

def stringHashCode (s : List Char) : Word := combine 0 (s.flatMap utf16)

structure WorldListLocation where
  flag : Word
  name : List Char
  deriving DecidableEq

namespace WorldListLocation

def hashCode (l : WorldListLocation) : Word := combine l.flag [stringHashCode l.name]

/-- A location on the wire. -/
def InRange (l : WorldListLocation) : Prop :=
  (0 ≤ l.flag.toInt ∧ l.flag.toInt ≤ 32767) ∧ Windows1252.Plain l.name

instance (l : WorldListLocation) : Decidable l.InRange := inferInstanceAs (Decidable (_ ∧ _))

end WorldListLocation

structure WorldListEntry where
  id : Word
  location : WorldListLocation
  flag : Word
  locationOverride : Option WorldListLocation := none
  activity : List Char
  host : List Char
  playercount : Word := 0
  deriving DecidableEq

namespace WorldListEntry

/-- The hash code of the location that overrides, or of `null`. -/
def overrideHashCode (e : WorldListEntry) : Word :=
  (e.locationOverride.map WorldListLocation.hashCode).getD 0

def hashCode (e : WorldListEntry) : Word :=
  combine e.id [e.location.hashCode, e.flag, e.overrideHashCode, stringHashCode e.activity,
    stringHashCode e.host, e.playercount]

/-- Only the fields that do not change. -/
def partialHash (e : WorldListEntry) : Word :=
  combine 1 [e.id, e.location.hashCode, e.flag, e.overrideHashCode, stringHashCode e.activity,
    stringHashCode e.host]

/-- The entry without its player count. -/
def fixed (e : WorldListEntry) : WorldListEntry := { e with playercount := 0 }

/-- An entry on the wire. A flag of an overriding location is not zero. -/
structure InRange (e : WorldListEntry) : Prop where
  id : 0 ≤ e.id.toInt ∧ e.id.toInt ≤ 32767
  location : e.location.InRange
  locationOverride : ∀ l ∈ e.locationOverride, l.InRange ∧ l.flag ≠ 0
  activity : Windows1252.Plain e.activity
  host : Windows1252.Plain e.host
  playercount : -1 ≤ e.playercount.toInt ∧ e.playercount.toInt ≤ 65534

end WorldListEntry

def writeLocation (l : WorldListLocation) : Option (List Byte) := do
  let flag ← writeSmartShort l.flag.toInt
  return flag ++ writeNullCircumfixedString l.name

def readLocation : Reader WorldListLocation := do
  let flag ← readSmartShort
  let name ← readNullCircumfixedString
  return ⟨BitVec.ofNat 32 flag, name⟩

def writeOverride : Option WorldListLocation → Option (List Byte)
  | some l => writeLocation l
  | none => writeSmartShort 0

/-- The flag `0` stands for no location. -/
def readOverrideName (flag : ℕ) : Reader (Option WorldListLocation) :=
  if flag ≠ 0 then
    (do let name ← readNullCircumfixedString; return some ⟨BitVec.ofNat 32 flag, name⟩)
  else return none

def readOverride : Reader (Option WorldListLocation) := do
  let flag ← readSmartShort
  readOverrideName flag

/-- An entry, with its location as an index into the locations before it. -/
def writeEntry (locations : List WorldListLocation) (e : WorldListEntry) : Option (List Byte) := do
  let id ← writeSmartShort e.id.toInt
  let override ← writeOverride e.locationOverride
  return id ++ (writeByte (BitVec.ofNat 32 (locations.idxOf e.location)) ++ (writeInt e.flag ++
    (override ++ (writeNullCircumfixedString e.activity ++ writeNullCircumfixedString e.host))))

/-- The place of an entry, and the entry. -/
def readEntry (locations : List WorldListLocation) (lowestEntry : ℕ) :
    Reader (ℕ × WorldListEntry) := do
  let id ← readSmartShort
  let index ← readUnsignedByte
  let location ← Reader.ofOption locations[index.toNat]?
  let flag ← readInt
  let override ← readOverride
  let activity ← readNullCircumfixedString
  let host ← readNullCircumfixedString
  return (id, ⟨BitVec.ofNat 32 (id + lowestEntry), location, flag, override, activity, host, 0⟩)

def writePlayercount (e : WorldListEntry) : Option (List Byte) := do
  let id ← writeSmartShort e.id.toInt
  return id ++ writeShort e.playercount

def readPlayercount : Reader (ℕ × Word) := do
  let id ← readSmartShort
  let playercount ← readUnsignedShort
  return (id, if playercount = 65535 then -1 else playercount)

section RoundTrip

theorem writeSmartShort_some {v : ℤ} (h : 0 ≤ v ∧ v ≤ 32767) :
    ∃ bs, writeSmartShort v = some bs := by
  unfold writeSmartShort
  by_cases hsmall : v ≤ 127
  · rw [if_pos ⟨h.1, hsmall⟩]
    exact ⟨_, rfl⟩
  · rw [if_neg (fun hboth => hsmall hboth.2), if_pos h]
    exact ⟨_, rfl⟩

/-- A small number comes back as it was written. -/
theorem reads_smart {v : Word} (h : 0 ≤ v.toInt ∧ v.toInt ≤ 32767) : ∃ bs,
    writeSmartShort v.toInt = some bs ∧ Reads readSmartShort bs v.toNat ∧
      BitVec.ofNat 32 v.toNat = v := by
  obtain ⟨bs, hbs⟩ := writeSmartShort_some h
  have hread := reads_smartShort hbs
  have hv : v.toInt.toNat = v.toNat := by
    have hcond := BitVec.toInt_eq_toNat_cond v
    split_ifs at hcond <;> omega
  rw [hv] at hread
  refine ⟨bs, hbs, hread, ?_⟩
  rw [BitVec.ofNat_toNat, BitVec.setWidth_eq]

private theorem reads_plain {s : List Char} (h : Windows1252.Plain s) :
    Reads readNullCircumfixedString (writeNullCircumfixedString s) s := by
  have hread := reads_nullCircumfixedString (s := s) fun hzero => (h _ hzero).2 rfl
  rwa [Windows1252.decode_encode_of_encodable fun c hc => (h c hc).1] at hread

theorem reads_location {l : WorldListLocation} (h : l.InRange) : ∃ bs,
    writeLocation l = some bs ∧ Reads readLocation bs l := by
  obtain ⟨flag, hflag, hread, hback⟩ := reads_smart h.1
  refine ⟨flag ++ writeNullCircumfixedString l.name, ?_, ?_⟩
  · unfold writeLocation
    rw [hflag]
    rfl
  · have hname := (reads_plain h.2).map fun name => WorldListLocation.mk (BitVec.ofNat 32 l.flag.toNat) name
    rw [hback] at hname
    apply Reads.bind hread
    rw [hback]
    exact hname

private theorem reads_override {o : Option WorldListLocation}
    (h : ∀ l ∈ o, l.InRange ∧ l.flag ≠ 0) : ∃ bs,
    writeOverride o = some bs ∧ Reads readOverride bs o := by
  cases o with
  | none =>
    obtain ⟨flag, hflag, hread, -⟩ := reads_smart (v := 0) (by decide)
    refine ⟨flag, hflag, ?_⟩
    have hnone : Reads (readOverrideName (0 : Word).toNat) [] none := Reads.pure none
    have hboth := Reads.bind hread hnone
    rwa [List.append_nil] at hboth
  | some l =>
    obtain ⟨hl, hne⟩ := h l rfl
    obtain ⟨flag, hflag, hread, hback⟩ := reads_smart hl.1
    refine ⟨flag ++ writeNullCircumfixedString l.name, ?_, ?_⟩
    · unfold writeOverride writeLocation
      simp only [hflag]
      rfl
    · apply Reads.bind hread
      have hnonzero : l.flag.toNat ≠ 0 := by
        intro hzero
        apply hne
        rw [← hback, hzero]
        rfl
      unfold readOverrideName
      rw [if_pos hnonzero, hback]
      exact (reads_plain hl.2).map fun name => some (WorldListLocation.mk l.flag name)

/-- An entry comes back without its player count, if a byte can hold its location's index. -/
theorem reads_entry {locations : List WorldListLocation} {e : WorldListEntry} (h : e.InRange)
    (hmem : e.location ∈ locations) (hbyte : locations.length ≤ 256) : ∃ bs,
    writeEntry locations e = some bs ∧
      Reads (readEntry locations 0) bs (e.id.toNat, e.fixed) := by
  obtain ⟨id, hid, hreadId, hback⟩ := reads_smart h.id
  obtain ⟨override, hoverride, hreadOverride⟩ := reads_override h.locationOverride
  have hindex := List.idxOf_lt_length_of_mem hmem
  have hsmall : (BitVec.ofNat 32 (locations.idxOf e.location)).toNat =
      locations.idxOf e.location := by
    rw [BitVec.toNat_ofNat]
    omega
  have hlocation : locations[(BitVec.ofNat 32 (locations.idxOf e.location)).toNat]? =
      some e.location := by
    rw [hsmall, List.getElem?_eq_getElem hindex]
    exact congrArg some (List.getElem_idxOf hindex)
  refine ⟨id ++ (writeByte (BitVec.ofNat 32 (locations.idxOf e.location)) ++ (writeInt e.flag ++
    (override ++ (writeNullCircumfixedString e.activity ++
      writeNullCircumfixedString e.host)))), ?_, ?_⟩
  · unfold writeEntry
    rw [hid, hoverride]
    rfl
  · apply Reads.bind hreadId
    apply Reads.bind (reads_unsignedByte (by omega))
    rw [← List.nil_append (writeInt e.flag ++ _)]
    apply Reads.bind (Reads.ofOption hlocation)
    apply Reads.bind (reads_int e.flag)
    apply Reads.bind hreadOverride
    apply Reads.bind (reads_plain h.activity)
    have hhost := (reads_plain h.host).map fun host =>
      (e.id.toNat, (⟨BitVec.ofNat 32 (e.id.toNat + 0), e.location, e.flag, e.locationOverride,
        e.activity, host, 0⟩ : WorldListEntry))
    rw [Nat.add_zero, hback] at hhost
    rw [Nat.add_zero, hback]
    exact hhost

/-- The largest short stands for `-1`. -/
private theorem playercount_back {v : Word} (h : -1 ≤ v.toInt ∧ v.toInt ≤ 65534) :
    (if (v.setWidth (8 * 2)).setWidth 32 = (65535 : Word) then -1
      else (v.setWidth (8 * 2)).setWidth 32) = v := by
  have hcond := BitVec.toInt_eq_toNat_cond v
  by_cases hneg : v.toInt < 0
  · have hv : v = -1 := by
      apply BitVec.eq_of_toInt_eq
      change v.toInt = -1
      omega
    subst hv
    decide
  · have hlt : v.toNat ≤ 65534 := by
      split_ifs at hcond <;> omega
    have hsame : (v.setWidth (8 * 2)).setWidth 32 = v := by
      apply BitVec.eq_of_toNat_eq
      rw [BitVec.toNat_setWidth, BitVec.toNat_setWidth]
      omega
    have hne : v ≠ 65535 := by
      rintro rfl
      exact absurd hlt (by decide)
    rw [hsame, if_neg hne]

/-- And a player count with it. -/
theorem reads_playercount {e : WorldListEntry} (h : e.InRange) : ∃ bs,
    writePlayercount e = some bs ∧ Reads readPlayercount bs (e.id.toNat, e.playercount) := by
  obtain ⟨id, hid, hreadId, -⟩ := reads_smart h.id
  refine ⟨id ++ writeShort e.playercount, ?_, ?_⟩
  · unfold writePlayercount
    rw [hid]
    rfl
  · apply Reads.bind hreadId
    have hread := (reads_unsigned_low 2 e.playercount).map fun v : Word =>
      (e.id.toNat, if v = 65535 then -1 else v)
    simp only [playercount_back h.playercount] at hread
    exact hread

end RoundTrip

end OpenNXT.Model
