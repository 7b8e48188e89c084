import OpenNXT.Buffer.OpcodeStream
import OpenNXT.Resources.ArchiveFiles
import OpenNXT.Resources.ScriptValue

/-! Vars in index 2. A codec has the archives in which its vars may be; one that has none takes
every archive of the table. -/
namespace OpenNXT.Resources
open Buffer Data Ext Filesystem

structure VarDefinition where
  type : ScriptVarType := .int
  lifetime : Word := 0
  forceDefault : Bool := true
  deriving DecidableEq

namespace VarDefinitionFilesystemCodec

def candidateArchives (archiveCandidates : List ℤ) (t : ReferenceTable) : List ℤ :=
  if archiveCandidates.isEmpty then t.archives.keys else archiveCandidates

def decodeStep (opcode : Byte) (d : VarDefinition) : Reader VarDefinition :=
  match opcode.toNat with
  | 1 => do
    let b ← Reader.byte
    let type ← Reader.ofOption (ScriptVarType.getByChar (Char.ofNat b.toNat))
    return { d with type := type }
  | 2 => do let b ← Reader.byte; return { d with lifetime := b.setWidth 32 }
  | 4 => return { d with forceDefault := false }
  | 101 => do
    let id ← getSmallSmartInt
    return { d with type := (ScriptVarType.getById id).getD d.type }
  | _ => Reader.fail

def decode (data : List Byte) : Option VarDefinition := readOpcodes decodeStep data.length {} data

/-- What is put, in order; the id of the type is one byte. -/
def puts (data : VarDefinition) : List (Option (List Byte)) :=
  [some [101], some [data.type.id.setWidth 8]] ++
    (if data.lifetime ≠ 0 then [some [2], some [data.lifetime.setWidth 8]] else []) ++
    (if ¬ data.forceDefault then [some [4]] else []) ++ [some [0]]

section
variable (codecs : Codecs) (read : ℤ → Option (List Byte)) (archiveCandidates : List ℤ)

/-- The first candidate that has the file. -/
def loadFrom (id : ℤ) : List ℤ → ReferenceTable →
    ReferenceTable × Except ResourceError (Option VarDefinition)
  | [], t => (t, .ok none)
  | archive :: archives, t =>
    let data := loadFile codecs read t archive id
    match data.2 with
    | .error e => (data.1, .error e)
    | .ok none => loadFrom id archives data.1
    | .ok (some file) => (data.1, decodeFile decode (some file))

def load (t : ReferenceTable) (id : Word) :
    ReferenceTable × Except ResourceError (Option VarDefinition) :=
  loadFrom codecs read id.toInt (candidateArchives archiveCandidates t) t

/-- Every file of the archives, as the definition of its number. -/
def listFiles (files : SortedMap ℤ ArchiveFile) (result : SortedMap ℤ VarDefinition) :
    Option (SortedMap ℤ VarDefinition) :=
  files.entries.foldlM (fun result e => do
    let definition ← decode e.2.data
    return result.insert e.1 definition) result

def listArchives : List ℤ → ReferenceTable → SortedMap ℤ VarDefinition →
    ReferenceTable × Except ResourceError (SortedMap ℤ VarDefinition)
  | [], t, result => (t, .ok result)
  | archive :: archives, t, result =>
    let loaded := loadFiles codecs read t archive
    match loaded.2 with
    | .error e => (loaded.1, .error e)
    | .ok none => listArchives archives loaded.1 result
    | .ok (some files) =>
      match listFiles files result with
      | none => (loaded.1, .error .definition)
      | some result => listArchives archives loaded.1 result

def list (t : ReferenceTable) :
    ReferenceTable × Except ResourceError (SortedMap ℤ VarDefinition) :=
  listArchives codecs read (candidateArchives archiveCandidates t) t .empty

def store (t : ReferenceTable) (id : Word) (data : VarDefinition) :
    Option (ReferenceTable × Except ResourceError Unit) :=
  storeDefinition codecs read t ((candidateArchives archiveCandidates t).head?.getD 0) id.toInt
    (some (putChunks 16 (puts data) []))

end

/-- The bytes of the file. -/
def encoded (d : VarDefinition) : List Byte :=
  101 :: ([d.type.id.setWidth 8] ++
    ((if d.lifetime ≠ 0 then 2 :: [d.lifetime.setWidth 8] else []) ++
    ((if ¬ d.forceDefault then 4 :: [] else []) ++ [0])))

section Encoded
variable {d : VarDefinition}

theorem putChunks_puts (d : VarDefinition) : putChunks 16 (puts d) [] = .ok (encoded d) := by
  have htype : Written [some [101], some [d.type.id.setWidth 8]] [101, d.type.id.setWidth 8] :=
    ⟨[[101], [d.type.id.setWidth 8]], rfl, rfl⟩
  have hlifetime : Written (if d.lifetime ≠ 0 then [some [2], some [d.lifetime.setWidth 8]] else [])
      (if d.lifetime ≠ 0 then [2, d.lifetime.setWidth 8] else []) :=
    Written.optional ⟨[[2], [d.lifetime.setWidth 8]], rfl, rfl⟩
  have hforce : Written (if ¬ d.forceDefault then [some [4]] else [])
      (if ¬ d.forceDefault then [4] else []) := Written.optional ⟨[[4]], rfl, rfl⟩
  have hstop : Written [some [0]] [0] := ⟨[[0]], rfl, rfl⟩
  have hall := ((htype.append hlifetime).append hforce).append hstop
  have hput := hall.putChunks_eq_ok 16 (by split_ifs <;> simp)
  simpa [puts, encoded] using hput

/-- The id of a type, written as one byte, is read as the same id only below 128. -/
theorem reads_typeId (h : d.type.id.toNat < 128) :
    Reads (decodeStep 101 {}) [d.type.id.setWidth 8] { type := d.type } := by
  have hput : putSmallSmartInt d.type.id = some [d.type.id.setWidth 8] := by
    rw [putSmallSmartInt, BitVec.toInt_eq_toNat_of_lt (by omega), if_pos (by omega)]
  have hread := (reads_smallSmartInt hput).map fun id =>
    ({ type := (ScriptVarType.getById id).getD .int } : VarDefinition)
  rw [ScriptVarType.getById_eq_some.mpr rfl, Option.getD_some] at hread
  exact hread

theorem setWidth_lifetime (h : d.lifetime.toNat ≤ 255) :
    (d.lifetime.setWidth 8).setWidth 32 = d.lifetime := by
  apply BitVec.eq_of_toNat_eq
  rw [BitVec.toNat_setWidth, BitVec.toNat_setWidth]
  omega

theorem decode_encoded (htype : d.type.id.toNat < 128) (hlifetime : d.lifetime.toNat ≤ 255) :
    decode (encoded d) = some d := by
  have hback : (d.lifetime.setWidth 8).setWidth 32 = d.lifetime := setWidth_lifetime hlifetime
  have hforce : Stream decodeStep ((if ¬ d.forceDefault then [4] else []) ++ [0])
      { type := d.type, lifetime := d.lifetime } d :=
    Stream.optional (by decide) (fun hforce => by
      have hfalse : d.forceDefault = false := Bool.eq_false_iff.mpr hforce
      have hd : { type := d.type, lifetime := d.lifetime, forceDefault := false } = d := by
        rw [← hfalse]
      have hread : Reads (decodeStep 4 { type := d.type, lifetime := d.lifetime }) []
          { type := d.type, lifetime := d.lifetime, forceDefault := false } := Reads.pure _
      rwa [hd] at hread) (fun hforce => by rw [← not_not.mp hforce]) (Stream.stop d)
  have hmiddle : Stream decodeStep
      ((if d.lifetime ≠ 0 then [2, d.lifetime.setWidth 8] else []) ++ _) { type := d.type } d :=
    Stream.optional (by decide) (fun _ => by
      have hread := (Reads.byte (d.lifetime.setWidth 8)).map fun b =>
        ({ type := d.type, lifetime := b.setWidth 32 } : VarDefinition)
      rw [hback] at hread
      exact hread) (fun hzero => by rw [not_not.mp hzero]) hforce
  have hread := (Stream.entry (by decide) (reads_typeId htype) hmiddle).read le_rfl []
  rwa [List.append_nil] at hread

/-- A byte from 128 on is the first of two. -/
theorem getSmallSmartInt_wide {b c : Byte} (hb : 128 ≤ b.toNat) (rest : List Byte) :
    ∃ v : Word, getSmallSmartInt (b :: c :: rest) = some (v, rest) ∧
      v.toNat = (b.toNat - 128) * 256 + c.toNat := by
  have hlt := b.isLt
  have hc := c.isLt
  have hword : Reader.short (b :: c :: rest) = some (BitVec.ofNat 16 (ofBytes [b, c]), rest) :=
    Reader.word_eq (by simp)
  have hbytes : ofBytes [b, c] = b.toNat * 256 + c.toNat := by simp [ofBytes]
  refine ⟨(BitVec.ofNat 16 (ofBytes [b, c])).setWidth 32 - 0x8000, ?_, ?_⟩
  · rw [getSmallSmartInt, if_neg (by omega), Reader.bind_apply, hword]
    rfl
  · rw [BitVec.toNat_sub, BitVec.toNat_setWidth, BitVec.toNat_ofNat, hbytes,
      show (0x8000 : Word).toNat = 32768 from rfl]
    omega

/-- The type that takes the place of one from 128 on. -/
theorem decodeStep_wide {t : ScriptVarType} (ht : 128 ≤ t.id.toNat) {c : Byte} (hc : c.toNat < 128)
    (rest : List Byte) :
    ∃ u ≠ t, decodeStep 101 {} (t.id.setWidth 8 :: c :: rest) = some ({ type := u }, rest) := by
  have hlt := t.id_lt
  have hbyte : (t.id.setWidth 8).toNat = t.id.toNat := by
    rw [BitVec.toNat_setWidth]
    omega
  obtain ⟨v, hv, hvalue⟩ := getSmallSmartInt_wide (b := t.id.setWidth 8) (c := c) (by omega) rest
  refine ⟨(ScriptVarType.getById v).getD .int, ?_, ?_⟩
  · cases hget : ScriptVarType.getById v with
    | none =>
      rintro rfl
      exact absurd ht (by decide)
    | some u =>
      rintro rfl
      have hid := ScriptVarType.getById_eq_some.mp hget
      rw [Option.getD_some] at hlt hbyte ht hvalue
      rw [hid] at hbyte ht
      omega
  · change (getSmallSmartInt >>= _) _ = _
    rw [Reader.bind_apply, hv]
    rfl

theorem suffix_getSmallSmartInt {bs rest : List Byte} {v : Word}
    (h : getSmallSmartInt bs = some (v, rest)) : rest <:+ bs := by
  cases bs with
  | nil => cases h
  | cons b bs =>
    rw [getSmallSmartInt] at h
    split_ifs at h
    · rw [Reader.bind_apply] at h
      obtain ⟨⟨w, more⟩, hread, h⟩ := Option.bind_eq_some_iff.mp h
      cases h
      exact ⟨putWord 1 w, (Reader.eq_append_of_word hread).symm⟩
    · rw [Reader.bind_apply] at h
      obtain ⟨⟨w, more⟩, hread, h⟩ := Option.bind_eq_some_iff.mp h
      cases h
      exact ⟨putWord 2 w, (Reader.eq_append_of_word hread).symm⟩

/-- What one opcode does: it reads on, and only the second sets the lifetime. -/
theorem decodeStep_lifetime {opcode : Byte} {bs rest : List Byte} {e : VarDefinition}
    (h : decodeStep opcode d bs = some (e, rest)) :
    rest <:+ bs ∧ (opcode ≠ 2 → e.lifetime = d.lifetime) := by
  have hbyte {b : Byte} {more : List Byte} (hread : Reader.byte bs = some (b, more)) :
      more <:+ bs := ⟨putWord 1 b, (Reader.eq_append_of_word hread).symm⟩
  revert h
  fun_cases decodeStep opcode d with
  | case1 hopcode =>
    intro h
    rw [Reader.bind_apply] at h
    obtain ⟨⟨b, more⟩, hread, h⟩ := Option.bind_eq_some_iff.mp h
    rw [Reader.bind_apply] at h
    cases hget : ScriptVarType.getByChar (Char.ofNat b.toNat) with
    | none =>
      rw [hget] at h
      cases h
    | some t =>
      rw [hget] at h
      cases h
      exact ⟨hbyte hread, fun _ => rfl⟩
  | case2 hopcode =>
    intro h
    rw [Reader.bind_apply] at h
    obtain ⟨⟨b, more⟩, hread, h⟩ := Option.bind_eq_some_iff.mp h
    cases h
    exact ⟨hbyte hread, fun hne => absurd (BitVec.eq_of_toNat_eq hopcode) hne⟩
  | case3 hopcode =>
    intro h
    cases h
    exact ⟨List.suffix_refl _, fun _ => rfl⟩
  | case4 hopcode =>
    intro h
    rw [Reader.bind_apply] at h
    obtain ⟨⟨id, more⟩, hread, h⟩ := Option.bind_eq_some_iff.mp h
    cases h
    exact ⟨suffix_getSmallSmartInt hread, fun _ => rfl⟩
  | case5 =>
    intro h
    cases h

/-- Without a two the lifetime stays. -/
theorem readOpcodes_lifetime {n : ℕ} {bs : List Byte} {e : VarDefinition} (htwo : 2 ∉ bs)
    (h : readOpcodes decodeStep n d bs = some e) : e.lifetime = d.lifetime := by
  induction n generalizing d bs with
  | zero =>
    cases bs with
    | nil =>
      cases h
      rfl
    | cons opcode bs => cases h
  | succ n ih =>
    cases bs with
    | nil =>
      cases h
      rfl
    | cons opcode bs =>
      rw [readOpcodes] at h
      split_ifs at h with hzero
      · cases h
        rfl
      · obtain ⟨⟨d', rest⟩, hstep, hread⟩ := Option.bind_eq_some_iff.mp h
        obtain ⟨hsuffix, hsame⟩ := decodeStep_lifetime hstep
        obtain ⟨hne, hnotMem⟩ := not_or.mp (mt List.mem_cons.mpr htwo)
        rw [ih (fun hmem => hnotMem (hsuffix.subset hmem)) hread, hsame (Ne.symm hne)]

/-- Behind a lifetime the bytes are a four, or not, and a zero: none of them brings it back. -/
theorem lifetime_lost {u : ScriptVarType} {lifetime : Byte} (hne : lifetime ≠ 0) {n : ℕ}
    {tail : List Byte} (htail : tail = [0] ∨ tail = [4, 0])
    (h : readOpcodes decodeStep n { type := u } (lifetime :: tail) = some d) :
    d.lifetime ≠ lifetime.setWidth 32 := by
  have htwo : 2 ∉ tail := by
    rcases htail with rfl | rfl <;> decide
  by_cases hlifetime : lifetime = 2
  · subst hlifetime
    obtain ⟨c, more, hcons, hc⟩ : ∃ c more, tail = c :: more ∧ c.setWidth 32 ≠ (2 : Word) := by
      rcases htail with rfl | rfl
      · exact ⟨0, [], rfl, by decide⟩
      · exact ⟨4, [0], rfl, by decide⟩
    subst hcons
    cases n with
    | zero => cases h
    | succ n =>
      have hstep : decodeStep 2 { type := u } (c :: more) =
          some ({ type := u, lifetime := c.setWidth 32 }, more) :=
        (Reads.byte c).bind_append _ more
      rw [readOpcodes, if_neg (by decide), hstep] at h
      rw [readOpcodes_lifetime (mt (List.mem_cons_of_mem c) htwo) h]
      exact hc
  · have hsame := readOpcodes_lifetime 
      (fun hmem => (List.mem_cons.mp hmem).elim (fun heq => hlifetime heq.symm) htwo) h
    rw [hsame]
    intro hzero
    apply hne
    apply BitVec.eq_of_toNat_eq
    have hnat := congrArg BitVec.toNat hzero
    rw [BitVec.toNat_setWidth] at hnat
    have hlt := lifetime.isLt
    simp at hnat ⊢
    omega

theorem decode_encoded_ne (htype : 128 ≤ d.type.id.toNat) (hlifetime : d.lifetime.toNat ≤ 255) :
    decode (encoded d) ≠ some d := by
  intro hd
  rw [decode, encoded, List.length_cons, readOpcodes, if_neg (by decide)] at hd
  by_cases hzero : d.lifetime = 0
  · rw [if_neg (not_not.mpr hzero), List.nil_append] at hd
    cases hforce : d.forceDefault with
    | false =>
      -- the four is the second byte of the type
      rw [hforce, if_pos (by decide)] at hd
      obtain ⟨u, -, hstep⟩ := decodeStep_wide htype (c := 4) (by decide) [0]
      rw [List.singleton_append, List.singleton_append, hstep] at hd
      have hsame : ({ type := u } : VarDefinition) = d := Option.some.inj hd
      rw [← hsame] at hforce
      cases hforce
    | true =>
      -- and here it is the zero
      rw [hforce, if_neg (by decide), List.nil_append] at hd
      obtain ⟨u, hne, hstep⟩ := decodeStep_wide htype (c := 0) (by decide) []
      rw [List.singleton_append, hstep] at hd
      have hsame : ({ type := u } : VarDefinition) = d := Option.some.inj hd
      exact hne (congrArg VarDefinition.type hsame)
  · rw [if_pos hzero] at hd
    obtain ⟨u, -, hstep⟩ := decodeStep_wide htype (c := 2) (by decide)
      (d.lifetime.setWidth 8 :: ((if ¬ d.forceDefault then [4] else []) ++ [0]))
    rw [List.singleton_append, List.cons_append, List.singleton_append, hstep, Option.bind_some] at hd
    have hback : (d.lifetime.setWidth 8).setWidth 32 = d.lifetime := setWidth_lifetime hlifetime
    refine lifetime_lost ?_ ?_ hd hback.symm
    · intro hbyte
      rw [hbyte] at hback
      exact hzero hback.symm
    · split_ifs
      · exact Or.inl rfl
      · exact Or.inr rfl

theorem decode_encoded_iff (hlifetime : d.lifetime.toNat ≤ 255) :
    decode (encoded d) = some d ↔ d.type.id.toNat < 128 :=
  ⟨fun hd => not_le.mp fun hle => decode_encoded_ne hle hlifetime hd,
    fun htype => decode_encoded htype hlifetime⟩

end Encoded

section RoundTrip
variable {codecs : Codecs} {read : ℤ → Option (List Byte)} {t : ReferenceTable} {id : Word}
  {archive : ℤ}

theorem load_one : (load codecs read [archive] t id).2 =
    (loadDefinition codecs read decode t archive id.toInt).2 := by
  unfold load loadDefinition candidateArchives
  rw [List.isEmpty_cons, if_neg (by decide), loadFrom]
  dsimp only
  cases (loadFile codecs read t archive id.toInt).2 with
  | error e => rfl
  | ok data =>
    cases data with
    | none => rfl
    | some data => rfl

theorem store_one {d : VarDefinition} : store codecs read [archive] t id d =
    storeDefinition codecs read t archive id.toInt (some (.ok (encoded d))) := by
  unfold store candidateArchives
  rw [List.isEmpty_cons, if_neg (by decide), putChunks_puts]
  rfl

/-- A var is stored and loaded again as it was exactly where the id of its type is below 128. -/
theorem restores_iff_typeId {d : VarDefinition} (hin : (t.archives.get? archive).isSome)
    (hlifetime : d.lifetime.toNat ≤ 255) :
    Restores codecs read (fun _ => store codecs read [archive] t id d)
        (fun t' => load codecs read [archive] t' id) t archive id.toInt d ↔
      Available codecs read t archive ∧ d.type.id.toNat < 128 := by
  have hfile := @restores_iff codecs read t _ decode (fun _ => some (.ok (encoded d))) archive id.toInt
    id.toInt d hin
  rw [← decode_encoded_iff hlifetime]
  unfold Restores at hfile ⊢
  simp only [load_one, store_one, if_pos, bind_decodeFile_eq] at hfile ⊢
  refine hfile.trans (and_congr_right fun _ => ?_)
  constructor
  · rintro ⟨-, bytes, hbytes, data, hdata, hdecode⟩
    cases hbytes
    cases hdata
    exact hdecode
  · exact fun hdecode => ⟨0, encoded d, rfl, encoded d, rfl, hdecode⟩

end RoundTrip

end VarDefinitionFilesystemCodec

end OpenNXT.Resources
