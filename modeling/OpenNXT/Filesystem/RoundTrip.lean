import OpenNXT.Filesystem.ReferenceTable
import Mathlib.Algebra.Order.BigOperators.Group.List

/-! Decoding an encoded reference table. -/
namespace OpenNXT.Filesystem
open Buffer Data

theorem toNat_lt_of_nonneg {v : Word} (hv : 0 ≤ v.toInt) : v.toNat < 2 ^ 31 := by
  rw [BitVec.toInt_eq_toNat_cond] at hv
  split at hv <;> omega

theorem toInt_eq_of_lt {v : Word} (hv : v.toNat < 2 ^ 31) : v.toInt = v.toNat := by
  rw [BitVec.toInt_eq_toNat_cond]
  split <;> omega

theorem toInt_ofInt_of_range {x : ℤ} (h0 : 0 ≤ x) (h1 : x < 2 ^ 31) :
    (BitVec.ofInt 32 x).toInt = x := by
  rw [BitVec.toInt_ofInt]
  exact Int.bmod_eq_of_le_mul_two (by norm_num; omega) (by norm_num; omega)

theorem wrapInt_add_sub {id previous : ℤ} (h0 : 0 ≤ id) (h1 : id < 2 ^ 31) :
    wrapInt ((BitVec.ofInt 32 (id - previous)).toInt + previous) = id := by
  rw [wrapInt, BitVec.ofInt_add, BitVec.ofInt_toInt, ← BitVec.ofInt_add, sub_add_cancel]
  exact toInt_ofInt_of_range h0 h1

theorem and_mask31 (v : Word) : (v &&& 0x7fffffff).toNat = v.toNat % 2 ^ 31 := by
  rw [BitVec.toNat_and]
  exact Nat.and_two_pow_sub_one_eq_mod v.toNat 31

namespace ReferenceTable

/-- Non-negative Kotlin `Int`s. -/
def IsId (id : ℤ) : Prop := 0 ≤ id ∧ id < 2 ^ 31

/-- Sixteen bits for formats 5 and 6, a non-negative `Int` for format 7. -/
def FitsFormat (format value : Word) : Prop :=
  if 7 ≤ format.toInt then 0 ≤ value.toInt else value.toNat < 2 ^ 16

/-- The first byte has the top bit. -/
theorem exists_putWord (n : ℕ) (w : BitVec (8 * (n + 1))) :
    ∃ b bs, putWord (n + 1) w = b :: bs ∧ b.msb = w.msb := by
  refine ⟨BitVec.ofNat 8 (w.toNat / 256 ^ n), toBytes n w.toNat, rfl, ?_⟩
  have hpow : 2 ^ (8 * (n + 1)) = 256 * 256 ^ n := by
    rw [Nat.mul_add, Nat.mul_one, pow_add, pow_mul, Nat.mul_comm]
    norm_num
  have hhalf : 2 ^ (8 * (n + 1) - 1) = 128 * 256 ^ n := by
    rw [show 8 * (n + 1) - 1 = 7 + 8 * n by omega, pow_add, pow_mul]
    norm_num
  have hlt : w.toNat / 256 ^ n < 256 := by
    apply Nat.div_lt_of_lt_mul
    have hw := w.isLt
    rw [hpow] at hw
    linarith
  have hpos : 0 < 256 ^ n := Nat.pow_pos (by omega)
  rw [BitVec.msb_eq_decide, BitVec.msb_eq_decide, BitVec.toNat_ofNat, hhalf, decide_eq_decide,
    Nat.mod_eq_of_lt hlt]
  exact Nat.le_div_iff_mul_le hpos

theorem getSmartInt_cons (b : Byte) (bs : List Byte) : getSmartInt (b :: bs) =
    if b.msb then (do let value ← Reader.int; return value &&& 0x7fffffff : Reader Word) (b :: bs)
    else (do let value ← Reader.short; return value.setWidth 32 : Reader Word) (b :: bs) := rfl

theorem msb_wide {v : Word} (hv : 0 ≤ v.toInt) : (v - 0x7fffffff - 1).msb = true := by
  have hn := toNat_lt_of_nonneg hv
  rw [BitVec.msb_eq_decide, decide_eq_true_eq]
  bv_omega

theorem msb_narrow {v : Word} (hv : v.toNat < 2 ^ 15) : (v.setWidth 16).msb = false := by
  rw [BitVec.msb_eq_decide, BitVec.toNat_setWidth, decide_eq_false_iff_not]
  omega

theorem reads_masked {v : Word} (hv : 0 ≤ v.toInt) :
    Reads (do let value ← Reader.int; return value &&& 0x7fffffff : Reader Word)
      (putInt (v - 0x7fffffff - 1)) v := by
  have hn := toNat_lt_of_nonneg hv
  have hm : (v - 0x7fffffff - 1) &&& 0x7fffffff = v := by
    apply BitVec.eq_of_toNat_eq
    rw [and_mask31]
    bv_omega
  have hr := Reads.map (fun x => x &&& 0x7fffffff) (Reads.word 4 (v - 0x7fffffff - 1 : Word))
  rwa [hm] at hr

private theorem reads_wideInt (v : Word) (hv : 0 ≤ v.toInt) :
    Reads getSmartInt (putInt (v - 0x7fffffff - 1)) v := by
  intro rest
  obtain ⟨b, bs, (hput : putInt _ = b :: bs), hmsb⟩ := exists_putWord 3 (v - 0x7fffffff - 1)
  have hread := reads_masked hv rest
  rw [hput, List.cons_append] at hread ⊢
  rw [getSmartInt_cons, hmsb, if_pos (msb_wide hv)]
  exact hread

/-- Fifteen bits, of which -1 takes the last code. -/
theorem reads_narrow {v : Word} (hv : v.toNat < 2 ^ 15) :
    Reads getSmartInt (putShort (v.setWidth 16)) v := by
  have hback : (v.setWidth 16).setWidth 32 = v := by
    apply BitVec.eq_of_toNat_eq
    rw [BitVec.toNat_setWidth, BitVec.toNat_setWidth]
    omega
  intro rest
  obtain ⟨b, bs, (hput : putWord 2 _ = b :: bs), hmsb⟩ := exists_putWord 1 (v.setWidth 16)
  have hread := Reads.map (fun x => BitVec.setWidth 32 x) (Reads.word 2 (v.setWidth 16)) rest
  rw [hback] at hread
  change getSmartInt (putWord 2 (v.setWidth 16) ++ rest) = _
  rw [hput, List.cons_append] at hread ⊢
  rw [getSmartInt_cons, hmsb, msb_narrow hv, if_neg Bool.false_ne_true]
  exact hread

theorem reads_smartInt (v : Word) (hv : 0 ≤ v.toInt) : Reads getSmartInt (putSmartInt v) v := by
  unfold putSmartInt
  split_ifs with h
  · exact reads_wideInt v hv
  · have hn := toInt_eq_of_lt (toNat_lt_of_nonneg hv)
    exact reads_narrow (by omega)

theorem reads_formatInt (format v : Word) (hv : FitsFormat format v) :
    Reads (readFormatInt format) (writeFormatInt format v) v := by
  unfold readFormatInt writeFormatInt
  unfold FitsFormat at hv
  split_ifs at hv ⊢ with h
  · exact reads_smartInt v hv
  · have hr := Reads.map (fun x => BitVec.setWidth 32 x) (Reads.word 2 (v.setWidth 16))
    have hm : (v.setWidth 16).setWidth 32 = v := by
      apply BitVec.eq_of_toNat_eq
      simp only [BitVec.toNat_setWidth]
      omega
    rwa [hm] at hr

/-- Every difference between consecutive ids is below a bound. -/
def GapsBelow (bound : ℤ) : ℤ → List ℤ → Prop
  | _, [] => True
  | previous, id :: ids => id - previous < bound ∧ GapsBelow bound id ids

/-- What the format can say about a list of ids: non-negative `Int`s, and for the
sixteen-bit formats a count and differences of sixteen bits. -/
structure IdsFit (format : Word) (ids : List ℤ) : Prop where
  isId : ∀ id ∈ ids, IsId id
  narrow : format.toInt < 7 → ids.length < 2 ^ 16 ∧ GapsBelow (2 ^ 16) 0 ids

private theorem fitsFormat_gap {format : Word} {gap : ℤ} (h0 : 0 ≤ gap) (h1 : gap < 2 ^ 31)
    (hn : format.toInt < 7 → gap < 2 ^ 16) : FitsFormat format (BitVec.ofInt 32 gap) := by
  have hi := toInt_ofInt_of_range h0 h1
  unfold FitsFormat
  split_ifs with h
  · rwa [hi]
  · have hlt := toNat_lt_of_nonneg (hi.symm ▸ h0)
    have hg := hn (not_le.mp h)
    rw [toInt_eq_of_lt hlt] at hi
    omega

theorem reads_ids (format : Word) (previous : ℤ) (ids : List ℤ) (h0 : 0 ≤ previous)
    (hp : ∀ id ∈ ids, previous ≤ id) (hs : ids.Pairwise (· < ·)) (hi : ∀ id ∈ ids, IsId id)
    (hg : format.toInt < 7 → GapsBelow (2 ^ 16) previous ids) :
    Reads (readIds format ids.length previous) (writeIds format previous ids) ids := by
  induction ids generalizing previous with
  | nil => exact Reads.pure _
  | cons id ids ih =>
    obtain ⟨hlt, hs⟩ := List.pairwise_cons.mp hs
    have hid := hi id List.mem_cons_self
    have hle := hp id List.mem_cons_self
    have hfit : FitsFormat format (BitVec.ofInt 32 (id - previous)) :=
      fitsFormat_gap (by omega) (by have := hid.2; omega) fun h => (hg h).1
    have hrest := ih id hid.1 (fun j hj => (hlt j hj).le) hs
      (fun j hj => hi j (List.mem_cons_of_mem _ hj)) fun h => (hg h).2
    rw [List.length_cons, readIds, writeIds]
    refine Reads.bind (reads_formatInt format _ hfit) ?_
    rw [wrapInt_add_sub hid.1 hid.2]
    exact Reads.map (fun ids => id :: ids) hrest

section Columns

theorem reads_setField (archives : SortedMap ℤ Archive) (id : ℤ) (f : Archive → Archive)
    (h : id ∈ archives.keys) : Reads (setField archives id f) [] (archives.modify id f) := by
  obtain ⟨a, ha⟩ := SortedMap.mem_keys.mp h
  intro rest
  rw [setField, ha]
  rfl

private theorem keys_foldl_modify {β : Type} (id : β → ℤ) (f : β → Archive → Archive)
    (es : List β) (m : SortedMap ℤ Archive) :
    (es.foldl (fun n e => n.modify (id e) (f e)) m).keys = m.keys := by
  induction es generalizing m with
  | nil => rfl
  | cons e es ih => rw [List.foldl_cons, ih, SortedMap.keys_modify]

/-- A column is read into the table it was written from: `g` shows the fields restored so far,
`g'` those restored with this column. -/
theorem reads_column {α : Type} {t : SortedMap ℤ Archive} {present : Bool} {r : Reader α}
    {set : Archive → α → Archive} {g : Archive → Archive} {enc : Archive → List Byte}
    (val : Archive → α) (g' : Archive → Archive)
    (h : present → ∀ a ∈ t.values, Reads r (enc a) (val a))
    (hg : ∀ a ∈ t.values, g' a = if present then set (g a) (val a) else g a) :
    Reads (readColumn present r set t.keys (t.map fun _ a => g a))
      (if present then t.values.flatMap enc else []) (t.map fun _ a => g' a) := by
  rw [SortedMap.map_congr fun _ a ha => hg a ha]
  cases hp : present with
  | false => exact Reads.pure _
  | true =>
    have hm : t.values.flatMap enc = t.entries.flatMap (fun e => enc e.2) := by
      rw [SortedMap.values, List.flatMap_map]
    have hf := SortedMap.foldl_modify_entries (fun _ a b => set b (val a)) (fun _ a => g a) t
    simp only [readColumn, if_true, hm, SortedMap.keys, List.foldlM_map]
    rw [← hf]
    refine Reads.foldlM t.entries _ ?_
    intro pre e post hl
    have he : e ∈ t.entries := by rw [hl]; simp
    have hr := h hp e.2 (List.mem_map_of_mem he)
    rw [← List.append_nil (enc e.2)]
    refine Reads.bind hr (reads_setField _ _ _ ?_)
    rw [keys_foldl_modify, SortedMap.keys_map]
    exact List.mem_map_of_mem he

theorem reads_counts (format : Word) (counts : List ℕ)
    (h : ∀ n ∈ counts, FitsFormat format (BitVec.ofNat 32 n)) :
    Reads (readCounts format counts.length)
      (counts.flatMap fun n => writeFormatInt format (BitVec.ofNat 32 n))
      (counts.map (BitVec.ofNat 32)) := by
  induction counts with
  | nil => exact Reads.pure _
  | cons n ns ih =>
    rw [List.length_cons, readCounts, List.flatMap_cons, List.map_cons]
    refine Reads.bind (reads_formatInt format _ (h n List.mem_cons_self)) ?_
    exact Reads.map (fun counts => BitVec.ofNat 32 n :: counts)
      (ih fun k hk => h k (List.mem_cons_of_mem _ hk))

/-- The files of each archive are listed under their keys, without data or names. -/
def listFiles (ids : List ℤ) (a : Archive) : Archive :=
  { a with files := ids.foldl (fun m f => m.insert f {}) a.files }

theorem reads_files (format : Word) (es : List (ℤ × Archive)) (m : SortedMap ℤ Archive)
    (hm : ∀ e ∈ es, e.1 ∈ m.keys) (hf : ∀ e ∈ es, IdsFit format e.2.files.keys)
    (hc : ∀ e ∈ es, e.2.files.size < 2 ^ 31) :
    Reads (readFiles format (es.map Prod.fst) (es.map fun e => BitVec.ofNat 32 e.2.files.size) m)
      (es.flatMap fun e => writeIds format 0 e.2.files.keys)
      (es.foldl (fun n e => n.modify e.1 (listFiles e.2.files.keys)) m,
        es.map fun e => (e.1, e.2.files.keys)) := by
  induction es generalizing m with
  | nil => exact Reads.pure _
  | cons e es ih =>
    have hfit := hf e List.mem_cons_self
    have hn : (BitVec.ofNat 32 e.2.files.size).toNat = e.2.files.keys.length := by
      have := hc e List.mem_cons_self
      rw [BitVec.toNat_ofNat, SortedMap.length_keys]
      omega
    have hids := reads_ids format 0 e.2.files.keys le_rfl (fun f hf => (hfit.isId f hf).1)
      e.2.files.sorted_keys hfit.isId fun h => (hfit.narrow h).2
    rw [← hn] at hids
    have hrest := ih (m.modify e.1 (listFiles e.2.files.keys))
      (fun d hd => by
        rw [SortedMap.keys_modify]
        exact hm d (List.mem_cons_of_mem _ hd))
      (fun d hd => hf d (List.mem_cons_of_mem _ hd)) fun d hd => hc d (List.mem_cons_of_mem _ hd)
    rw [List.map_cons, List.map_cons, List.flatMap_cons, readFiles]
    refine Reads.bind hids ?_
    rw [← List.nil_append (es.flatMap _)]
    refine Reads.bind (reads_setField _ _ _ (hm e List.mem_cons_self)) ?_
    exact Reads.map (fun p => (p.1, (e.1, e.2.files.keys) :: p.2)) hrest

private theorem foldl_modify_key {β : Type} (f : Archive → β → Archive) (id : ℤ) (es : List β)
    (m : SortedMap ℤ Archive) :
    es.foldl (fun n e => n.modify id (fun a => f a e)) m =
      m.modify id (fun a => es.foldl f a) := by
  induction es generalizing m with
  | nil => exact (SortedMap.modify_id m id).symm
  | cons e es ih => rw [List.foldl_cons, ih, SortedMap.modify_modify]; rfl

def setName (b x : ArchiveFile) : ArchiveFile := { x with name := b.name }

def nameFile (e : ℤ × ArchiveFile) (a : Archive) : Archive :=
  { a with files := a.files.modify e.1 (setName e.2) }

/-- The names of the files of `b`, put on the files of `a`. -/
def nameFiles (b a : Archive) : Archive := b.files.entries.foldl (fun a e => nameFile e a) a

theorem reads_fileNames (id : ℤ) (b : Archive) (m : SortedMap ℤ Archive) (h : id ∈ m.keys) :
    Reads (readFileNames id b.files.keys m) (b.files.values.flatMap fun f => putInt f.name)
      (m.modify id (nameFiles b)) := by
  have hv : b.files.values.flatMap (fun f => putInt f.name) =
      b.files.entries.flatMap (fun e => putInt e.2.name) := by
    rw [SortedMap.values, List.flatMap_map]
  have hn : b.files.entries.foldl (fun n e => n.modify id (nameFile e)) m =
      m.modify id (nameFiles b) := foldl_modify_key (fun a e => nameFile e a) id _ m
  rw [readFileNames, hv, SortedMap.keys, List.foldlM_map, ← hn]
  refine Reads.foldlM b.files.entries m ?_
  intro pre e post hl
  rw [← List.append_nil (putInt e.2.name)]
  refine Reads.bind (Reads.word 4 e.2.name) (reads_setField _ _ _ ?_)
  rw [keys_foldl_modify (fun _ => id)]
  exact h

/-- All file names of the table, archive after archive. -/
theorem reads_allFileNames (t : SortedMap ℤ Archive) (present : Bool) (g : Archive → Archive) :
    Reads (readAllFileNames present (t.entries.map fun e => (e.1, e.2.files.keys))
        (t.map fun _ a => g a))
      (if present then t.values.flatMap fun a => a.files.values.flatMap fun f => putInt f.name
        else [])
      (t.map fun _ a => if present then nameFiles a (g a) else g a) := by
  cases present with
  | false => exact Reads.pure _
  | true =>
  have hf := SortedMap.foldl_modify_entries (fun _ a b => nameFiles a b) (fun _ a => g a) t
  have hv : (t.values.flatMap fun a => a.files.values.flatMap fun f => putInt f.name) =
      t.entries.flatMap (fun e => e.2.files.values.flatMap fun f => putInt f.name) := by
    rw [SortedMap.values, List.flatMap_map]
  simp only [readAllFileNames, if_true, hv, List.foldlM_map]
  rw [← hf]
  refine Reads.foldlM t.entries _ ?_
  intro pre e post hl
  refine reads_fileNames e.1 e.2 _ ?_
  have he : e ∈ t.entries := by rw [hl]; simp
  rw [keys_foldl_modify Prod.fst, SortedMap.keys_map]
  exact List.mem_map_of_mem he

end Columns

/-- The tables a format can carry: the mask is a byte, ids fit the format, and
whirlpools have their 64 bytes where the mask asks for them. -/
structure WellFormed (t : ReferenceTable) : Prop where
  format : t.format = 5 ∨ t.format = 6 ∨ t.format = 7
  mask : (t.mask.setWidth 8).signExtend 32 = t.mask
  archiveIds : IdsFit t.format t.archives.keys
  fileIds : ∀ a ∈ t.archives.values, IdsFit t.format a.files.keys
  whirlpools : hasWhirlpools t.mask → ∀ a ∈ t.archives.values, ∀ w ∈ a.whirlpool, w.length = 64

/-- What the encoded form of an archive says about it under a mask. -/
def carriedArchive (mask : Word) (a : Archive) : Archive where
  name := if hasNames mask then a.name else 0
  crc := a.crc
  version := a.version
  whirlpool := if hasWhirlpools mask then a.whirlpool else none
  uncompressedSize := if hasSizes mask then a.uncompressedSize else 0
  compressedSize := if hasSizes mask then a.compressedSize else 0
  hash := if hasHashes mask then a.hash else 0
  files := a.files.map fun _ f => { name := if hasNames mask then f.name else 0 }

/-- What the encoded form of a table says about it. -/
def carried (t : ReferenceTable) : ReferenceTable where
  version := if 6 ≤ t.format.toInt then t.version else 0
  format := t.format
  mask := t.mask
  archives := t.archives.map fun _ a => carriedArchive t.mask a

section Encoded

theorem encode_eq_some {t : ReferenceTable} {bytes : List Byte} (h : t.encode = some bytes) :
    bytes = t.layout ∧ t.layout.length ≤ bufferSize ∧
      (hasWhirlpools t.mask → ∀ a ∈ t.archives.values, ∃ w, a.whirlpool = some w) := by
  unfold encode at h
  split_ifs at h with h1 h2
  refine ⟨(Option.some.inj h).symm, not_lt.mp h2, fun hw a ha => ?_⟩
  by_contra hn
  refine h1 ⟨hw, List.any_eq_true.mpr ⟨a, ha, ?_⟩⟩
  rw [Option.isNone_iff_eq_none, Option.eq_none_iff_forall_ne_some]
  exact fun w hw => hn ⟨w, hw⟩

private theorem length_le_column (t : ReferenceTable) (f : Archive → List Byte) (a : Archive)
    (ha : a ∈ t.archives.values) : (f a).length ≤ (t.column f).length := by
  rw [column, List.length_flatMap]
  exact List.single_le_sum (fun _ _ => Nat.zero_le _) _ (List.mem_map_of_mem ha)

private theorem length_writeFormatInt (format value : Word) :
    2 ≤ (writeFormatInt format value).length := by
  unfold writeFormatInt putSmartInt
  split_ifs <;> simp

private theorem length_writeIds (format : Word) (previous : ℤ) (ids : List ℤ) :
    2 * ids.length ≤ (writeIds format previous ids).length := by
  induction ids generalizing previous with
  | nil => simp
  | cons id ids ih =>
    have := length_writeFormatInt format (BitVec.ofInt 32 (id - previous))
    have := ih id
    rw [writeIds, List.length_append, List.length_cons]
    omega

/-- An encoding that fits the buffer bounds the number of archives and of their files. -/
theorem sizes_le (t : ReferenceTable) (h : t.layout.length ≤ bufferSize) :
    t.archives.size < 2 ^ 31 ∧ ∀ a ∈ t.archives.values, a.files.size < 2 ^ 31 := by
  have hids := length_writeIds t.format 0 t.archives.keys
  rw [SortedMap.length_keys] at hids
  simp only [layout, List.flatten_cons, List.length_append, bufferSize] at h
  refine ⟨by omega, fun a ha => ?_⟩
  have hfile := length_writeIds t.format 0 a.files.keys
  have hcol := length_le_column t (fun a => writeIds t.format 0 a.files.keys) a ha
  rw [SortedMap.length_keys] at hfile
  omega

end Encoded

section Decode

private theorem toInt_signExtend_format {format : Word} (h : format = 5 ∨ format = 6 ∨ format = 7) :
    (format.setWidth 8).signExtend 32 = format ∧ 5 ≤ format.toInt ∧ format.toInt ≤ 7 := by
  rcases h with rfl | rfl | rfl <;> decide

private theorem fitsFormat_count {format : Word} {n : ℕ} (h : n < 2 ^ 31)
    (hn : format.toInt < 7 → n < 2 ^ 16) : FitsFormat format (BitVec.ofNat 32 n) := by
  have hf : FitsFormat format (BitVec.ofInt 32 n) :=
    fitsFormat_gap (Int.natCast_nonneg n) (by exact_mod_cast h) (fun hf => by exact_mod_cast hn hf)
  rwa [BitVec.ofInt_natCast] at hf

theorem reads_signedByte (b : Byte) : Reads readSignedByte [b] (b.signExtend 32) :=
  Reads.map (fun value => BitVec.signExtend 32 value) (Reads.byte b)

theorem reads_sizes (compressedSize uncompressedSize : Word) :
    Reads readSizes (putInt compressedSize ++ putInt uncompressedSize)
      (compressedSize, uncompressedSize) :=
  Reads.bind (Reads.word 4 compressedSize)
    (Reads.map (fun u => (compressedSize, u)) (Reads.word 4 uncompressedSize))

private theorem nameFiles_eq (b a : Archive) :
    nameFiles b a =
      { a with files := b.files.entries.foldl (fun m e => m.modify e.1 (setName e.2)) a.files } := by
  unfold nameFiles
  generalize b.files.entries = es
  induction es generalizing a with
  | nil => rfl
  | cons e es ih => rw [List.foldl_cons, ih]; rfl

/-- Listing the files of a decoded archive and naming them restores the carried files. -/
private theorem restoreFiles (mask : Word) (a g : Archive) (hg : g.files = .empty) :
    (if hasNames mask then nameFiles a (listFiles a.files.keys g)
      else listFiles a.files.keys g) =
    { g with files := a.files.map fun _ f => { name := if hasNames mask then f.name else 0 } } := by
  have hl : listFiles a.files.keys g = { g with files := a.files.map fun _ _ => {} } := by
    rw [listFiles, hg, SortedMap.foldl_insert_keys]
  have hn := SortedMap.foldl_modify_entries (fun _ => setName) (fun _ _ => {}) a.files
  split_ifs with h
  · rw [hl, nameFiles_eq, hn]
    rfl
  · exact hl

private theorem reads_counts_table (t : ReferenceTable)
    (hf : ∀ a ∈ t.archives.values, IdsFit t.format a.files.keys)
    (hc : ∀ a ∈ t.archives.values, a.files.size < 2 ^ 31) :
    Reads (readCounts t.format t.archives.size)
      (t.column fun a => writeFormatInt t.format (BitVec.ofNat 32 a.files.size))
      (t.archives.entries.map fun e => BitVec.ofNat 32 e.2.files.size) := by
  have hcounts := reads_counts t.format (t.archives.values.map fun a => a.files.size) fun n hn => by
    obtain ⟨a, ha, rfl⟩ := List.mem_map.mp hn
    have hnarrow := (hf a ha).narrow
    rw [SortedMap.length_keys] at hnarrow
    exact fitsFormat_count (hc a ha) fun h => (hnarrow h).1
  simpa [SortedMap.values, SortedMap.size, column, List.flatMap_map, Function.comp_def]
    using hcounts

private theorem reads_files_table (t : ReferenceTable)
    (hf : ∀ a ∈ t.archives.values, IdsFit t.format a.files.keys)
    (hc : ∀ a ∈ t.archives.values, a.files.size < 2 ^ 31) (g : Archive → Archive) :
    Reads (readFiles t.format t.archives.keys
        (t.archives.entries.map fun e => BitVec.ofNat 32 e.2.files.size)
        (t.archives.map fun _ a => g a))
      (t.column fun a => writeIds t.format 0 a.files.keys)
      (t.archives.map fun _ a => listFiles a.files.keys (g a),
        t.archives.entries.map fun e => (e.1, e.2.files.keys)) := by
  have hvalues : ∀ e ∈ t.archives.entries, e.2 ∈ t.archives.values := fun e he =>
    List.mem_map_of_mem he
  have hr := reads_files t.format t.archives.entries (t.archives.map fun _ a => g a)
    (fun e he => by
      rw [SortedMap.keys_map]
      exact List.mem_map_of_mem he)
    (fun e he => hf e.2 (hvalues e he)) fun e he => hc e.2 (hvalues e he)
  have hfold := SortedMap.foldl_modify_entries (fun _ a => listFiles a.files.keys)
    (fun _ a => g a) t.archives
  rw [hfold] at hr
  rw [column, SortedMap.values, List.flatMap_map]
  exact hr

/-- The sections after the columns: the files of each archive and their names. -/
private theorem reads_fileSections (t : ReferenceTable) (h : t.WellFormed)
    (version : Word) (hc : ∀ a ∈ t.archives.values, a.files.size < 2 ^ 31) (g : Archive → Archive)
    (hg : ∀ a, (g a).files = .empty)
    (hcarried : ∀ a ∈ t.archives.values, { g a with files := (carriedArchive t.mask a).files } =
      carriedArchive t.mask a) :
    Reads (do
        let archives := t.archives.map fun _ a => g a
        let counts ← readCounts t.format archives.size
        let (archives, fileIds) ← readFiles t.format t.archives.keys counts archives
        let archives ← readAllFileNames (hasNames t.mask) fileIds archives
        return ({ version := version, format := t.format, mask := t.mask,
                  archives := archives } : ReferenceTable))
      ((t.column fun a => writeFormatInt t.format (BitVec.ofNat 32 a.files.size)) ++
        ((t.column fun a => writeIds t.format 0 a.files.keys) ++
          (if hasNames t.mask then
            t.column (fun a => a.files.values.flatMap (fun f => putInt f.name))
          else [])))
      ({ version := version, format := t.format, mask := t.mask,
         archives := t.archives.map fun _ a => carriedArchive t.mask a } : ReferenceTable) := by
  have hrestore : (t.archives.map fun _ a =>
      if hasNames t.mask then nameFiles a (listFiles a.files.keys (g a))
      else listFiles a.files.keys (g a)) = t.archives.map fun _ a => carriedArchive t.mask a := by
    refine SortedMap.map_congr fun k a ha => ?_
    rw [restoreFiles t.mask a (g a) (hg a), ← hcarried a ha]
    rfl
  dsimp only
  rw [SortedMap.size_map, ← hrestore]
  refine Reads.bind (reads_counts_table t h.fileIds hc) ?_
  refine Reads.bind (reads_files_table t h.fileIds hc g) ?_
  rw [← List.append_nil (if hasNames t.mask then _ else _)]
  have hnames := reads_allFileNames t.archives (hasNames t.mask) fun a =>
    listFiles a.files.keys (g a)
  exact Reads.bind hnames (Reads.pure _)

/-! The fields of an archive after each column. -/

private def withName (mask : Word) (a : Archive) : Archive :=
  { name := if hasNames mask then a.name else 0 }

private def withCrc (mask : Word) (a : Archive) : Archive :=
  { withName mask a with crc := a.crc }

private def withHash (mask : Word) (a : Archive) : Archive :=
  { withCrc mask a with hash := if hasHashes mask then a.hash else 0 }

private def withWhirlpool (mask : Word) (a : Archive) : Archive :=
  { withHash mask a with whirlpool := if hasWhirlpools mask then a.whirlpool else none }

private def withSizes (mask : Word) (a : Archive) : Archive :=
  { withWhirlpool mask a with
    compressedSize := if hasSizes mask then a.compressedSize else 0
    uncompressedSize := if hasSizes mask then a.uncompressedSize else 0 }

private def withVersion (mask : Word) (a : Archive) : Archive :=
  { withSizes mask a with version := a.version }

/-- Decoding an encoded table restores everything its format and mask carry. -/
theorem reads_layout (t : ReferenceTable) (h : t.WellFormed) (hl : t.layout.length ≤ bufferSize)
    (hw : hasWhirlpools t.mask → ∀ a ∈ t.archives.values, ∃ w, a.whirlpool = some w) :
    Reads (decode {}) t.layout t.carried := by
  obtain ⟨hsize, hfiles⟩ := t.sizes_le hl
  obtain ⟨hformat, hlo, hhi⟩ := toInt_signExtend_format h.format
  have hmask := h.mask
  have hcount : (BitVec.ofNat 32 t.archives.size).toNat = t.archives.keys.length := by
    rw [BitVec.toNat_ofNat, SortedMap.length_keys]
    omega
  simp only [layout, List.flatten_cons, List.flatten_nil, List.append_nil, decode]
  refine Reads.bind (reads_signedByte _) ?_
  rw [hformat, if_neg (not_not_intro ⟨hlo, hhi⟩)]
  refine Reads.bind (v := if 6 ≤ t.format.toInt then t.version else 0) ?_ ?_
  · unfold readVersion
    split_ifs
    · exact Reads.word 4 _
    · exact Reads.pure _
  refine Reads.bind (reads_signedByte _) ?_
  rw [hmask]
  refine Reads.bind (reads_formatInt _ _ (fitsFormat_count hsize fun hf => ?_)) ?_
  · simpa using (h.archiveIds.narrow hf).1
  rw [hcount]
  refine Reads.bind (reads_ids t.format 0 t.archives.keys le_rfl
    (fun id hid => (h.archiveIds.isId id hid).1) t.archives.sorted_keys h.archiveIds.isId
    fun hf => (h.archiveIds.narrow hf).2) ?_
  rw [SortedMap.foldl_insert_keys]
  refine Reads.bind (reads_column (fun a => a.name) (withName t.mask)
    (fun _ a _ => Reads.word 4 a.name) fun a _ => ?_) ?_
  · unfold withName
    split_ifs <;> rfl
  refine Reads.bind (reads_column (fun a => a.crc) (withCrc t.mask)
    (fun _ a _ => Reads.word 4 a.crc) fun a _ => rfl) ?_
  refine Reads.bind (reads_column (fun a => a.hash) (withHash t.mask)
    (fun _ a _ => Reads.word 4 a.hash) fun a _ => ?_) ?_
  · unfold withHash
    split_ifs <;> rfl
  refine Reads.bind (reads_column (fun a => a.whirlpool.getD []) (withWhirlpool t.mask)
    (fun hp a ha => ?_) fun a ha => ?_) ?_
  · obtain ⟨w, hw⟩ := hw hp a ha
    have hlen := h.whirlpools hp a ha w hw
    rw [hw, ← hlen]
    exact Reads.bytes w
  · unfold withWhirlpool
    split_ifs with hp
    · obtain ⟨w, hw⟩ := hw hp a ha
      rw [hw]
      rfl
    · rfl
  refine Reads.bind (reads_column (fun a => (a.compressedSize, a.uncompressedSize))
    (withSizes t.mask) (fun _ a _ => reads_sizes _ _) fun a _ => ?_) ?_
  · unfold withSizes
    split_ifs <;> rfl
  refine Reads.bind (reads_column (fun a => a.version) (withVersion t.mask)
    (fun _ a _ => Reads.word 4 a.version) fun a _ => rfl) ?_
  exact reads_fileSections t h _ hfiles _ (fun _ => rfl) fun _ _ => rfl

/-- Encoding a well-formed table and decoding the result into a fresh one restores what the
format and the mask carry. -/
theorem decode_encode (t : ReferenceTable) (h : t.WellFormed)
    (hw : hasWhirlpools t.mask → ∀ a ∈ t.archives.values, a.whirlpool ≠ none)
    (hl : t.layout.length ≤ bufferSize) :
    ∃ bytes, t.encode = some bytes ∧ (decode {}).run bytes = some (t.carried, []) := by
  have hpresent : hasWhirlpools t.mask → ∀ a ∈ t.archives.values, ∃ w, a.whirlpool = some w :=
    fun hm a ha => Option.ne_none_iff_exists'.mp (hw hm a ha)
  have hencode : t.encode = some t.layout := by
    unfold encode
    rw [if_neg, if_neg (not_lt.mpr hl)]
    rintro ⟨hm, hnone⟩
    obtain ⟨a, ha, hn⟩ := List.any_eq_true.mp hnone
    exact hw hm a ha (Option.isNone_iff_eq_none.mp hn)
  exact ⟨t.layout, hencode, (reads_layout t h hl hpresent).run⟩

/-- Two archives with names, whirlpools and sizes; the first id is written in four bytes. -/
def sampleTable : ReferenceTable where
  version := 3
  format := 7
  mask := 0x7
  archives := (SortedMap.empty.insert 40000
      { name := 11, crc := 12, version := 13, whirlpool := some (List.replicate 64 9)
        uncompressedSize := 14, compressedSize := 15
        files := (SortedMap.empty.insert 0 { name := 16 }).insert 5 {} }).insert 40001
      { crc := 17, whirlpool := some (List.replicate 64 8) }

theorem decode_encode_sampleTable : ∃ bytes, sampleTable.encode = some bytes ∧
    (decode {}).run bytes = some (sampleTable.carried, []) := by
  have hkeys : sampleTable.archives.keys = [40000, 40001] := by decide
  have hfiles : ∀ a ∈ sampleTable.archives.values, a.files.keys = [0, 5] ∨ a.files.keys = [] := by
    decide
  apply decode_encode sampleTable
  · constructor
    · exact Or.inr (Or.inr rfl)
    · decide
    · rw [hkeys]
      exact ⟨by simp [IsId], by simp [sampleTable]⟩
    · intro a ha
      rcases hfiles a ha with h | h <;> rw [h] <;>
        exact ⟨by simp [IsId], by simp [sampleTable]⟩
    · intro _
      decide
  · intro _
    decide
  · decide +kernel

end Decode

end ReferenceTable

end OpenNXT.Filesystem
