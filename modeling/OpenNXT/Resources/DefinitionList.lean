import OpenNXT.Resources.ArchiveFiles

/-! Listing definitions: every id from zero up to one that is computed from the last archive. -/
namespace OpenNXT.Resources
open Buffer Data Filesystem

/-- The greatest id: so many for each archive before the last one, and the last file of that;
`missing` is what an archive that is not there leads to. -/
def getMaxId (missing : Except ResourceError Word) (filesPerArchive : ℤ) (t : ReferenceTable) :
    Except ResourceError Word :=
  let maxArchive := t.highestEntry - 1
  match t.archives.get? maxArchive with
  | none => missing
  | some archive =>
    match archive.files.lastKey with
    | none => .error .noElement
    | some files => .ok (BitVec.ofInt 32 (maxArchive * filesPerArchive + files))

/-- The ids below a bound. -/
def idsBelow (n : ℕ) : List Word := (List.range n).map (BitVec.ofNat 32)

/-- The definitions of the ids, each of them loaded. -/
def listFrom {α : Type}
    (load : ReferenceTable → Word → ReferenceTable × Except ResourceError (Option α)) :
    List Word → ReferenceTable → SortedMap ℤ α →
      ReferenceTable × Except ResourceError (SortedMap ℤ α)
  | [], t, result => (t, .ok result)
  | id :: ids, t, result =>
    let loaded := load t id
    match loaded.2 with
    | .error e => (loaded.1, .error e)
    | .ok none => listFrom load ids loaded.1 result
    | .ok (some d) => listFrom load ids loaded.1 (result.insert id.toInt d)

/-- The list of as many ids as were found. -/
def listBelow {α : Type}
    (load : ReferenceTable → Word → ReferenceTable × Except ResourceError (Option α))
    (count : Except ResourceError ℕ) (t : ReferenceTable) :
    ReferenceTable × Except ResourceError (SortedMap ℤ α) :=
  match count with
  | .error e => (t, .error e)
  | .ok n => listFrom load (idsBelow n) t .empty

theorem mem_idsBelow {n : ℕ} (hn : n ≤ 2 ^ 32) {id : Word} : id ∈ idsBelow n ↔ id.toNat < n := by
  rw [idsBelow, List.mem_map]
  constructor
  · rintro ⟨i, hi, rfl⟩
    have hlt := List.mem_range.mp hi
    rwa [BitVec.toNat_ofNat, Nat.mod_eq_of_lt (by omega)]
  · intro hid
    exact ⟨id.toNat, List.mem_range.mpr hid, by rw [BitVec.ofNat_toNat, BitVec.setWidth_eq]⟩

section ListFrom
variable {α : Type}
  {load : ReferenceTable → Word → ReferenceTable × Except ResourceError (Option α)}

/-- A load that returns changes nothing of what loads return. -/
def LoadsAgain
    (load : ReferenceTable → Word → ReferenceTable × Except ResourceError (Option α)) : Prop :=
  ∀ t id result, (load t id).2 = .ok result → ∀ j, (load (load t id).1 j).2 = (load t j).2

/-- The list is there if every load returns, and has what was loaded. -/
theorem listFrom_eq_ok (hload : LoadsAgain load) {ids : List Word} {t : ReferenceTable}
    (result : SortedMap ℤ α) (hids : ∀ id ∈ ids, ∃ d, (load t id).2 = .ok d) :
    ∃ m, (listFrom load ids t result).2 = .ok m ∧ ∀ k, k ∈ m.keys ↔
      k ∈ result.keys ∨ ∃ id ∈ ids, id.toInt = k ∧ ∃ d, (load t id).2 = .ok (some d) := by
  induction ids generalizing t result with
  | nil => exact ⟨result, rfl, fun k => by simp⟩
  | cons id ids ih =>
    obtain ⟨d, hd⟩ := hids id List.mem_cons_self
    have hagain := hload t id d hd
    have hrest : ∀ j ∈ ids, ∃ d, (load (load t id).1 j).2 = .ok d := fun j hj => by
      rw [hagain]
      exact hids j (List.mem_cons_of_mem id hj)
    cases d with
    | none =>
      obtain ⟨m, hm, hkeys⟩ := ih result hrest
      refine ⟨m, ?_, fun k => ?_⟩
      · simp only [listFrom, hd, hm]
      · simp only [hkeys, hagain, List.mem_cons, exists_eq_or_imp, hd]
        simp
    | some d =>
      obtain ⟨m, hm, hkeys⟩ := ih (result.insert id.toInt d) hrest
      refine ⟨m, ?_, fun k => ?_⟩
      · simp only [listFrom, hd, hm]
      · simp only [hkeys, hagain, List.mem_cons, exists_eq_or_imp, hd, SortedMap.mem_keys_insert]
        simp only [Except.ok.injEq, Option.some.injEq, exists_eq', and_true]
        rw [eq_comm (a := k), or_assoc, or_left_comm]

/-- The first load that throws ends the list. -/
theorem listFrom_eq_error (hload : LoadsAgain load) {ids : List Word} {t : ReferenceTable}
    (result : SortedMap ℤ α) {id : Word} (hid : id ∈ ids) {e : ResourceError}
    (he : (load t id).2 = .error e) : ∃ e, (listFrom load ids t result).2 = .error e := by
  induction ids generalizing t result with
  | nil => cases hid
  | cons j ids ih =>
    cases hj : (load t j).2 with
    | error e =>
      refine ⟨e, ?_⟩
      simp only [listFrom, hj]
    | ok d =>
      have hagain := hload t j d hj
      have hmem : id ∈ ids := by
        rcases List.mem_cons.mp hid with rfl | hmem
        · rw [hj] at he
          cases he
        · exact hmem
      cases d with
      | none =>
        obtain ⟨e', he'⟩ := ih (t := (load t j).1) result hmem (by rw [hagain, he])
        refine ⟨e', ?_⟩
        simp only [listFrom, hj, he']
      | some d =>
        obtain ⟨e', he'⟩ := ih (t := (load t j).1) (result.insert j.toInt d) hmem
          (by rw [hagain, he])
        refine ⟨e', ?_⟩
        simp only [listFrom, hj, he']

end ListFrom

/-- The keys of a list that returns are the ids that are loaded, and it returns where they all do. -/
structure ListsAll {α : Type} (list : Except ResourceError (SortedMap ℤ α))
    (load : Word → Except ResourceError (Option α)) : Prop where
  keys : ∀ m, list = .ok m → ∀ k, k ∈ m.keys ↔ ∃ id : Word, id.toInt = k ∧ ∃ d, load id = .ok (some d)
  returns : (∀ id, ∃ d, load id = .ok d) → ∃ m, list = .ok m

section ListsAll
variable {α : Type}
  {load : ReferenceTable → Word → ReferenceTable × Except ResourceError (Option α)}
  {t : ReferenceTable}

/-- Every id that is loaded is below the bound, unless one below it throws. -/
theorem listsAll_listFrom_iff (hload : LoadsAgain load) {n : ℕ} (hn : n ≤ 2 ^ 31) :
    ListsAll (listFrom load (idsBelow n) t .empty).2 (fun id => (load t id).2) ↔
      ((∀ id : Word, id.toNat < n → ∃ d, (load t id).2 = .ok d) →
        ∀ id : Word, (∃ d, (load t id).2 = .ok (some d)) → id.toNat < n) := by
  have hmem (id : Word) : id ∈ idsBelow n ↔ id.toNat < n := mem_idsBelow (by omega)
  constructor
  · intro hall hreturn id hid
    obtain ⟨m, hm, hkeys⟩ := listFrom_eq_ok hload .empty
      fun id hid => hreturn id ((hmem id).mp hid)
    have hkey := (hall.keys m hm id.toInt).mpr ⟨id, rfl, hid⟩
    rcases (hkeys id.toInt).mp hkey with hempty | ⟨j, hj, hsame, -⟩
    · cases hempty
    · rw [← BitVec.eq_of_toInt_eq hsame]
      exact (hmem j).mp hj
  · intro hcovered
    refine ⟨fun m hm => ?_, fun hreturn => ?_⟩
    · have hreturn : ∀ id ∈ idsBelow n, ∃ d, (load t id).2 = .ok d := by
        intro id hid
        cases hresult : (load t id).2 with
        | ok d => exact ⟨d, rfl⟩
        | error e =>
          obtain ⟨e', he'⟩ := listFrom_eq_error hload .empty hid hresult
          rw [he'] at hm
          cases hm
      obtain ⟨m', hm', hkeys⟩ := listFrom_eq_ok hload .empty hreturn
      cases hm.symm.trans hm'
      intro k
      rw [hkeys]
      constructor
      · rintro (hempty | ⟨id, -, hid⟩)
        · cases hempty
        · exact ⟨id, hid⟩
      · rintro ⟨id, rfl, hid⟩
        have hlt := hcovered (fun j hj => hreturn j ((hmem j).mpr hj)) id hid
        exact Or.inr ⟨id, (hmem id).mpr hlt, rfl, hid⟩
    · obtain ⟨m, hm, -⟩ := listFrom_eq_ok hload .empty
        fun id (_ : id ∈ idsBelow n) => hreturn id
      exact ⟨m, hm⟩

/-- A bound that cannot be computed is no harm only where some load throws as well. -/
theorem listsAll_error_iff {e : ResourceError} {load : Word → Except ResourceError (Option α)} :
    ListsAll (.error e) load ↔ ∃ id e, load id = .error e := by
  constructor
  · intro hall
    by_contra hnone
    have hreturn : ∀ id, ∃ d, load id = .ok d := by
      intro id
      cases hid : load id with
      | ok d => exact ⟨d, rfl⟩
      | error e => exact absurd ⟨id, e, hid⟩ hnone
    obtain ⟨m, hm⟩ := hall.returns hreturn
    cases hm
  · rintro ⟨id, e', hid⟩
    refine ⟨fun m hm => (nomatch hm), fun hreturn => ?_⟩
    obtain ⟨d, hd⟩ := hreturn id
    rw [hid] at hd
    cases hd

end ListsAll

section Table
variable {codecs : Codecs} {read : ℤ → Option (List Byte)} {α : Type} {decode : List Byte → Option α}
  {t : ReferenceTable}

/-- A file that was read is read again, and so is every other one. -/
theorem loadsAgain_loadDefinition (archive file : Word → ℤ) :
    LoadsAgain fun t id => loadDefinition codecs read decode t (archive id) (file id) := by
  intro t id result hload j
  have houtcome : (t.loadArchive codecs read (archive id)).2 ≠ .payloadThrown := by
    intro hthrown
    simp only [loadDefinition, loadFile, hthrown] at hload
    cases hload
  simp only [loadDefinition, loadFile, loadArchive_again houtcome]

variable (codecs read decode t)

/-- Every file that an id has, and that is a definition, has an id below the bound; all this if
those below it load. -/
def Covered (size n : ℕ) : Prop :=
  (∀ id : Word, id.toNat < n → ∃ d, (loadDefinition codecs read decode t
    (ResourceType.getArchive id size) (ResourceType.getFile id size)).2 = .ok d) →
  ∀ (id : Word) (data : List Byte), fileAt codecs read t (ResourceType.getArchive id size)
    (ResourceType.getFile id size) = .ok (some data) → (decode data).isSome → id.toNat < n

/-- Some id has a file that does not load. -/
def Throws (size : ℕ) : Prop :=
  ∃ (id : Word) (e : ResourceError), (loadDefinition codecs read decode t
    (ResourceType.getArchive id size) (ResourceType.getFile id size)).2 = .error e

variable {codecs read decode t} {size : ℕ} {k : ℤ} {a : Archive}

/-- The bound comes from the last file of the last archive. -/
theorem listsAll_listBelow_iff {missing : Except ResourceError Word} {filesPerArchive : ℤ}
    {count : Word → ℕ} (hcount : ∀ max, count max ≤ 2 ^ 31) (hlast : t.archives.lastKey = some k)
    (ha : t.archives.get? k = some a) :
    ListsAll (listBelow (fun t id => loadDefinition codecs read decode t
          (ResourceType.getArchive id size) (ResourceType.getFile id size))
        ((getMaxId missing filesPerArchive t).map count) t).2
      (fun id => (loadDefinition codecs read decode t (ResourceType.getArchive id size)
        (ResourceType.getFile id size)).2) ↔
      (a.files.lastKey = none ∧ Throws codecs read decode t size) ∨
        ∃ f, a.files.lastKey = some f ∧ Covered codecs read decode t size
          (count (BitVec.ofInt 32 (k * filesPerArchive + f))) := by
  have hhighest : t.highestEntry - 1 = k := by
    rw [ReferenceTable.highestEntry, hlast]
    exact add_sub_cancel_right k 1
  cases hf : a.files.lastKey with
  | none =>
    have hmax : getMaxId missing filesPerArchive t = .error .noElement := by
      simp only [getMaxId, hhighest, ha, hf]
    simp only [hmax, Except.map, listBelow, listsAll_error_iff, true_and, reduceCtorEq, false_and,
      exists_false, or_false]
    rfl
  | some f =>
    have hmax : getMaxId missing filesPerArchive t =
        .ok (BitVec.ofInt 32 (k * filesPerArchive + f)) := by
      simp only [getMaxId, hhighest, ha, hf]
    simp only [hmax, Except.map, listBelow, reduceCtorEq, false_and, false_or, Option.some.injEq,
      exists_eq_left']
    rw [listsAll_listFrom_iff (loadsAgain_loadDefinition _ _) (hcount _), Covered]
    refine imp_congr_right fun _ => forall_congr' fun id => ?_
    have hsome : (∃ d, (loadDefinition codecs read decode t (ResourceType.getArchive id size)
        (ResourceType.getFile id size)).2 = .ok (some d)) ↔
        ∃ data, fileAt codecs read t (ResourceType.getArchive id size)
          (ResourceType.getFile id size) = .ok (some data) ∧ (decode data).isSome := by
      simp only [loadDefinition, bind_decodeFile_eq, Option.isSome_iff_exists]
      exact exists_comm.trans (exists_congr fun data => exists_and_left)
    rw [hsome]
    rw [forall_exists_index]
    exact forall_congr' fun data => and_imp

/-- With as many files to an archive as an id has room for, the bound covers every file up to the
greatest `Int`. -/
theorem covered_of_lt (hpos : 0 < size) (hsize : size < 32) (hlast : t.archives.lastKey = some k)
    (ha : t.archives.get? k = some a) {f : ℤ} (hf : a.files.lastKey = some f) (hzero : 0 ≤ f) {n : ℕ}
    (hn : k * 2 ^ size + f < n) : Covered codecs read decode t size n := by
  intro _ id data hdata _
  obtain ⟨b, hb, hfile⟩ := file_of_fileAt hdata
  rw [ResourceType.getArchive_eq hpos] at hb
  rw [ResourceType.getFile_eq hsize] at hfile
  have hle := (SortedMap.lastKey_eq_some hlast).2 _ (SortedMap.mem_keys.mpr ⟨b, hb⟩)
  have hdiv := Nat.div_add_mod id.toNat (2 ^ size)
  have hmod := Nat.mod_lt id.toNat (Nat.two_pow_pos size)
  suffices hid : (id.toNat : ℤ) ≤ k * 2 ^ size + f by omega
  have hsplit : (id.toNat : ℤ) = (id.toNat / 2 ^ size : ℕ) * 2 ^ size + (id.toNat % 2 ^ size : ℕ) := by
    rw [mul_comm]
    exact_mod_cast hdiv.symm
  rw [hsplit]
  rcases hle.eq_or_lt with hsame | hlt
  · rw [hsame, ha] at hb
    cases hb
    rw [hsame]
    exact add_le_add_right ((SortedMap.lastKey_eq_some hf).2 _ hfile) _
  · -- a file of an earlier archive comes before all of the last one
    have hnext : ((id.toNat / 2 ^ size : ℕ) + 1 : ℤ) * 2 ^ size ≤ k * 2 ^ size :=
      mul_le_mul_of_nonneg_right hlt (by positivity)
    have hfile : ((id.toNat % 2 ^ size : ℕ) : ℤ) < 2 ^ size := by exact_mod_cast hmod
    linarith

end Table

end OpenNXT.Resources
