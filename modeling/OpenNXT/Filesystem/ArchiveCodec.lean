import OpenNXT.Filesystem.Archive

/-! Packed archives restored: the size table at the end against the parts it counts. -/
namespace OpenNXT.Filesystem
open Buffer Data

namespace Archive

def partSize (part : List Byte) : Word := BitVec.ofNat 32 part.length

/-- The sizes of one chunk's parts, each as the difference to its predecessor. -/
def putPartSizes : Word → List (List Byte) → List Byte
  | _, [] => []
  | previousSize, part :: parts =>
    putInt (partSize part - previousSize) ++ putPartSizes (partSize part) parts

/-- The payload of several chunks: every chunk's part of every file, every chunk's sizes, and the
number of chunks. -/
def packChunks (chunks : List (List (List Byte))) : List Byte :=
  chunks.flatMap List.flatten ++ (chunks.flatMap (putPartSizes 0) ++
    [BitVec.ofNat 8 chunks.length])

/-- Every chunk has a part of every file, and a file is its parts one after the other. -/
structure Cuts (chunks : List (List (List Byte))) (data : List (List Byte)) : Prop where
  rows : ∀ parts ∈ chunks, parts.length = data.length
  whole : ∀ i < data.length, data[i]? = some (chunks.flatMap fun parts => parts.getD i [])

section Sizes

@[simp] theorem length_putPartSizes (previousSize : Word) (parts : List (List Byte)) :
    (putPartSizes previousSize parts).length = 4 * parts.length := by
  induction parts generalizing previousSize with
  | nil => rfl
  | cons part parts ih =>
    rw [putPartSizes, List.length_append, length_putWord, ih, List.length_cons]
    omega

theorem reads_chunkSizes (previousSize : Word) (parts : List (List Byte)) :
    Reads (readChunkSizes parts.length previousSize) (putPartSizes previousSize parts)
      (parts.map partSize) := by
  induction parts generalizing previousSize with
  | nil => exact Reads.pure []
  | cons part parts ih =>
    have hsum : previousSize + (partSize part - previousSize) = partSize part := by
      rw [BitVec.add_comm, BitVec.sub_add_cancel]
    rw [List.length_cons, readChunkSizes, putPartSizes, List.map_cons]
    refine Reads.bind (Reads.word 4 _) ?_
    rw [hsum]
    exact (ih (partSize part)).map fun sizes => partSize part :: sizes

theorem reads_readAll {α β : Type} {r : Reader β} {enc : α → List Byte} {val : α → β} (l : List α)
    (h : ∀ a ∈ l, Reads r (enc a) (val a)) :
    Reads (readAll r l.length) (l.flatMap enc) (l.map val) := by
  induction l with
  | nil => exact Reads.pure []
  | cons a l ih =>
    rw [List.length_cons, readAll, List.flatMap_cons, List.map_cons]
    refine Reads.bind (h a List.mem_cons_self) ?_
    exact (ih fun b hb => h b (List.mem_cons_of_mem _ hb)).map fun xs => val a :: xs

theorem reads_sizeTable {n : ℕ} (chunks : List (List (List Byte)))
    (h : ∀ parts ∈ chunks, parts.length = n) :
    Reads (readAll (readChunkSizes n 0) chunks.length) (chunks.flatMap (putPartSizes 0))
      (chunks.map fun parts => parts.map partSize) := by
  apply reads_readAll
  intro parts hparts
  rw [← h parts hparts]
  exact reads_chunkSizes 0 parts

end Sizes

section Parts

theorem reads_part {part : List Byte} (h : part.length < 2 ^ 31) :
    Reads (readPart (partSize part)) part part := by
  have hsize : (partSize part).toNat = part.length := by
    rw [partSize, BitVec.toNat_ofNat]
    exact Nat.mod_eq_of_lt (by omega)
  have hsign : (partSize part).msb = false := by
    rw [BitVec.msb_eq_decide, hsize, decide_eq_false_iff_not]
    omega
  rw [readPart, hsign, hsize]
  exact Reads.bytes part

theorem reads_parts (parts : List (List Byte)) (h : ∀ part ∈ parts, part.length < 2 ^ 31) :
    Reads (readParts (parts.map partSize)) parts.flatten parts := by
  induction parts with
  | nil => exact Reads.pure []
  | cons part parts ih =>
    rw [List.map_cons, readParts, List.flatten_cons]
    refine Reads.bind (reads_part (h part List.mem_cons_self)) ?_
    exact (ih fun p hp => h p (List.mem_cons_of_mem _ hp)).map fun parts => part :: parts

theorem reads_chunks (chunks : List (List (List Byte))) (data : List (List Byte))
    (h : ∀ parts ∈ chunks, ∀ part ∈ parts, part.length < 2 ^ 31) :
    Reads (readChunks (chunks.map fun parts => parts.map partSize) data)
      (chunks.flatMap List.flatten) (chunks.foldl (List.zipWith (· ++ ·)) data) := by
  induction chunks generalizing data with
  | nil => exact Reads.pure data
  | cons parts chunks ih =>
    rw [List.map_cons, readChunks, List.flatMap_cons, List.foldl_cons]
    refine Reads.bind (reads_parts parts (h parts List.mem_cons_self)) ?_
    exact ih _ fun ps hps => h ps (List.mem_cons_of_mem _ hps)

/-- A file gathers its part of every chunk. -/
theorem getElem?_foldl_append (chunks : List (List (List Byte))) (data : List (List Byte))
    (h : ∀ parts ∈ chunks, parts.length = data.length) (i : ℕ) :
    (chunks.foldl (List.zipWith (· ++ ·)) data)[i]? =
      data[i]?.map fun file => file ++ chunks.flatMap fun parts => parts.getD i [] := by
  induction chunks generalizing data with
  | nil => cases h : data[i]? <;> simp [h]
  | cons parts chunks ih =>
    have hlen := h parts List.mem_cons_self
    have hnext : ∀ ps ∈ chunks, ps.length = (List.zipWith (· ++ ·) data parts).length := by
      intro ps hps
      rw [List.length_zipWith, hlen, Nat.min_self]
      exact h ps (List.mem_cons_of_mem _ hps)
    rw [List.foldl_cons, ih _ hnext, List.getElem?_zipWith]
    by_cases hi : i < data.length
    · have hp : i < parts.length := hlen ▸ hi
      simp [hi, hp, List.getD_eq_getElem?_getD]
    · have hp : ¬ i < parts.length := hlen ▸ hi
      simp [hi, hp]

theorem Cuts.foldl_eq {chunks : List (List (List Byte))} {data : List (List Byte)}
    (h : Cuts chunks data) :
    chunks.foldl (List.zipWith (· ++ ·)) (List.replicate data.length []) = data := by
  apply List.ext_getElem?
  intro i
  rw [getElem?_foldl_append _ _ fun parts hparts => by rw [List.length_replicate, h.rows parts hparts]]
  by_cases hi : i < data.length
  · rw [h.whole i hi, List.getElem?_replicate_of_lt hi]
    rfl
  · rw [List.getElem?_eq_none (not_lt.mp hi), List.getElem?_eq_none (by simpa using hi)]
    rfl

end Parts

section Files
variable {files : SortedMap ℤ ArchiveFile} {data : List (List Byte)}

/-- Each file with the data listed for it. -/
def zipData (files : SortedMap ℤ ArchiveFile) (data : List (List Byte))
    (h : data.length = files.size) : SortedMap ℤ (ArchiveFile × List Byte) where
  entries := (files.entries.zip data).map fun p => (p.1.1, (p.1.2, p.2))
  sorted := by
    have hfirst : (files.entries.zip data).map Prod.fst = files.entries :=
      List.map_fst_zip h.ge
    have hsorted : ((files.entries.zip data).map Prod.fst).Pairwise (fun a b => a.1 < b.1) := by
      rw [hfirst]
      exact files.sorted
    have hpairs := List.pairwise_map.mp hsorted
    exact List.pairwise_map.mpr hpairs

theorem map_zipData (h : data.length = files.size) :
    (zipData files data h).map (fun _ p => p.1) = files := by
  have hfirst : (files.entries.zip data).map Prod.fst = files.entries := List.map_fst_zip h.ge
  apply SortedMap.ext
  show ((files.entries.zip data).map fun p => (p.1.1, (p.1.2, p.2))).map
    (fun e => (e.1, e.2.1)) = files.entries
  rw [List.map_map]
  exact hfirst

theorem setData_eq (h : data.length = files.size) :
    setData files data = (zipData files data h).map fun _ p => { p.1 with data := p.2 } := by
  have hfold := SortedMap.foldl_modify_entries
    (fun _ (p : ArchiveFile × List Byte) (file : ArchiveFile) => { file with data := p.2 })
    (fun _ p => p.1) (zipData files data h)
  rw [map_zipData h] at hfold
  rw [← hfold, setData, SortedMap.keys, List.zip_map_left, List.foldl_map, zipData, List.foldl_map]
  rfl

theorem keys_setData (h : data.length = files.size) : (setData files data).keys = files.keys := by
  rw [setData_eq h, SortedMap.keys_map]
  conv_rhs => rw [← map_zipData h, SortedMap.keys_map]

/-- The data are those listed. -/
theorem data_setData (h : data.length = files.size) :
    (setData files data).values.map (·.data) = data := by
  have hsecond : (files.entries.zip data).map Prod.snd = data := List.map_snd_zip h.le
  rw [setData_eq h, SortedMap.values, SortedMap.map, zipData, List.map_map, List.map_map,
    List.map_map]
  exact hsecond

/-- The names stay. -/
theorem names_setData (h : data.length = files.size) :
    (setData files data).values.map (·.name) = files.values.map (·.name) := by
  have hfirst : (files.entries.zip data).map Prod.fst = files.entries := List.map_fst_zip h.ge
  conv_rhs => rw [SortedMap.values, ← hfirst]
  rw [setData_eq h, SortedMap.values, SortedMap.map, zipData]
  simp only [List.map_map]
  rfl

end Files

section Codec
variable {a : Archive}

theorem length_sizeTable {n : ℕ} {chunks : List (List (List Byte))}
    (h : ∀ parts ∈ chunks, parts.length = n) :
    (chunks.flatMap (putPartSizes 0)).length = chunks.length * (n * 4) := by
  induction chunks with
  | nil => simp
  | cons parts chunks ih =>
    rw [List.flatMap_cons, List.length_append, length_putPartSizes, h parts List.mem_cons_self,
      ih fun ps hps => h ps (List.mem_cons_of_mem _ hps), List.length_cons]
    ring

theorem length_part_le {chunks : List (List (List Byte))} {parts : List (List Byte)}
    {part : List Byte} (hparts : parts ∈ chunks) (hpart : part ∈ parts) :
    part.length ≤ (packChunks chunks).length := by
  have hflat : part.length ≤ parts.flatten.length :=
    (List.sublist_flatten_of_mem hpart).length_le
  have hall : parts.flatten.length ≤ (chunks.flatMap List.flatten).length := by
    rw [List.flatMap_def]
    exact (List.sublist_flatten_of_mem (List.mem_map_of_mem hparts)).length_le
  rw [packChunks, List.length_append]
  omega

/-- A payload of any number of chunks is unpacked into the files its chunks cut. -/
theorem decode_packChunks {chunks : List (List (List Byte))} {data : List (List Byte)}
    (hcuts : Cuts chunks data) (hsize : a.files.size = data.length) (hmany : data.length ≠ 1)
    (hchunks : chunks.length ≤ 255) (hlimit : (packChunks chunks).length < maxArray) :
    decode a (packChunks chunks) =
      some { a with loaded := true, files := setData a.files data } := by
  have htable := length_sizeTable hcuts.rows
  have hcount : (BitVec.ofNat 8 chunks.length).toNat = chunks.length := by
    rw [BitVec.toNat_ofNat]
    exact Nat.mod_eq_of_lt (by omega)
  have hlast : (packChunks chunks).getLast? = some (BitVec.ofNat 8 chunks.length) := by
    simp [packChunks]
  have hlen : (packChunks chunks).length =
      (chunks.flatMap List.flatten).length + (chunks.length * (data.length * 4) + 1) := by
    rw [packChunks, List.length_append, List.length_append, htable]
    rfl
  have hdrop : (packChunks chunks).drop ((packChunks chunks).length - 1 -
      chunks.length * (data.length * 4)) =
        chunks.flatMap (putPartSizes 0) ++ [BitVec.ofNat 8 chunks.length] :=
    List.drop_left' (by omega)
  have hparts : ∀ parts ∈ chunks, ∀ part ∈ parts, part.length < 2 ^ 31 := by
    intro parts hp part hpart
    exact (length_part_le hp hpart).trans_lt hlimit
  have hsizes := reads_sizeTable chunks hcuts.rows [BitVec.ofNat 8 chunks.length]
  have hread := reads_chunks chunks (List.replicate data.length []) hparts
    (chunks.flatMap (putPartSizes 0) ++ [BitVec.ofNat 8 chunks.length])
  rw [hcuts.foldl_eq] at hread
  rw [decode, if_neg (by omega), hlast, Option.bind_eq_bind, Option.bind_some, hcount, hsize,
    if_neg (by omega), hdrop, hsizes, Option.bind_eq_bind, Option.bind_some]
  dsimp only
  rw [packChunks, hread]
  rfl

theorem putData_eq {last : ℤ} {es : List (ℤ × ArchiveFile)} {bytes : List Byte}
    (h : putData last es = some bytes) : bytes = (es.map fun e => e.2.data).flatten := by
  induction es generalizing last bytes with
  | nil =>
    cases h
    rfl
  | cons e es ih =>
    rw [putData] at h
    split_ifs at h
    obtain ⟨tail, htail, hbytes⟩ := Option.bind_eq_some_iff.mp h
    cases hbytes
    rw [ih htail]
    rfl

theorem putSizes_eq (previousSize : Word) (es : List (ℤ × ArchiveFile)) :
    putSizes previousSize es = putPartSizes previousSize (es.map fun e => e.2.data) := by
  induction es generalizing previousSize with
  | nil => rfl
  | cons e es ih => rw [putSizes, ih, List.map_cons, putPartSizes, partSize]

/-- The whole files are their only chunk. -/
theorem cuts_single (data : List (List Byte)) : Cuts [data] data where
  rows parts hparts := by rw [List.mem_singleton.mp hparts]
  whole i hi := by simp [hi]

/-- One file is packed as it is, and any other number as one chunk. -/
theorem encode_cases {bytes : List Byte} (h : a.encode = some bytes) :
    (∃ file, a.files.values = [file] ∧ bytes = file.data) ∨
      (a.files.size ≠ 1 ∧ bytes = packChunks [a.files.values.map (·.data)] ∧
        bytes.length < maxArray) := by
  unfold encode at h
  split_ifs at h with hlarge
  split at h
  next file hfile =>
    cases h
    exact Or.inl ⟨file, hfile, rfl⟩
  next hmany =>
    right
    obtain ⟨bytes, hput, hbytes⟩ := Option.bind_eq_some_iff.mp h
    cases hbytes
    have hvalues : a.files.entries.map (fun e => e.2.data) = a.files.values.map (·.data) := by
      rw [SortedMap.values, List.map_map]
      rfl
    have hpack : bytes ++ putSizes 0 a.files.entries ++ [1] =
        packChunks [a.files.values.map (·.data)] := by
      rw [putData_eq hput, putSizes_eq, hvalues, packChunks]
      simp
    refine ⟨?_, hpack, ?_⟩
    · intro hone
      obtain ⟨e, he⟩ := List.length_eq_one_iff.mp hone
      apply hmany e.2
      rw [SortedMap.values, he]
      rfl
    · have hsize : (a.files.values.map (·.data)).flatten.length = a.dataSize := by
        rw [List.length_flatten, dataSize, List.map_map]
        rfl
      have hvalues : a.files.values.length = a.files.size := by
        rw [SortedMap.values, List.length_map, SortedMap.size]
      rw [hpack, packChunks]
      simp only [List.flatMap_cons, List.flatMap_nil, List.append_nil, List.length_append, hsize,
        length_putPartSizes, List.length_map, hvalues, List.length_cons, List.length_nil]
      omega

end Codec

section RoundTrip

/-- Maps of the same keys that agree on one thing in key order say the same of it under every
key. -/
theorem get?_map_eq {β : Type} (f : ArchiveFile → β) {m n : SortedMap ℤ ArchiveFile}
    (hkeys : m.keys = n.keys) (hvalues : m.values.map f = n.values.map f) (id : ℤ) :
    (m.get? id).map f = (n.get? id).map f := by
  have hzip : ∀ k : SortedMap ℤ ArchiveFile, (k.map fun _ file => f file).entries =
      k.keys.zip (k.values.map f) := by
    intro k
    rw [SortedMap.keys, SortedMap.values, List.map_map, List.zip_map']
    rfl
  have hmap : (m.map fun _ file => f file) = n.map fun _ file => f file := by
    apply SortedMap.ext
    rw [hzip, hzip, hkeys, hvalues]
  have hget := congrArg (fun k => k.get? id) hmap
  simpa only [SortedMap.get?_map] using hget

theorem decode_packed {a b : Archive} {bytes : List Byte} (h : a.encode = some bytes)
    (hkeys : b.files.keys = a.files.keys) :
    ∃ data, data.length = b.files.size ∧ data = a.files.values.map (·.data) ∧
      decode b bytes = some { b with loaded := true, files := setData b.files data } := by
  have hsize : b.files.size = a.files.size := by
    rw [← SortedMap.length_keys, hkeys, SortedMap.length_keys]
  have hlen : (a.files.values.map (·.data)).length = a.files.size := by
    rw [List.length_map, SortedMap.values, List.length_map, SortedMap.size]
  refine ⟨_, hlen.trans hsize.symm, rfl, ?_⟩
  obtain ⟨file, hfile, rfl⟩ | ⟨hmany, rfl, hlimit⟩ := encode_cases h
  · have hone : b.files.size = 1 := by
      rw [hfile] at hlen
      rw [hsize, ← hlen]
      rfl
    rw [decode, if_pos hone, hfile]
    rfl
  · exact decode_packChunks (cuts_single _) (hsize.trans hlen.symm) (by omega) (by simp) hlimit

/-- The payload is that of the files. -/
theorem encode_congr {a b : Archive} (h : a.files = b.files) : a.encode = b.encode := by
  unfold encode dataSize
  rw [h]

theorem length_encode {a : Archive} {bytes : List Byte} (h : a.encode = some bytes) :
    bytes.length < maxArray := by
  obtain ⟨file, hfile, rfl⟩ | ⟨-, -, hlimit⟩ := encode_cases h
  · have hsize : a.dataSize = file.data.length := by
      rw [dataSize, hfile]
      exact List.sum_singleton
    unfold encode at h
    split_ifs at h with hlarge
    omega
  · exact hlimit

theorem putData_isSome {last : ℤ} {es : List (ℤ × ArchiveFile)}
    (hsorted : es.Pairwise fun d e => d.1 < e.1) (hlast : ∀ e ∈ es, last ≤ e.1) :
    ∃ bytes, putData last es = some bytes := by
  induction es generalizing last with
  | nil => exact ⟨[], rfl⟩
  | cons e es ih =>
    obtain ⟨hfirst, hrest⟩ := List.pairwise_cons.mp hsorted
    obtain ⟨tail, htail⟩ := ih hrest fun d hd => (hfirst d hd).le
    have hle := hlast e List.mem_cons_self
    rw [putData, if_neg (by omega), htail]
    exact ⟨_, rfl⟩

/-- An archive without negative file ids is packed, unless it is larger than an array. -/
theorem encode_isSome {a : Archive} (hids : ∀ id ∈ a.files.keys, 0 ≤ id)
    (hlimit : 1 + a.dataSize + a.files.size * 4 < maxArray) : ∃ bytes, a.encode = some bytes := by
  have hlast : ∀ e ∈ a.files.entries, 0 ≤ e.1 := fun e he => hids e.1 (List.mem_map_of_mem he)
  obtain ⟨bytes, hbytes⟩ := putData_isSome a.files.sorted hlast
  unfold encode
  rw [if_neg (by omega)]
  split
  · exact ⟨_, rfl⟩
  · rw [hbytes]
    exact ⟨_, rfl⟩

/-- What is packed comes back: an encoded archive into one with the same file ids, and files cut
into chunks from the payload of those chunks. -/
theorem decode_restores :
    (∀ a : Archive, (∀ id ∈ a.files.keys, 0 ≤ id) →
      1 + a.dataSize + a.files.size * 4 < maxArray → ∃ bytes, a.encode = some bytes) ∧
    (∀ (a b : Archive) (bytes : List Byte), a.encode = some bytes →
      b.files.keys = a.files.keys →
      ∃ c, decode b bytes = some c ∧ c.files.keys = a.files.keys ∧
        ∀ id, (c.files.get? id).map (·.data) = (a.files.get? id).map (·.data)) ∧
    (∀ (a : Archive) (chunks : List (List (List Byte))) (data : List (List Byte)),
      Cuts chunks data → a.files.size = data.length → data.length ≠ 1 → chunks.length ≤ 255 →
      (packChunks chunks).length < maxArray →
      ∃ c, decode a (packChunks chunks) = some c ∧ c.files.keys = a.files.keys ∧
        c.files.values.map (·.data) = data) := by
  refine ⟨fun a => encode_isSome, ?_, ?_⟩
  · intro a b bytes h hkeys
    obtain ⟨data, hlen, hdata, hdecode⟩ := decode_packed h hkeys
    have hset : (setData b.files data).keys = a.files.keys := (keys_setData hlen).trans hkeys
    refine ⟨_, hdecode, hset, get?_map_eq _ hset ?_⟩
    rw [data_setData hlen, hdata]
  · intro a chunks data hcuts hsize hmany hchunks hlimit
    exact ⟨_, decode_packChunks hcuts hsize hmany hchunks hlimit, keys_setData hsize.symm,
      data_setData hsize.symm⟩

/-- Two files. -/
def twoFiles : Archive where
  files := (SortedMap.empty.insert 0 { data := [1] }).insert 5 { data := [2, 3, 4], name := 9 }

/-- Two files packed and unpacked, and cut into two chunks, one of whose parts is empty. -/
theorem decode_restores_twoFiles :
    (∃ bytes c, twoFiles.encode = some bytes ∧ decode twoFiles bytes = some c ∧
      c.files.keys = [0, 5]) ∧
    ∃ c, decode twoFiles (packChunks [[[1], [2, 3]], [[], [4]]]) = some c ∧
      c.files.values.map (·.data) = [[1], [2, 3, 4]] := by
  have hkeys : twoFiles.files.keys = [0, 5] := by decide
  have hcuts : Cuts [[[1], [2, 3]], [[], [4]]] [[1], [2, 3, 4]] := ⟨by decide, by decide⟩
  have hids : ∀ id ∈ twoFiles.files.keys, 0 ≤ id := by
    rw [hkeys]
    decide
  obtain ⟨hencode, hdecode, hchunks⟩ := decode_restores
  constructor
  · obtain ⟨bytes, hbytes⟩ := hencode twoFiles hids (by decide)
    obtain ⟨c, hc, hfiles, -⟩ := hdecode twoFiles twoFiles bytes hbytes rfl
    exact ⟨bytes, c, hbytes, hc, hfiles.trans hkeys⟩
  · obtain ⟨c, hc, -, hdata⟩ := hchunks twoFiles _ _ hcuts (by decide) (by decide) (by decide)
      (by decide)
    exact ⟨c, hc, hdata⟩

end RoundTrip

end Archive

end OpenNXT.Filesystem
