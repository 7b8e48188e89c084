import OpenNXT.Model.WorldList
import Mathlib.Data.List.ReduceOption

/-! A full reply carries the server's list, and a reply with counts brings an older one up to date. -/
namespace OpenNXT.Model
open Buffer Ext

namespace WorldList

/-- A list of worlds on the wire. -/
structure Valid (entries : List WorldListEntry) : Prop where
  inRange : ∀ e ∈ entries, e.InRange
  nodup : (entries.map WorldListEntry.id).Nodup

/-- Each entry lies at its id, and nothing else does. -/
structure IsTable (table : List (Option WorldListEntry)) (size : ℕ)
    (entries : List WorldListEntry) : Prop where
  length : table.length = size
  stored : ∀ e ∈ entries, table[e.id.toNat]? = some (some e)
  only : ∀ i e, table[i]? = some (some e) → e ∈ entries ∧ e.id.toNat = i

def sortById (entries : List WorldListEntry) : List WorldListEntry :=
  entries.mergeSort fun a b => a.id.toInt ≤ b.id.toInt

private theorem toInt_id_eq {e : WorldListEntry} (h : e.InRange) : e.id.toInt = e.id.toNat := by
  have hrange := h.id
  have hcond := BitVec.toInt_eq_toNat_cond e.id
  split_ifs at hcond <;> omega

section Table
variable {table : List (Option WorldListEntry)} {size : ℕ} {entries pre post : List WorldListEntry}
  {e : WorldListEntry}

private theorem IsTable.empty (size : ℕ) : IsTable (List.replicate size none) size [] where
  length := List.length_replicate
  stored e he := (List.not_mem_nil he).elim
  only i e h := by
    rw [List.getElem?_replicate] at h
    split_ifs at h
    cases h

/-- An id is known by its number. -/
private theorem toNat_id_ne {a b : WorldListEntry} (h : a.id ≠ b.id) : a.id.toNat ≠ b.id.toNat :=
  fun heq => h (BitVec.eq_of_toNat_eq heq)

private theorem IsTable.set (h : IsTable table size pre) (hlt : e.id.toNat < size)
    (hnew : e.id ∉ pre.map WorldListEntry.id) :
    IsTable (table.set e.id.toNat (some e)) size (pre ++ [e]) where
  length := by rw [List.length_set, h.length]
  stored x hx := by
    rcases List.mem_append.mp hx with hx | hx
    · have hne : e.id ≠ x.id := fun heq => hnew (heq ▸ List.mem_map_of_mem hx)
      rw [List.getElem?_set_ne (toNat_id_ne hne)]
      exact h.stored x hx
    · rw [List.mem_singleton.mp hx]
      exact List.getElem?_set_self (h.length ▸ hlt)
  only i x hx := by
    by_cases hi : e.id.toNat = i
    · subst hi
      rw [List.getElem?_set_self (h.length ▸ hlt)] at hx
      cases hx
      exact ⟨by simp, rfl⟩
    · rw [List.getElem?_set_ne hi] at hx
      obtain ⟨hmem, hid⟩ := h.only i x hx
      exact ⟨List.mem_append_left _ hmem, hid⟩

private theorem foldlM_storeEntry (h : IsTable table size pre)
    (hnodup : ((pre ++ post).map WorldListEntry.id).Nodup)
    (hlt : ∀ e ∈ post, e.id.toNat < size) : ∃ table',
    (post.map fun e => (e.id.toNat, e)).foldlM storeEntry table = some table' ∧
      IsTable table' size (pre ++ post) := by
  induction post generalizing pre table with
  | nil =>
    rw [List.append_nil]
    exact ⟨table, rfl, h⟩
  | cons e post ih =>
    have he := hlt e List.mem_cons_self
    have hnew : e.id ∉ pre.map WorldListEntry.id := by
      rw [List.map_append, List.map_cons, List.nodup_append] at hnodup
      intro hmem
      exact hnodup.2.2 _ hmem _ List.mem_cons_self rfl
    have hset := h.set he hnew
    have hcut : pre ++ e :: post = pre ++ [e] ++ post := List.append_cons pre e post
    rw [hcut] at hnodup ⊢
    obtain ⟨table', hfold, htable⟩ :=
      ih hset hnodup fun x hx => hlt x (List.mem_cons_of_mem _ hx)
    refine ⟨table', ?_, htable⟩
    rw [List.map_cons, List.foldlM_cons]
    unfold storeEntry at hfold ⊢
    rw [if_pos (h.length ▸ he)]
    exact hfold

/-- Entries that differ in the player count only. -/
def SameWorlds (old new : List WorldListEntry) : Prop :=
  List.Forall₂ (fun f e => f.fixed = e.fixed) old new

theorem sameWorlds_iff {old new : List WorldListEntry} :
    SameWorlds old new ↔ old.map WorldListEntry.fixed = new.map WorldListEntry.fixed := by
  rw [← List.forall₂_eq_eq_eq, List.forall₂_map_left_iff, List.forall₂_map_right_iff]
  rfl

private theorem id_of_fixed {f e : WorldListEntry} (h : f.fixed = e.fixed) : f.id = e.id := by
  have hid : f.fixed.id = e.fixed.id := congrArg WorldListEntry.id h
  exact hid

private theorem SameWorlds.map_id {old new : List WorldListEntry} (h : SameWorlds old new) :
    old.map WorldListEntry.id = new.map WorldListEntry.id := by
  induction h with
  | nil => rfl
  | cons hfixed _ ih => rw [List.map_cons, List.map_cons, id_of_fixed hfixed, ih]

private theorem update_fixed {f e : WorldListEntry} (h : f.fixed = e.fixed) :
    { f with playercount := e.playercount } = e := by
  have hset : ({ f.fixed with playercount := e.playercount } : WorldListEntry) =
      { e.fixed with playercount := e.playercount } := by rw [h]
  exact hset

private theorem IsTable.modify {f : WorldListEntry} (h : IsTable table size (pre ++ f :: post))
    (hnodup : ((pre ++ f :: post).map WorldListEntry.id).Nodup) (hfixed : f.fixed = e.fixed) :
    IsTable (table.modify e.id.toNat (Option.map fun x => { x with playercount := e.playercount }))
      size (pre ++ e :: post) := by
  have hid := id_of_fixed hfixed
  have hplace : table[e.id.toNat]? = some (some f) := by
    rw [← hid]
    exact h.stored f (by simp)
  have hself : (table.modify e.id.toNat
      (Option.map fun x => { x with playercount := e.playercount }))[e.id.toNat]? =
        some (some e) := by
    rw [List.getElem?_modify_eq, hplace]
    exact congrArg (fun x => some (some x)) (update_fixed hfixed)
  have hother : ∀ i, e.id.toNat ≠ i → (table.modify e.id.toNat
      (Option.map fun x => { x with playercount := e.playercount }))[i]? = table[i]? :=
    fun i hi => List.getElem?_modify_ne _ _ hi
  have hnew : ∀ x ∈ pre ++ post, e.id.toNat ≠ x.id.toNat := by
    intro x hx
    rw [← hid]
    apply toNat_id_ne
    intro heq
    have hperm : (pre ++ f :: post).Perm (f :: (pre ++ post)) := List.perm_middle
    have hcons := (hperm.map WorldListEntry.id).nodup_iff.mp hnodup
    rw [List.map_cons, List.nodup_cons] at hcons
    exact hcons.1 (heq ▸ List.mem_map_of_mem hx)
  constructor
  · rw [List.length_modify, h.length]
  · intro x hx
    rcases List.mem_append.mp hx with hx | hx
    · rw [hother _ (hnew x (List.mem_append_left _ hx))]
      exact h.stored x (List.mem_append_left _ hx)
    · rcases List.mem_cons.mp hx with rfl | hx
      · exact hself
      · rw [hother _ (hnew x (List.mem_append_right _ hx))]
        exact h.stored x (List.mem_append_right _ (List.mem_cons_of_mem _ hx))
  · intro i x hx
    by_cases hi : e.id.toNat = i
    · subst hi
      rw [hself] at hx
      cases hx
      exact ⟨by simp, rfl⟩
    · rw [hother i hi] at hx
      obtain ⟨hmem, hxi⟩ := h.only i x hx
      refine ⟨?_, hxi⟩
      rcases List.mem_append.mp hmem with hmem | hmem
      · exact List.mem_append_left _ hmem
      · rcases List.mem_cons.mp hmem with rfl | hmem
        · exact absurd (by rw [← hid, hxi]) hi
        · exact List.mem_append_right _ (List.mem_cons_of_mem _ hmem)

private theorem foldlM_storePlayercount {old new : List WorldListEntry}
    (hsame : SameWorlds old new) (h : IsTable table size (pre ++ old))
    (hnodup : ((pre ++ old).map WorldListEntry.id).Nodup) : ∃ table',
    (new.map fun e => (e.id.toNat, e.playercount)).foldlM storePlayercount table = some table' ∧
      IsTable table' size (pre ++ new) := by
  induction hsame generalizing pre table with
  | nil => exact ⟨table, rfl, h⟩
  | @cons f e old new hfixed _ ih =>
    have hmodify := h.modify hnodup hfixed
    have hplace : e.id.toNat < table.length := by
      rw [← id_of_fixed hfixed]
      have hstored := h.stored f (by simp)
      exact (List.getElem?_eq_some_iff.mp hstored).1
    -- The entry is replaced by one with the same id.
    have hnodup' : ((pre ++ [e] ++ old).map WorldListEntry.id).Nodup := by
      rw [← List.append_cons]
      simp only [List.map_append, List.map_cons] at hnodup ⊢
      rwa [← id_of_fixed hfixed]
    rw [List.append_cons] at hmodify
    obtain ⟨table', hfold, htable⟩ := ih hmodify hnodup'
    refine ⟨table', ?_, ?_⟩
    · rw [List.map_cons, List.foldlM_cons]
      unfold storePlayercount at hfold ⊢
      rw [if_pos hplace]
      exact hfold
    · rwa [← List.append_cons] at htable

private theorem pairwise_reduceOption (h : IsTable table size entries) :
    table.reduceOption.Pairwise fun a b => a.id.toNat < b.id.toNat := by
  unfold List.reduceOption
  rw [List.pairwise_filterMap, List.pairwise_iff_getElem]
  intro i j hi hj hij a ha b hb
  have hai := (h.only i a (by rw [List.getElem?_eq_getElem hi]; exact congrArg some ha)).2
  have hbj := (h.only j b (by rw [List.getElem?_eq_getElem hj]; exact congrArg some hb)).2
  omega

/-- The entries of a table are those that were stored, by their ids. -/
theorem IsTable.reduceOption (h : IsTable table size entries) (hvalid : Valid entries) :
    table.reduceOption = sortById entries := by
  have hmem : ∀ e, e ∈ table.reduceOption ↔ e ∈ entries := by
    intro e
    rw [List.reduceOption_mem_iff, List.mem_iff_getElem?]
    constructor
    · rintro ⟨i, hi⟩
      exact (h.only i e hi).1
    · intro he
      exact ⟨_, h.stored e he⟩
  have hsorted := pairwise_reduceOption h
  have hperm : table.reduceOption.Perm (sortById entries) := by
    have hnodup : table.reduceOption.Nodup := hsorted.imp fun hlt heq => by
      subst heq
      exact lt_irrefl _ hlt
    have hsame := (List.perm_ext_iff_of_nodup hnodup hvalid.nodup.of_map).mpr hmem
    exact hsame.trans (List.mergeSort_perm _ _).symm
  have hmerge : (sortById entries).Pairwise fun a b => a.id.toInt ≤ b.id.toInt := by
    have hpairwise : (sortById entries).Pairwise fun a b => decide (a.id.toInt ≤ b.id.toInt) = true :=
      List.pairwise_mergeSort (fun a b c hab hbc => by simp only [decide_eq_true_eq] at *; omega)
        (fun a b => by simp only [Bool.or_eq_true, decide_eq_true_eq]; omega) entries
    exact hpairwise.imp fun hle => by simpa using hle
  have hfound : table.reduceOption.Pairwise fun a b => a.id.toInt ≤ b.id.toInt := by
    apply hsorted.imp_of_mem
    intro a b ha hb hlt
    rw [toInt_id_eq (hvalid.inRange a ((hmem a).mp ha)),
      toInt_id_eq (hvalid.inRange b ((hmem b).mp hb))]
    exact_mod_cast hlt.le
  refine List.Perm.eq_of_pairwise ?_ hfound hmerge hperm
  intro a b ha hb hab hba
  have ha' := (hmem a).mp ha
  have hb' : b ∈ entries := (List.mergeSort_perm entries _).mem_iff.mp hb
  have hid : a.id = b.id := BitVec.eq_of_toInt_eq (le_antisymm hab hba)
  exact List.inj_on_of_nodup_map hvalid.nodup ha' hb' hid

end Table

section Body
variable {entries : List WorldListEntry}

theorem mem_uniqueLocations {l : WorldListLocation} :
    l ∈ uniqueLocations entries ↔ ∃ e ∈ entries, e.location = l := by
  have hfold : ∀ (entries : List WorldListEntry) (seen : List WorldListLocation),
      l ∈ entries.foldl (fun locations e =>
        if e.location ∈ locations then locations else locations ++ [e.location]) seen ↔
      l ∈ seen ∨ ∃ e ∈ entries, e.location = l := by
    intro entries
    induction entries with
    | nil => simp
    | cons e entries ih =>
      intro seen
      rw [List.foldl_cons, ih]
      split_ifs with hmem
      · constructor
        · rintro (hl | ⟨x, hx, hl⟩)
          · exact Or.inl hl
          · exact Or.inr ⟨x, List.mem_cons_of_mem _ hx, hl⟩
        · rintro (hl | ⟨x, hx, hl⟩)
          · exact Or.inl hl
          · rcases List.mem_cons.mp hx with rfl | hx
            · exact Or.inl (hl ▸ hmem)
            · exact Or.inr ⟨x, hx, hl⟩
      · simp [eq_comm, or_assoc]
  have h := hfold entries []
  unfold uniqueLocations
  rw [h]
  simp

private theorem minId_eq (hvalid : Valid entries) : minId entries = 0 := by
  have hfold : ∀ (entries : List WorldListEntry) (start : ℤ), 0 ≤ start →
      (∀ e ∈ entries, 0 ≤ e.id.toInt) →
      0 ≤ entries.foldl (fun low e => if e.id.toInt < low then e.id.toInt else low) start := by
    intro entries
    induction entries with
    | nil => exact fun start hstart _ => hstart
    | cons e entries ih =>
      intro start hstart hall
      rw [List.foldl_cons]
      apply ih
      · split_ifs
        · exact hall e List.mem_cons_self
        · exact hstart
      · exact fun x hx => hall x (List.mem_cons_of_mem _ hx)
  unfold minId
  split_ifs
  · rfl
  · apply min_eq_left
    exact hfold entries _ (by norm_num) fun e he => (hvalid.inRange e he).id.1

private theorem maxId_spec (hvalid : Valid entries) :
    (0 ≤ maxId entries ∧ maxId entries ≤ 32767) ∧ ∀ e ∈ entries, e.id.toInt ≤ maxId entries := by
  have hfold : ∀ (entries : List WorldListEntry) (start : ℤ), start ≤ 32767 →
      (∀ e ∈ entries, e.id.toInt ≤ 32767) →
      let high := entries.foldl (fun high e => if high < e.id.toInt then e.id.toInt else high) start
      start ≤ high ∧ high ≤ 32767 ∧ ∀ e ∈ entries, e.id.toInt ≤ high := by
    intro entries
    induction entries with
    | nil => simp
    | cons e entries ih =>
      intro start hstart hall
      have he := hall e List.mem_cons_self
      obtain ⟨hstart', he', hnext⟩ : start ≤ (if start < e.id.toInt then e.id.toInt else start) ∧
          e.id.toInt ≤ (if start < e.id.toInt then e.id.toInt else start) ∧
          (if start < e.id.toInt then e.id.toInt else start) ≤ 32767 := by
        split_ifs <;> omega
      obtain ⟨hlow, hhigh, hrest⟩ := ih _ hnext fun x hx => hall x (List.mem_cons_of_mem _ hx)
      simp only [List.foldl_cons]
      refine ⟨hstart'.trans hlow, hhigh, ?_⟩
      intro x hx
      rcases List.mem_cons.mp hx with rfl | hx
      · exact he'.trans hlow
      · exact hrest x hx
  unfold maxId
  split_ifs with hnil
  · subst hnil
    simp
  · obtain ⟨-, hhigh, hall⟩ := hfold entries (-0x80000000) (by norm_num)
      fun e he => (hvalid.inRange e he).id.2
    obtain ⟨e, he⟩ := List.exists_mem_of_ne_nil entries hnil
    refine ⟨⟨?_, hhigh⟩, hall⟩
    exact (hvalid.inRange e he).id.1.trans (hall e he)

private theorem map_id_fixed (entries : List WorldListEntry) :
    (entries.map WorldListEntry.fixed).map WorldListEntry.id = entries.map WorldListEntry.id := by
  rw [List.map_map]
  rfl

/-- What is read is stored at its ids. -/
private theorem store_entries (hvalid : Valid entries) : ∃ table,
    (entries.map fun e => (e.id.toNat, e.fixed)).foldlM storeEntry
        (List.replicate ((maxId entries).toNat + 1) none) = some table ∧
      IsTable table ((maxId entries).toNat + 1) (entries.map WorldListEntry.fixed) := by
  have hnodup : (([] ++ entries.map WorldListEntry.fixed).map WorldListEntry.id).Nodup := by
    rw [List.nil_append, map_id_fixed]
    exact hvalid.nodup
  have hlt : ∀ e ∈ entries.map WorldListEntry.fixed, e.id.toNat < (maxId entries).toNat + 1 := by
    intro e he
    obtain ⟨x, hx, rfl⟩ := List.mem_map.mp he
    have hmax := (maxId_spec hvalid).2 x hx
    rw [toInt_id_eq (hvalid.inRange x hx)] at hmax
    change x.id.toNat < _
    omega
  obtain ⟨table, hfold, htable⟩ := foldlM_storeEntry (IsTable.empty _) hnodup hlt
  rw [List.map_map] at hfold
  exact ⟨table, hfold, htable⟩

/-- The body of a full reply is read as the worlds of the list. -/
theorem reads_body (checksum : Word) (hvalid : Valid entries)
    (hlocations : (uniqueLocations entries).length ≤ 256) (hsize : entries.length ≤ 32767) :
    ∃ bytes table, writeBody entries checksum = some bytes ∧
      (∀ w : WorldList, Reads w.decodeBody bytes { w with
        lowestEntry := 0, highestEntry := (maxId entries).toNat, entryCount := entries.length
        unsortedEntries := table, checksum := checksum }) ∧
      IsTable table ((maxId entries).toNat + 1) (entries.map WorldListEntry.fixed) := by
  have hmax := (maxId_spec hvalid).1
  obtain ⟨count, hcount⟩ :=
    writeSmartShort_some (v := (uniqueLocations entries).length) ⟨by omega, by omega⟩
  obtain ⟨low, hlow⟩ := writeSmartShort_some (v := 0) ⟨le_rfl, by norm_num⟩
  obtain ⟨high, hhigh⟩ := writeSmartShort_some hmax
  obtain ⟨size, hsize'⟩ := writeSmartShort_some (v := entries.length) ⟨by omega, by omega⟩
  obtain ⟨locations, hwriteLocations, hreadLocations⟩ :=
    Reads.times (f := id) (uniqueLocations entries) fun l hl => by
      obtain ⟨e, he, rfl⟩ := mem_uniqueLocations.mp hl
      exact reads_location (hvalid.inRange e he).location
  obtain ⟨worlds, hwriteWorlds, hreadWorlds⟩ := Reads.times entries fun e he =>
    reads_entry (hvalid.inRange e he) (mem_uniqueLocations.mpr ⟨e, he, rfl⟩) hlocations
  obtain ⟨table, hstore, htable⟩ := store_entries hvalid
  refine ⟨count ++ (locations.flatten ++ (low ++ (high ++ (size ++ (worlds.flatten ++
    writeInt checksum))))), table, ?_, ?_, htable⟩
  · unfold writeBody
    rw [minId_eq hvalid, hcount, hwriteLocations, hlow, hhigh, hsize', hwriteWorlds]
    rfl
  · intro w
    rw [List.map_id] at hreadLocations
    have hreadCount := reads_smartShort hcount
    have hreadSize := reads_smartShort hsize'
    rw [Int.toNat_natCast] at hreadCount hreadSize
    apply Reads.bind hreadCount
    apply Reads.bind hreadLocations
    apply Reads.bind (reads_smartShort hlow)
    apply Reads.bind (reads_smartShort hhigh)
    apply Reads.bind hreadSize
    have hnulls : arrayOfNulls (0 : ℤ).toNat (maxId entries).toNat =
        some (List.replicate ((maxId entries).toNat + 1) none) := by
      unfold arrayOfNulls
      rw [if_neg (by omega)]
      rfl
    rw [← List.nil_append (worlds.flatten ++ _)]
    apply Reads.bind (Reads.ofOption hnulls)
    apply Reads.bind hreadWorlds
    rw [← List.nil_append (writeInt checksum)]
    apply Reads.bind (Reads.ofOption hstore)
    exact (reads_int checksum).map fun checksum : Word => { w with
      lowestEntry := 0, highestEntry := (maxId entries).toNat, entryCount := entries.length
      unsortedEntries := table, checksum := checksum }

/-- The counts of a reply bring a table of the same worlds up to date. -/
theorem reads_counts {start : List (Option WorldListEntry)} {size : ℕ} {old : List WorldListEntry}
    (hvalid : Valid entries) (hsame : SameWorlds old entries) (htable : IsTable start size old) :
    ∃ bytes table, writePlayercounts entries = some bytes ∧
      (∀ w : WorldList, w.unsortedEntries = start → w.entryCount = entries.length →
        Reads w.updateBody bytes { w with unsortedEntries := table }) ∧
      IsTable table size entries := by
  obtain ⟨counts, hwrite, hread⟩ := Reads.times entries fun e he =>
    reads_playercount (hvalid.inRange e he)
  have hnodup : (([] ++ old).map WorldListEntry.id).Nodup := by
    rw [List.nil_append, hsame.map_id]
    exact hvalid.nodup
  have hstart : IsTable start size ([] ++ old) := htable
  obtain ⟨table, hfold, hnew⟩ := foldlM_storePlayercount hsame hstart hnodup
  refine ⟨counts.flatten, table, ?_, ?_, hnew⟩
  · unfold writePlayercounts
    rw [hwrite]
    rfl
  · intro w hstored hcount
    rw [← hcount] at hread
    rw [← hstored] at hfold
    rw [← List.append_nil counts.flatten]
    apply Reads.bind hread
    exact (Reads.ofOption hfold).map fun table => { w with unsortedEntries := table }

end Body

end WorldList

end OpenNXT.Model
