import Mathlib.Data.List.AList
import OpenNXT.Data.Decimal
import OpenNXT.Data.Traversal
import OpenNXT.Model.InterfaceHash
import OpenNXT.Resources.EnumFilesystemCodec

/-! Enums as text. -/
namespace OpenNXT.Resources
open Buffer Data Model Decimal

namespace ScriptVarType

/-- A component, as it is shown. -/
def bracketed (h : InterfaceHash) : List Char :=
  '[' :: (print h.parent.toInt ++ ',' :: ' ' :: (print h.component.toInt ++ [']']))

/-- `none` is a string where the type has none. -/
def rawToReadable (t : ScriptVarType) : ScriptValue → Option ScriptValue
  | .string id => if t.type = .string then some (.string id) else none
  | .int id => if t = .component then some (.string (bracketed ⟨id⟩)) else some (.int id)

/-- `none` is a part that is no number, or one that is missing. -/
def bracketedToRaw (string : List Char) : Option ScriptValue :=
  match string.tail.dropLast.splitOn ',' with
  | upper :: lower :: _ => do
    let parent ← parseInt 32 upper
    let component ← parseInt 32 lower
    return .int (InterfaceHash.ofParts parent component).hash
  | _ => none

/-- `none` is text that is no number. -/
def readableToRaw (t : ScriptVarType) (string : List Char) : Option ScriptValue :=
  if t.type = .string then some (.string string)
  else if t = .component then
    if string.length < 3 then (parseInt 32 string).map .int
    else if string.head? ≠ some '[' ∧ string.getLast? ≠ some ']' then
      (parseInt 32 string).map .int
    else bracketedToRaw string
  else (parseInt 32 string).map .int

end ScriptVarType

namespace ScriptValue

def asInt : ScriptValue → Option Word
  | int v => some v
  | string _ => none

/-- `toString()`. -/
def text : ScriptValue → List Char
  | int v => print v.toInt
  | string s => s

end ScriptValue

namespace EnumDiskCodec
open ScriptVarType

/-- The file, with the texts of its numbers and of its values. -/
structure EnumFile where
  keyType : ScriptVarType
  valueType : ScriptVarType
  defaultInt : List Char
  defaultString : Option (List Char)
  values : List (List Char × List Char)

def readableEntry (data : EnumDefinition) (e : ℤ × ScriptValue) :
    Option (ScriptValue × ScriptValue) := do
  let readableKey ← data.keyType.rawToReadable (.int (BitVec.ofInt 32 e.1))
  let readableValue ← data.valueType.rawToReadable e.2
  return (readableKey, readableValue)

/-- The table that is written. -/
def store (data : EnumDefinition) : Option (AList fun _ : ScriptValue => ScriptValue) := do
  let entries ← data.values.entries.mapM (readableEntry data)
  return entries.foldl (fun values e => values.insert e.1 e.2) ∅

/-- What is read of the file; `order` is the one of the table's entries. -/
def written (data : EnumDefinition) (order : List (ScriptValue × ScriptValue)) : EnumFile where
  keyType := data.keyType
  valueType := data.valueType
  defaultInt := print data.defaultInt.toInt
  defaultString := data.defaultString
  values := order.map fun e => (e.1.text, e.2.text)

def rawEntry (keyType valueType : ScriptVarType) (e : List Char × List Char) :
    Option (ℤ × ScriptValue) := do
  let rawKey ← (keyType.readableToRaw e.1).bind ScriptValue.asInt
  let rawValue ← valueType.readableToRaw e.2
  return (rawKey.toInt, rawValue)

/-- `none` is an exception; "string as key type" is one. -/
def load (file : EnumFile) : Option EnumDefinition :=
  if file.keyType = .string then none
  else do
    let defaultInt ← (file.keyType.readableToRaw file.defaultInt).bind ScriptValue.asInt
    let entries ← file.values.mapM (rawEntry file.keyType file.valueType)
    return {
      keyType := file.keyType
      valueType := file.valueType
      defaultInt := defaultInt
      defaultString := file.defaultString
      values := entries.foldl (fun values e => values.insert e.1 e.2) .empty }

/-- A map of ints to values of a type, which is one of ints or of strings. -/
structure OfKind (d : EnumDefinition) : Prop where
  keyType : d.keyType ≠ .string
  base : d.valueType.type = .string ∨ d.valueType.type = .integer
  keys : ∀ k ∈ d.values.keys, -2 ^ 31 ≤ k ∧ k < 2 ^ 31
  typed : ∀ v ∈ d.values.values, d.valueType.type = if v.isString then .string else .integer

/-- The map is stored without one key for two, and loaded as it was. -/
def Converts (d : EnumDefinition) : Prop :=
  ∃ table, store d = some table ∧ table.entries.length = d.values.size ∧
    ∀ order, order.Perm (table.entries.map fun e => (e.1, e.2)) →
      (load (written d order)).map EnumDefinition.values = some d.values

section Values
variable {t : ScriptVarType}

theorem type_eq_string (h : t.type = .string) : t = .string := by
  cases t <;> first | rfl | cases h

/-- A number converts back, unless it is shown as a component. -/
theorem readableToRaw_print (ht : t ≠ .string) (v : Word) :
    t.readableToRaw (print v.toInt) = some (.int v) := by
  have hparse : (parseInt 32 (print v.toInt)).map ScriptValue.int = some (.int v) := by
    rw [parseInt_print, Option.map_some]
  have hhead : (print v.toInt).head? ≠ some '[' := by
    intro h
    rcases mem_print (List.mem_of_mem_head? h) with h | h <;> cases h
  have hlast : (print v.toInt).getLast? ≠ some ']' := by
    intro h
    rcases mem_print (List.mem_of_getLast? h) with h | h <;> cases h
  rw [readableToRaw, if_neg (mt type_eq_string ht)]
  split_ifs with hcomponent hlength hbracket
  · exact hparse
  · exact hparse
  · exact absurd ⟨hhead, hlast⟩ hbracket
  · exact hparse

theorem comma_not_mem_print {v : ℤ} : ',' ∉ print v := by
  intro hmem
  rcases mem_print hmem with hc | hc <;> cases hc

theorem splitOn_halves (upper : ℤ) {lower : List Char} (h : ',' ∉ lower) :
    ('[' :: (print upper ++ ',' :: (lower ++ [']']))).tail.dropLast.splitOn ',' =
      [print upper, lower] := by
  have hsplit : print upper ++ ',' :: (lower ++ [']']) = (print upper ++ ',' :: lower) ++ [']'] := by
    simp
  rw [List.tail_cons, hsplit, List.dropLast_concat, List.splitOn_append_cons_self,
    List.splitOn_eq_singleton comma_not_mem_print, List.splitOn_eq_singleton h]
  rfl

/-- A component would be read back without the space. -/
theorem bracketedToRaw_parts (h : InterfaceHash) :
    bracketedToRaw ('[' :: (print h.parent.toInt ++ ',' :: (print h.component.toInt ++ [']']))) =
      some (.int h.hash) := by
  rw [bracketedToRaw, splitOn_halves _ comma_not_mem_print]
  dsimp only
  rw [parseInt_print, parseInt_print]
  exact congrArg (fun h : InterfaceHash => some (ScriptValue.int h.hash))
    h.ofParts_parent_component

/-- The space in front of the lower half makes it no number. -/
theorem readableToRaw_bracketed (h : InterfaceHash) :
    ScriptVarType.component.readableToRaw (bracketed h) = none := by
  have hspace : parseInt 32 (' ' :: print h.component.toInt) = none := by
    rw [parseInt, parse_eq_none (by decide) (by decide) (by decide +kernel), Option.bind_none]
  have hlow : ',' ∉ ' ' :: print h.component.toInt := by
    rw [List.mem_cons, not_or]
    exact ⟨by decide, comma_not_mem_print⟩
  have hraw : bracketedToRaw (bracketed h) = none := by
    have hsplit := splitOn_halves h.parent.toInt hlow
    rw [List.cons_append] at hsplit
    rw [bracketedToRaw, bracketed, hsplit]
    dsimp only
    rw [hspace, parseInt_print]
    rfl
  rw [readableToRaw, if_neg (by decide), if_pos rfl, if_neg, if_neg, hraw]
  · rintro ⟨hhead, -⟩
    exact hhead rfl
  · have hpos := List.length_pos_of_ne_nil (print_ne_nil h.parent.toInt)
    rw [bracketed, List.length_cons, List.length_append, List.length_cons, List.length_cons]
    omega

end Values

section Tables
variable {α β : Type} [DecidableEq α] {es : List (α × β)}

/-- Entries of different keys are all in the table. -/
theorem perm_foldl_insert (s : AList fun _ : α => β) (h : (es.map Prod.fst).Nodup)
    (hs : ∀ e ∈ es, e.1 ∉ s) :
    ((es.foldl (fun s e => s.insert e.1 e.2) s).entries.map fun e => (e.1, e.2)).Perm
      (es ++ s.entries.map fun e => (e.1, e.2)) := by
  induction es generalizing s with
  | nil => exact List.Perm.refl _
  | cons e es ih =>
    rw [List.map_cons, List.nodup_cons] at h
    have hnew : ∀ d ∈ es, d.1 ∉ s.insert e.1 e.2 := by
      intro d hd hmem
      rcases (AList.mem_insert _).mp hmem with heq | hmem
      · exact h.1 (heq ▸ List.mem_map_of_mem hd)
      · exact hs d (List.mem_cons_of_mem e hd) hmem
    refine (ih _ h.2 hnew).trans ?_
    rw [AList.entries_insert_of_notMem (hs e List.mem_cons_self)]
    exact List.perm_middle

/-- An entry of the table is one that was put. -/
theorem mem_of_mem_foldl_insert {s : AList fun _ : α => β} {e : Σ _ : α, β}
    (h : e ∈ (es.foldl (fun s e => s.insert e.1 e.2) s).entries) :
    (e.1, e.2) ∈ es ∨ e ∈ s.entries := by
  induction es generalizing s with
  | nil => exact .inr h
  | cons d es ih =>
    rcases ih h with hmem | hmem
    · exact .inl (List.mem_cons_of_mem d hmem)
    · rw [AList.entries_insert] at hmem
      rcases List.mem_cons.mp hmem with rfl | hmem
      · exact .inl List.mem_cons_self
      · exact .inr ((List.kerase_sublist _ _).subset hmem)

end Tables

section Definitions
variable {d : EnumDefinition}

theorem toInt_key {k : ℤ} (h : -2 ^ 31 ≤ k ∧ k < 2 ^ 31) : (BitVec.ofInt 32 k).toInt = k := by
  rw [BitVec.toInt_ofInt, Int.bmod_eq_of_le (by omega) (by omega)]

/-- The entry as it is in the table. -/
def shownEntry (e : ℤ × ScriptValue) : ScriptValue × ScriptValue :=
  (.int (BitVec.ofInt 32 e.1), e.2)

theorem rawToReadable_typed {t : ScriptVarType} {v : ScriptValue} (ht : t ≠ .component)
    (hv : t.type = if v.isString then .string else .integer) : t.rawToReadable v = some v := by
  cases v with
  | int v => rw [rawToReadable, if_neg ht]
  | string s =>
    have hstring : t.type = .string := hv
    rw [rawToReadable, if_pos hstring]

theorem readableToRaw_text {t : ScriptVarType} {v : ScriptValue}
    (hv : t.type = if v.isString then .string else .integer) :
    t.readableToRaw v.text = some v := by
  cases v with
  | int v =>
    refine readableToRaw_print ?_ v
    rintro rfl
    cases hv
  | string s =>
    have hstring : t.type = .string := hv
    rw [readableToRaw, if_pos hstring, ScriptValue.text]

theorem shown_component {v r : ScriptValue} (h : ScriptVarType.component.rawToReadable v = some r) :
    ScriptVarType.component.readableToRaw r.text = none := by
  cases v with
  | int v =>
    rw [rawToReadable, if_pos rfl] at h
    cases h
    exact readableToRaw_bracketed ⟨v⟩
  | string s => cases h

/-- Each entry is read from its texts, in the order of the table. -/
theorem load_written (hkey : d.keyType ≠ .string) (order : List (ScriptValue × ScriptValue)) :
    load (written d order) =
      (order.mapM fun p => rawEntry d.keyType d.valueType (p.1.text, p.2.text)).map fun entries =>
        { d with values := entries.foldl (fun values e => values.insert e.1 e.2) .empty } := by
  have hmap : (written d order).values.mapM
      (rawEntry (written d order).keyType (written d order).valueType) =
        order.mapM fun p => rawEntry d.keyType d.valueType (p.1.text, p.2.text) := List.mapM_map
  have hdefault : ((written d order).keyType.readableToRaw (written d order).defaultInt).bind
      ScriptValue.asInt = some d.defaultInt := by
    rw [written, readableToRaw_print hkey]
    rfl
  have hstring : (written d order).keyType ≠ .string := hkey
  rw [load, if_neg hstring, hmap, hdefault]
  cases order.mapM fun p => rawEntry d.keyType d.valueType (p.1.text, p.2.text) <;> rfl

theorem mapM_shown (hd : OfKind d) (hkey : d.keyType ≠ .component)
    (hvalue : d.valueType ≠ .component) :
    d.values.entries.mapM (readableEntry d) = some (d.values.entries.map shownEntry) := by
  apply mapM_eq_map
  intro e he
  rw [readableEntry, rawToReadable, if_neg hkey,
    rawToReadable_typed hvalue (hd.typed e.2 (List.mem_map_of_mem he))]
  rfl

theorem nodup_shown (hd : OfKind d) : ((d.values.entries.map shownEntry).map Prod.fst).Nodup := by
  rw [List.map_map]
  refine List.Nodup.map_on ?_ (d.values.sorted.imp fun h heq => h.ne (congrArg Prod.fst heq))
  intro a ha b hb heq
  have hsame := congrArg BitVec.toInt (ScriptValue.int.inj heq)
  rw [toInt_key (hd.keys a.1 (List.mem_map_of_mem ha)),
    toInt_key (hd.keys b.1 (List.mem_map_of_mem hb))] at hsame
  have hvalues := SortedMap.get?_eq_some.mpr ha
  rw [hsame, SortedMap.get?_eq_some.mpr hb] at hvalues
  exact Prod.ext hsame (Option.some.inj hvalues).symm

/-- Without components the map converts back. -/
theorem converts_of_ne (hd : OfKind d) (hkey : d.keyType ≠ .component)
    (hvalue : d.valueType ≠ .component) : Converts d := by
  have hperm := perm_foldl_insert ∅ (nodup_shown hd) fun e _ => AList.notMem_empty e.1
  rw [AList.empty_entries, List.map_nil, List.append_nil] at hperm
  refine ⟨_, by rw [store, mapM_shown hd hkey hvalue]; rfl, ?_, ?_⟩
  · have hlength := hperm.length_eq
    rwa [List.length_map, List.length_map] at hlength
  · intro order horder
    have horder' := horder.trans hperm
    -- Each entry that is read is one of the map, whatever the order.
    have hraw : (order.mapM fun p => rawEntry d.keyType d.valueType (p.1.text, p.2.text)) =
        some (order.map fun p => ((p.1.asInt.getD 0).toInt, p.2)) := by
      apply mapM_eq_map
      intro p hp
      obtain ⟨e, he, rfl⟩ := List.mem_map.mp (horder'.mem_iff.mp hp)
      rw [rawEntry, shownEntry, ScriptValue.text, readableToRaw_print hd.keyType,
        readableToRaw_text (hd.typed e.2 (List.mem_map_of_mem he))]
      rfl
    have hback : (order.map fun p => ((p.1.asInt.getD 0).toInt, p.2)).Perm d.values.entries := by
      refine (horder'.map _).trans (List.Perm.of_eq ?_)
      rw [List.map_map]
      refine (List.map_congr_left fun e he => ?_).trans (List.map_id _)
      exact Prod.ext (toInt_key (hd.keys e.1 (List.mem_map_of_mem he))) rfl
    rw [load_written hd.keyType, hraw]
    exact congrArg some (SortedMap.foldl_insert_perm hback)

/-- A component that was shown is not read. -/
theorem rawEntry_shown {source : ℤ × ScriptValue} {p : ScriptValue × ScriptValue}
    (hcomponent : d.keyType = .component ∨ d.valueType = .component)
    (h : readableEntry d source = some p) :
    rawEntry d.keyType d.valueType (p.1.text, p.2.text) = none := by
  obtain ⟨key, hkey, h⟩ := Option.bind_eq_some_iff.mp h
  obtain ⟨value, hvalue, h⟩ := Option.bind_eq_some_iff.mp h
  cases h
  rw [rawEntry]
  rcases hcomponent with hcomponent | hcomponent
  · rw [hcomponent] at hkey
    rw [hcomponent, shown_component hkey]
    rfl
  · rw [hcomponent] at hvalue
    rw [hcomponent, shown_component hvalue]
    cases (d.keyType.readableToRaw key.text).bind ScriptValue.asInt <;> rfl

/-- No component is read back. -/
theorem not_converts_component (hkey : d.keyType ≠ .string) (hne : d.values.entries ≠ [])
    (hcomponent : d.keyType = .component ∨ d.valueType = .component) : ¬ Converts d := by
  rintro ⟨table, hstore, hsize, hload⟩
  obtain ⟨entries, hreadable, htable⟩ := Option.bind_eq_some_iff.mp hstore
  obtain ⟨e, he⟩ : ∃ e, e ∈ table.entries := by
    apply List.exists_mem_of_length_pos
    rw [hsize]
    exact List.length_pos_of_ne_nil hne
  cases htable
  obtain hmem | hmem := mem_of_mem_foldl_insert he
  · obtain ⟨source, -, hsource⟩ := exists_of_mem_mapM hreadable hmem
    have hnone := hload _ (List.Perm.refl _)
    rw [load_written hkey,
      mapM_eq_none (List.mem_map_of_mem he) (rawEntry_shown hcomponent hsource)] at hnone
    cases hnone
  · cases hmem

/-- A map converts back just where it shows no component. -/
theorem converts_iff (hd : OfKind d) :
    Converts d ↔
      d.values.entries = [] ∨ (d.keyType ≠ .component ∧ d.valueType ≠ .component) := by
  constructor
  · intro h
    by_contra hnot
    obtain ⟨hne, hcomponent⟩ := not_or.mp hnot
    rw [not_and_or, not_not, not_not] at hcomponent
    exact not_converts_component hd.keyType hne hcomponent h
  · rintro (hempty | ⟨hkey, hvalue⟩)
    · refine ⟨∅, by rw [store, hempty]; rfl, by rw [SortedMap.size, hempty]; rfl, ?_⟩
      intro order horder
      cases List.perm_nil.mp horder
      rw [load_written hd.keyType]
      exact congrArg some (SortedMap.ext hempty.symm)
    · exact converts_of_ne hd hkey hvalue

theorem converts_negative : Converts { values := SortedMap.empty.insert (-5) (.int 7) } := by
  refine (converts_iff ⟨by decide, .inr rfl, ?_, ?_⟩).mpr (.inr ⟨by decide, by decide⟩)
  · intro k hk
    rw [List.mem_singleton.mp hk]
    omega
  · intro v hv
    rw [List.mem_singleton.mp hv]
    rfl

/-- The component 0 of interface 0. -/
theorem not_converts_zero :
    ¬ Converts { valueType := .component, values := SortedMap.empty.insert 0 (.int 0) } :=
  not_converts_component (by decide) (List.cons_ne_nil _ _) (.inr rfl)

end Definitions

end EnumDiskCodec

end OpenNXT.Resources
