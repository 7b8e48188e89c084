import OpenNXT.Memory.Heap
import OpenNXT.Util.ISAACCipher

/-! The generator as an object with two arrays, whose peek generates into those of a second one. -/
namespace OpenNXT.Util
open Buffer Memory

namespace ISAACCipher

structure Fields where
  count : ℤ := 0
  results : Ref
  memory : Ref
  a : Word := 0
  b : Word := 0
  c : Word := 0

abbrev Java := Run Fields Word

namespace Object

/-- The five statements behind each shift of the accumulator. -/
def isaacGroup (o : Ref) (mix : Word → Word) (i j : ℕ) : Java Unit := do
  let f ← fields o
  let x ← load f.memory i
  setFields o fun f => { f with a := mix f.a }
  let word ← load f.memory j
  setFields o fun f => { f with a := f.a + word }
  let f ← fields o
  let looked ← load f.memory ((x &&& mask).sshiftRight 2).toInt
  let y := looked + f.a + f.b
  store f.memory i y
  let again ← load f.memory ((y.sshiftRight 8 &&& mask).sshiftRight 2).toInt
  setFields o fun f => { f with b := again + x }
  store f.results i (again + x)

def isaacRound (o : Ref) (i j : ℕ) : Java Unit := do
  isaacGroup o (fun a => a ^^^ (a <<< 13)) i j
  isaacGroup o (fun a => a ^^^ (a >>> 6)) (i + 1) (j + 1)
  isaacGroup o (fun a => a ^^^ (a <<< 2)) (i + 2) (j + 2)
  isaacGroup o (fun a => a ^^^ (a >>> 16)) (i + 3) (j + 3)

/-- The loop up to the middle of the tables, with the `i` it ends at. -/
def isaacFirst (o : Ref) (i j : ℕ) : Java ℕ :=
  if i < 128 then do
    isaacRound o i j
    isaacFirst o (i + 4) (j + 4)
  else pure i
termination_by 128 - i

def isaacSecond (o : Ref) (i j : ℕ) : Java Unit :=
  if j < 128 then do
    isaacRound o i j
    isaacSecond o (i + 4) (j + 4)
  else pure ()
termination_by 128 - j

def isaac (o : Ref) : Java Unit := do
  setFields o fun f => { f with c := f.c + 1 }
  setFields o fun f => { f with b := f.b + f.c }
  let i ← isaacFirst o 0 128
  isaacSecond o i 0

def addFrom (m : Mixer) (t : Ref) (i : ℕ) : Java Mixer := do
  let a ← load t i
  let b ← load t (i + 1 : ℕ)
  let c ← load t (i + 2 : ℕ)
  let d ← load t (i + 3 : ℕ)
  let e ← load t (i + 4 : ℕ)
  let f ← load t (i + 5 : ℕ)
  let g ← load t (i + 6 : ℕ)
  let h ← load t (i + 7 : ℕ)
  return ⟨m.a + a, m.b + b, m.c + c, m.d + d, m.e + e, m.f + f, m.g + g, m.h + h⟩

def storeTo (m : Mixer) (t : Ref) (i : ℕ) : Java Unit := do
  store t i m.a
  store t (i + 1 : ℕ) m.b
  store t (i + 2 : ℕ) m.c
  store t (i + 3 : ℕ) m.d
  store t (i + 4 : ℕ) m.e
  store t (i + 5 : ℕ) m.f
  store t (i + 6 : ℕ) m.g
  store t (i + 7 : ℕ) m.h

/-- What a pass mixes in where `source` is given. -/
def mixFrom (source : Option Ref) (m : Mixer) (i : ℕ) : Java Mixer :=
  match source with
  | some t => addFrom m t i
  | none => pure m

/-- A pass over `target` in steps of eight. -/
def initLoop (source : Option Ref) (target : Ref) (m : Mixer) (i : ℕ) : Java Mixer :=
  if i < 256 then do
    let m ← mixFrom source m i
    storeTo m.scramble target i
    initLoop source target m.scramble (i + 8)
  else pure m
termination_by 256 - i

def init (o : Ref) (flag : Bool) : Java Unit := do
  let f ← fields o
  let m := ({} : Mixer).scramble.scramble.scramble.scramble
  let m ← initLoop (if flag then some f.results else none) f.memory m 0
  if flag then
    let _ ← initLoop (some f.memory) f.memory m 0
  isaac o
  setFields o fun f => { f with count := 256 }

/-- The field initialisers allocate both arrays. -/
def construct (seed : Ref) : Java Ref := do
  let results ← newArray (List.replicate 256 0)
  let memory ← newArray (List.replicate 256 0)
  let o ← newObject { results := results, memory := memory }
  let n ← length seed
  (List.range n).forM fun i => do
    let x ← load seed i
    store results i x
  init o true
  return o

def getNextValue (o : Ref) : Java Word := do
  let f ← fields o
  setFields o fun f => { f with count := f.count - 1 }
  if f.count = 0 then
    isaac o
    setFields o fun f => { f with count := 256 - 1 }
  let f ← fields o
  load f.results f.count

def getCurrentValue (o : Ref) : Java Word := do
  let f ← fields o
  if f.count = 0 then
    let seed ← newArray [0, 0, 0, 0]
    let two ← construct seed
    setFields two fun g => { g with count := f.count }
    let g ← fields two
    arraycopy f.results 0 g.results 0 256
    arraycopy f.memory 0 g.memory 0 256
    setFields two fun g => { g with a := f.a }
    setFields two fun g => { g with b := f.b }
    setFields two fun g => { g with c := f.c }
    getNextValue two
  else load f.results (f.count - 1)

theorem slot_lt (i : ℕ) : i % 256 < 256 := Nat.mod_lt i (by decide)

/-- An index of a table. -/
def slot (i : ℕ) : Fin 256 := ⟨i % 256, slot_lt i⟩

theorem index_lt (i : Fin 256) : i.val < 256 := i.isLt

abbrev put (t : Table) (i : Fin 256) (x : Word) : Table := t.set i x (index_lt i)

theorem slot_val {i : ℕ} (hi : i < 256) : (slot i).val = i := Nat.mod_eq_of_lt hi

/-- The places of a cipher in a heap. -/
structure Place where
  object : Ref
  results : Ref
  memory : Ref

variable {h : Heap Fields Word} {p : Place}

namespace Place

structure Within (p : Place) (h : Heap Fields Word) : Prop where
  object : p.object < h.objects.length
  results : p.results < h.arrays.length
  memory : p.memory < h.arrays.length
  ne : p.results ≠ p.memory

/-- The heap in which a cipher stands at its places, under any count. -/
def put (p : Place) (h : Heap Fields Word) (n : ℤ) (s : ISAACCipher) : Heap Fields Word where
  arrays := (h.arrays.set p.results s.results.toList).set p.memory s.memory.toList
  objects := h.objects.set p.object ⟨n, p.results, p.memory, s.a, s.b, s.c⟩

variable {n : ℤ} {s : ISAACCipher}

theorem put_fields (hp : p.Within h) : (fields p.object : Java Fields) (p.put h n s) =
    some (⟨n, p.results, p.memory, s.a, s.b, s.c⟩, p.put h n s) :=
  fields_run (by rw [put, List.getElem?_set_self hp.object])

theorem put_results (hp : p.Within h) :
    (p.put h n s).arrays[p.results]? = some s.results.toList := by
  rw [put, List.getElem?_set_ne hp.ne.symm, List.getElem?_set_self hp.results]

theorem put_memory (hp : p.Within h) :
    (p.put h n s).arrays[p.memory]? = some s.memory.toList := by
  rw [put, List.getElem?_set_self (by rw [List.length_set]; exact hp.memory)]

theorem put_other {r : Ref} (hresults : r ≠ p.results) (hmemory : r ≠ p.memory) :
    (p.put h n s).arrays[r]? = h.arrays[r]? := by
  rw [put, List.getElem?_set_ne hmemory.symm, List.getElem?_set_ne hresults.symm]

theorem put_load_results (hp : p.Within h) (i : Fin 256) :
    (load p.results i.val : Java Word) (p.put h n s) =
      some (s.results.get i, p.put h n s) := by
  rw [load_run (put_results hp) (by simp)]
  rfl

theorem put_load_memory (hp : p.Within h) (i : Fin 256) :
    (load p.memory i.val : Java Word) (p.put h n s) =
      some (s.memory.get i, p.put h n s) := by
  rw [load_run (put_memory hp) (by simp)]
  rfl

theorem put_store_results (hp : p.Within h) (i : Fin 256) (x : Word) :
    (store p.results i.val x : Java Unit) (p.put h n s) =
      some ((), p.put h n { s with results := Object.put s.results i x }) := by
  rw [store_run (put_results hp) (by simp)]
  simp only [put, Object.put, Vector.toList_set, List.set_comm _ _ hp.ne.symm, List.set_set]

theorem put_store_memory (hp : p.Within h) (i : Fin 256) (x : Word) :
    (store p.memory i.val x : Java Unit) (p.put h n s) =
      some ((), p.put h n { s with memory := Object.put s.memory i x }) := by
  rw [store_run (put_memory hp) (by simp)]
  simp only [put, Object.put, Vector.toList_set, List.set_set]

/-- The count of the object stands beside the cipher. -/
theorem put_count (s : ISAACCipher) (k : ℕ) :
    p.put h n { s with count := k } = p.put h n s := rfl

/-- The fields that are no references are those of the cipher. -/
theorem put_setFields (hp : p.Within h) {f : Fields → Fields} {m : ℤ} (s t : ISAACCipher)
    (hf : f ⟨n, p.results, p.memory, s.a, s.b, s.c⟩ = ⟨m, p.results, p.memory, t.a, t.b, t.c⟩)
    (hresults : t.results = s.results) (hmemory : t.memory = s.memory) :
    (setFields p.object f : Java Unit) (p.put h n s) = some ((), p.put h m t) := by
  rw [setFields_run (x := ⟨n, p.results, p.memory, s.a, s.b, s.c⟩)
    (by rw [put, List.getElem?_set_self hp.object]), hf]
  simp only [put, List.set_set, hresults, hmemory]

private theorem arraycopy_tables {source target : Ref} {xs ys : Table} {k : Heap Fields Word}
    (hsource : k.arrays[source]? = some xs.toList) (htarget : k.arrays[target]? = some ys.toList) :
    (arraycopy source 0 target 0 256 : Java Unit) k =
      some ((), { k with arrays := k.arrays.set target xs.toList }) :=
  arraycopy_run (n := 256) hsource htarget Vector.length_toList Vector.length_toList

theorem put_copy_results (hp : p.Within h) {source : Ref} {t : Table}
    (hsource : (p.put h n s).arrays[source]? = some t.toList) :
    (arraycopy source 0 p.results 0 256 : Java Unit) (p.put h n s) =
      some ((), p.put h n { s with results := t }) := by
  rw [arraycopy_tables hsource (put_results hp)]
  simp only [put, List.set_comm _ _ hp.ne.symm, List.set_set]

theorem put_copy_memory (hp : p.Within h) {source : Ref} {t : Table}
    (hsource : (p.put h n s).arrays[source]? = some t.toList) :
    (arraycopy source 0 p.memory 0 256 : Java Unit) (p.put h n s) =
      some ((), p.put h n { s with memory := t }) := by
  rw [arraycopy_tables hsource (put_memory hp)]
  simp only [put, List.set_set]

end Place

/-- Masked and shifted, a word is an index. -/
theorem index_eq (x : Word) : ((x &&& mask).sshiftRight 2).toInt =
    ((Fin.ofNat 256 ((x &&& mask) >>> 2).toNat).val : ℤ) := by
  have hle : (x &&& mask).toNat ≤ 1020 := by
    rw [BitVec.toNat_and]
    exact Nat.and_le_right
  have hmsb : (x &&& mask).msb = false := by
    rw [BitVec.msb_eq_false_iff_two_mul_lt]
    omega
  have hshift : ((x &&& mask) >>> 2).toNat = (x &&& mask).toNat / 4 := by
    rw [BitVec.toNat_ushiftRight, Nat.shiftRight_eq_div_pow]
  rw [BitVec.sshiftRight_eq_of_msb_false hmsb, BitVec.toInt_eq_toNat_of_lt (by omega),
    Fin.val_ofNat, Nat.mod_eq_of_lt (by omega)]

variable {n : ℤ} {s : ISAACCipher}

theorem load_lookup (hp : p.Within h) (x : Word) :
    (load p.memory ((x &&& mask).sshiftRight 2).toInt : Java Word) (p.put h n s) =
      some (lookup s.memory x, p.put h n s) := by
  rw [index_eq, Place.put_load_memory hp]
  rfl

theorem isaacGroup_run (hp : p.Within h) (i : Fin 256) {j : ℕ} (hj : j = (i + 128).val)
    {mix : Word → Word} (hmix : mix s.a = shift i.val s.a) :
    isaacGroup p.object mix i.val j (p.put h n s) = some ((), p.put h n (isaacStep s i)) := by
  subst hj
  unfold isaacGroup
  rw [bind_run (Place.put_fields hp), bind_run (Place.put_load_memory hp i),
    bind_run (Place.put_setFields hp s { s with a := mix s.a } (by rfl) (by rfl) (by rfl)),
    bind_run (Place.put_load_memory hp (i + 128)),
    bind_run (Place.put_setFields hp { s with a := mix s.a }
      { s with a := mix s.a + s.memory.get (i + 128) } (by rfl) (by rfl) (by rfl)),
    bind_run (Place.put_fields hp), bind_run (load_lookup hp _),
    bind_run (Place.put_store_memory hp i _), bind_run (load_lookup hp _),
    bind_run (Place.put_setFields hp _ { isaacStep s i with results := s.results }
      (by rw [isaacStep, ← hmix]) (by rfl) (by rw [isaacStep, ← hmix])),
    Place.put_store_results hp i _]
  rw [isaacStep, ← hmix]

/-- The steps from index `i` on. -/
def steps (s : ISAACCipher) (i n : ℕ) : ISAACCipher :=
  (List.range' i n).foldl (fun s i => isaacStep s (slot i)) s

theorem steps_add (s : ISAACCipher) (i n m : ℕ) :
    steps (steps s i n) (i + n) m = steps s i (n + m) := by
  rw [steps, steps, steps, ← List.range'_append_1, List.foldl_append]

theorem steps_all (s : ISAACCipher) : s.isaac =
    steps { s with c := s.c + 1, b := s.b + (s.c + 1) } 0 256 := by
  have hvals : List.range' 0 256 = (List.finRange 256).map Fin.val := by
    rw [List.map_coe_finRange_eq_range, List.range_eq_range']
  rw [ISAACCipher.isaac, steps, hvals, List.foldl_map]
  congr 1
  funext s i
  exact congrArg (isaacStep s) (Fin.ext (slot_val i.isLt).symm)

private theorem isaacGroup_at (hp : p.Within h) {i j : ℕ} (hi : i < 256)
    (hj : j = (i + 128) % 256) {mix : Word → Word} (hmix : ∀ a, mix a = shift i a) :
    isaacGroup p.object mix i j (p.put h n s) = some ((), p.put h n (steps s i 1)) := by
  have hval : (slot i).val = i := slot_val hi
  have hrun := @isaacGroup_run h p n s hp (slot i) j
    (by rw [hj, Fin.val_add, hval]; rfl) mix (by rw [hval, hmix])
  rw [hval] at hrun
  exact hrun

theorem isaacRound_run (hp : p.Within h) {k j : ℕ} (hk : k < 64)
    (hj : j = (4 * k + 128) % 256) :
    isaacRound p.object (4 * k) j (p.put h n s) =
      some ((), p.put h n (steps s (4 * k) 4)) := by
  unfold isaacRound
  rw [bind_run (isaacGroup_at hp (by omega) hj fun a => ?_),
    bind_run (isaacGroup_at hp (by omega) (by omega) fun a => ?_),
    bind_run (isaacGroup_at hp (by omega) (by omega) fun a => ?_),
    isaacGroup_at hp (by omega) (by omega) fun a => ?_, steps_add, steps_add, steps_add]
  all_goals simp [shift, Nat.add_mod]

private theorem isaacFirst_run (hp : p.Within h) (m k : ℕ) (s : ISAACCipher)
    (hk : k + m = 32) : isaacFirst p.object (4 * k) (4 * k + 128) (p.put h n s) =
      some (128, p.put h n (steps s (4 * k) (4 * m))) := by
  induction m generalizing k s with
  | zero =>
    rw [isaacFirst, if_neg (by omega), show 4 * k = 128 by omega]
    rfl
  | succ m ih =>
    rw [isaacFirst, if_pos (by omega), bind_run (isaacRound_run hp (by omega) (by omega)),
      show 4 * k + 4 = 4 * (k + 1) by omega, show 4 * k + 128 + 4 = 4 * (k + 1) + 128 by omega,
      ih (k + 1) _ (by omega), show 4 * (k + 1) = 4 * k + 4 by omega, steps_add,
      show 4 + 4 * m = 4 * (m + 1) by omega]

private theorem isaacSecond_run (hp : p.Within h) (m k : ℕ) (s : ISAACCipher)
    (hk : k + m = 32) : isaacSecond p.object (4 * (32 + k)) (4 * k) (p.put h n s) =
      some ((), p.put h n (steps s (4 * (32 + k)) (4 * m))) := by
  induction m generalizing k s with
  | zero =>
    rw [isaacSecond, if_neg (by omega)]
    rfl
  | succ m ih =>
    rw [isaacSecond, if_pos (by omega), bind_run (isaacRound_run hp (by omega) (by omega)),
      show 4 * (32 + k) + 4 = 4 * (32 + (k + 1)) by omega,
      show 4 * k + 4 = 4 * (k + 1) by omega, ih (k + 1) _ (by omega),
      show 4 * (32 + (k + 1)) = 4 * (32 + k) + 4 by omega, steps_add,
      show 4 + 4 * m = 4 * (m + 1) by omega]

/-- Generating on the object is generating. -/
theorem isaac_run (hp : p.Within h) :
    isaac p.object (p.put h n s) = some ((), p.put h n s.isaac) := by
  have hfirst := isaacFirst_run (n := n) hp 32 0 { s with c := s.c + 1, b := s.b + (s.c + 1) } rfl
  have hsecond := isaacSecond_run (n := n) hp 32 0
    (steps { s with c := s.c + 1, b := s.b + (s.c + 1) } 0 128) rfl
  unfold isaac
  rw [bind_run (Place.put_setFields hp s { s with c := s.c + 1 } (by rfl) (by rfl) (by rfl)),
    bind_run (Place.put_setFields hp _ { s with c := s.c + 1, b := s.b + (s.c + 1) }
      (by rfl) (by rfl) (by rfl)), bind_run hfirst, hsecond, steps_all,
    ← steps_add _ 0 128 128]

section Init

theorem addFrom_run {r : Ref} {t : Table} (hr : h.arrays[r]? = some t.toList) (m : Mixer) {i : ℕ}
    (hi : i + 8 ≤ 256) : addFrom m r i h = some (m.add t i, h) := by
  have hload (k : ℕ) (hk : k < 8) : (load r (i + k : ℕ) : Java Word) h =
      some (t.get (slot (i + k)), h) := by
    rw [load_run hr (by rw [Vector.length_toList]; omega)]
    simp [Vector.get, slot_val (show i + k < 256 by omega)]
  have hzero : (load r i : Java Word) h = some (t.get (slot (i + 0)), h) :=
    hload 0 (by omega)
  unfold addFrom
  rw [bind_run hzero, bind_run (hload 1 (by omega)), bind_run (hload 2 (by omega)),
    bind_run (hload 3 (by omega)), bind_run (hload 4 (by omega)), bind_run (hload 5 (by omega)),
    bind_run (hload 6 (by omega)), bind_run (hload 7 (by omega))]
  rfl

theorem storeTo_run (hp : p.Within h) (m : Mixer) {i : ℕ} (hi : i + 8 ≤ 256) :
    storeTo m p.memory i (p.put h n s) =
      some ((), p.put h n { s with memory := m.store s.memory i }) := by
  have hstore (s : ISAACCipher) (k : ℕ) (hk : k < 8) (x : Word) :
      (store p.memory (i + k : ℕ) x : Java Unit) (p.put h n s) =
        some ((), p.put h n { s with memory := s.memory.set (slot (i + k)) x }) := by
    have hval : (slot (i + k)).val = i + k := slot_val (by omega)
    rw [← Place.put_store_memory hp, hval]
  have hzero : (store p.memory i m.a : Java Unit) (p.put h n s) =
      some ((), p.put h n { s with memory := s.memory.set (slot (i + 0)) m.a }) :=
    hstore s 0 (by omega) m.a
  unfold storeTo
  rw [bind_run hzero, bind_run (hstore _ 1 (by omega) _),
    bind_run (hstore _ 2 (by omega) _), bind_run (hstore _ 3 (by omega) _),
    bind_run (hstore _ 4 (by omega) _), bind_run (hstore _ 5 (by omega) _),
    bind_run (hstore _ 6 (by omega) _), hstore _ 7 (by omega) _]
  rfl

/-- A pass that mixes in the words that `read` finds in the cipher. -/
def loopPass (read : ISAACCipher → Option Table) (q : Mixer × ISAACCipher) (i : ℕ) :
    Mixer × ISAACCipher :=
  let pass := initPass (read q.2) (q.1, q.2.memory) i
  (pass.1, { q.2 with memory := pass.2 })

/-- The loop reads where the words are. -/
def Reads (p : Place) (h : Heap Fields Word) (n : ℤ) (source : Option Ref)
    (read : ISAACCipher → Option Table) : Prop :=
  ∀ s, source.map (fun r => (p.put h n s).arrays[r]?) =
    (read s).map fun t => some t.toList

/-- A pass scrambles what it mixed in. -/
private theorem mixFrom_run {source : Option Ref} {read : ISAACCipher → Option Table}
    (hreads : Reads p h n source read) (q : Mixer × ISAACCipher) {k : ℕ} (hk : k < 32) :
    ∃ m, mixFrom source q.1 (8 * k) (p.put h n q.2) = some (m, p.put h n q.2) ∧
      m.scramble = (loopPass read q k).1 := by
  have hread := hreads q.2
  rw [loopPass]
  cases source with
  | none =>
    cases hwords : read q.2 with
    | none => exact ⟨q.1, rfl, rfl⟩
    | some t => simp [hwords] at hread
  | some r =>
    cases hwords : read q.2 with
    | none => simp [hwords] at hread
    | some t =>
      simp only [hwords, Option.map_some, Option.some.injEq] at hread
      exact ⟨_, addFrom_run hread q.1 (by omega), rfl⟩

private theorem initLoop_from (hp : p.Within h) {source : Option Ref}
    {read : ISAACCipher → Option Table} (hreads : Reads p h n source read) (k j : ℕ)
    (q : Mixer × ISAACCipher) (hk : k + j = 32) :
    initLoop source p.memory q.1 (8 * k) (p.put h n q.2) =
      some (((List.range' k j).foldl (loopPass read) q).1,
        p.put h n ((List.range' k j).foldl (loopPass read) q).2) := by
  induction j generalizing k q with
  | zero =>
    rw [initLoop, if_neg (by omega)]
    rfl
  | succ j ih =>
    obtain ⟨m, hmixed, hscramble⟩ := mixFrom_run hreads q (show k < 32 by omega)
    rw [initLoop, if_pos (by omega), bind_run hmixed, hscramble,
      bind_run (storeTo_run hp _ (by omega)), show 8 * k + 8 = 8 * (k + 1) by omega]
    exact ih (k + 1) (loopPass read q k) (by omega)

/-- The results are not touched while the memory is filled. -/
private theorem loopPass_results (source : Table → Option Table) (l : List ℕ)
    (q : Mixer × ISAACCipher) :
    l.foldl (loopPass fun s => source s.results) q =
      ((l.foldl (initPass (source q.2.results)) (q.1, q.2.memory)).1, { q.2 with
        memory := (l.foldl (initPass (source q.2.results)) (q.1, q.2.memory)).2 }) := by
  induction l generalizing q with
  | nil => rfl
  | cons i l ih =>
    rw [List.foldl_cons, ih]
    rfl

private theorem loopPass_memory (l : List ℕ) (q : Mixer × ISAACCipher) :
    l.foldl (loopPass fun s => some s.memory) q =
      ((l.foldl initSecondPass (q.1, q.2.memory)).1, { q.2 with
        memory := (l.foldl initSecondPass (q.1, q.2.memory)).2 }) := by
  induction l generalizing q with
  | nil => rfl
  | cons i l ih =>
    rw [List.foldl_cons, ih]
    rfl

private theorem initLoop_results (hp : p.Within h) (m : Mixer) (s : ISAACCipher) (flag : Bool) :
    initLoop (if flag then some p.results else none) p.memory m 0 (p.put h n s) =
      some (((List.range 32).foldl
          (initPass (if flag then some s.results else none)) (m, s.memory)).1,
        p.put h n { s with memory := ((List.range 32).foldl
          (initPass (if flag then some s.results else none)) (m, s.memory)).2 }) := by
  have hreads : Reads p h n (if flag then some p.results else none)
      fun s => if flag then some s.results else none := by
    intro t
    cases flag with
    | false => rfl
    | true => exact congrArg some (Place.put_results hp)
  have hloop := initLoop_from hp hreads 0 32 (m, s) rfl
  rw [loopPass_results fun t => if flag then some t else none, ← List.range_eq_range'] at hloop
  exact hloop

private theorem initLoop_memory (hp : p.Within h) (m : Mixer) (s : ISAACCipher) :
    initLoop (some p.memory) p.memory m 0 (p.put h n s) =
      some (((List.range 32).foldl initSecondPass (m, s.memory)).1,
        p.put h n { s with memory := ((List.range 32).foldl initSecondPass (m, s.memory)).2 }) := by
  have hreads : Reads p h n (some p.memory) fun s => some s.memory :=
    fun t => congrArg some (Place.put_memory hp)
  have hloop := initLoop_from hp hreads 0 32 (m, s) rfl
  rw [loopPass_memory, ← List.range_eq_range'] at hloop
  exact hloop

/-- Initialising the object is initialising, and leaves all results to be drawn. -/
theorem init_run (hp : p.Within h) (s : ISAACCipher) (flag : Bool) :
    init p.object flag (p.put h n s) = some ((), p.put h 256 (s.init flag)) := by
  have hcount (t : ISAACCipher) : (setFields p.object fun f =>
      { f with count := 256 } : Java Unit) (p.put h n t) = some ((), p.put h 256 t) :=
    Place.put_setFields hp t t (by rfl) (by rfl) (by rfl)
  have hfinish (t : ISAACCipher) : (isaac p.object >>= fun _ => setFields p.object fun f =>
      { f with count := 256 } : Java Unit) (p.put h n t) = some ((), p.put h 256 t.isaac) :=
    (bind_run (isaac_run hp)).trans (hcount _)
  unfold init ISAACCipher.init
  rw [bind_run (Place.put_fields hp)]
  dsimp only
  generalize ({} : Mixer).scramble.scramble.scramble.scramble = m
  rw [bind_run (initLoop_results hp m s flag)]
  cases flag with
  | false =>
    rw [Place.put_count]
    exact hfinish _
  | true =>
    rw [Place.put_count]
    exact (bind_run (initLoop_memory hp _ _)).trans (hfinish _)

end Init

/-- The cipher stands at its places, with its own count. -/
structure Holds (p : Place) (h : Heap Fields Word) (s : ISAACCipher) : Prop where
  object : h.objects[p.object]? = some ⟨s.count, p.results, p.memory, s.a, s.b, s.c⟩
  results : h.arrays[p.results]? = some s.results.toList
  memory : h.arrays[p.memory]? = some s.memory.toList
  ne : p.results ≠ p.memory

namespace Holds

theorem within (hs : Holds p h s) : p.Within h :=
  ⟨(List.getElem?_eq_some_iff.mp hs.object).1, (List.getElem?_eq_some_iff.mp hs.results).1,
    (List.getElem?_eq_some_iff.mp hs.memory).1, hs.ne⟩

theorem of_put (hp : p.Within h) (s : ISAACCipher) : Holds p (p.put h s.count s) s where
  object := by rw [Place.put, List.getElem?_set_self hp.object]
  results := Place.put_results hp
  memory := Place.put_memory hp
  ne := hp.ne

theorem put_self (hs : Holds p h s) : p.put h s.count s = h := by
  have hset {α : Type} {l : List α} {r : ℕ} {x : α} (hr : l[r]? = some x) : l.set r x = l := by
    obtain ⟨hlt, hget⟩ := List.getElem?_eq_some_iff.mp hr
    rw [← hget, List.set_getElem_self]
  rw [Place.put, hset hs.results, hset hs.memory, hset hs.object]

theorem grows {h' : Heap Fields Word} (hs : Holds p h s) (hg : h.Grows h') : Holds p h' s :=
  ⟨hg.object hs.object, hg.array hs.results, hg.array hs.memory, hs.ne⟩

end Holds

/-- Places that a smaller heap does not have. -/
structure Place.Fresh (p : Place) (h : Heap Fields Word) : Prop where
  object : h.objects.length ≤ p.object
  results : h.arrays.length ≤ p.results
  memory : h.arrays.length ≤ p.memory

theorem Place.Fresh.put {h' : Heap Fields Word} (hp : p.Fresh h) (hg : h.Grows h') :
    h.Grows (p.put h' n s) := by
  have hset {α : Type} {l l' : List α} (hl : l <+: l') {r : ℕ} (hr : l.length ≤ r) (x : α) :
      l <+: l'.set r x := by
    obtain ⟨more, rfl⟩ := hl
    rw [List.set_append_right _ _ hr]
    exact List.prefix_append _ _
  exact ⟨hset (hset hg.arrays hp.results _) hp.memory _, hset hg.objects hp.object _⟩

section Construct
variable {seed : Ref} {words : List Word}

/-- The results that a seed is written over, from index `k` on. -/
def seeded (words : List Word) (k : ℕ) (t : Table) : Table :=
  (words.zipIdx k).foldl (fun t e => put t (slot e.2) e.1) t

private theorem seed_run (hp : p.Within h) (hseed : h.arrays[seed]? = some words)
    (hresults : seed ≠ p.results) (hmemory : seed ≠ p.memory) (hwords : words.length ≤ 256)
    (m k : ℕ) (s : ISAACCipher) (hk : k + m = words.length) :
    ((List.range' k m).forM fun i => do
      let x ← load seed i
      store p.results i x : Java Unit) (p.put h n s) =
      some ((), p.put h n { s with results := seeded (words.drop k) k s.results }) := by
  induction m generalizing k s with
  | zero =>
    rw [List.drop_eq_nil_of_le (by omega)]
    rfl
  | succ m ih =>
    have hlt : k < words.length := by omega
    have hval : (slot k).val = k := slot_val (by omega)
    have hload : (load seed k : Java Word) (p.put h n s) = some (words[k], p.put h n s) :=
      load_run (by rw [Place.put_other hresults hmemory, hseed]) hlt
    have hstore := Place.put_store_results (n := n) (s := s) hp (slot k) words[k]
    have hfirst : (load seed k >>= fun x => store p.results k x : Java Unit) (p.put h n s) =
        some ((), p.put h n { s with results := s.results.set (slot k) words[k] }) := by
      rw [bind_run hload, ← hstore, hval]
    rw [List.range'_succ, List.forM, bind_run hfirst, ih (k + 1) _ (by omega),
      List.drop_eq_getElem_cons hlt, seeded, seeded, List.zipIdx_cons, List.foldl_cons]

/-- A cipher is constructed at places of its own. -/
theorem construct_run (hseed : h.arrays[seed]? = some words) {s : ISAACCipher}
    (hs : create words = some s) :
    ∃ p h', construct seed h = some (p.object, h') ∧ Holds p h' s ∧ p.Fresh h ∧ h.Grows h' := by
  obtain ⟨hwords, rfl⟩ : words.length ≤ 256 ∧
      ISAACCipher.init { results := seeded words 0 (Vector.replicate 256 0) } true = s := by
    rw [create] at hs
    split_ifs at hs with hlong
    exact ⟨not_lt.mp hlong, Option.some.inj hs⟩
  have hseedLt := (List.getElem?_eq_some_iff.mp hseed).1
  let zeros : List Word := List.replicate 256 0
  let p : Place := ⟨h.objects.length, h.arrays.length, h.arrays.length + 1⟩
  let h' : Heap Fields Word :=
    ⟨h.arrays ++ [zeros] ++ [zeros], h.objects ++ [{ results := p.results, memory := p.memory }]⟩
  have hzeros : zeros = (Vector.replicate 256 0 : Table).toList := Vector.toList_replicate.symm
  have hholds : Holds p h' {} :=
    { object := List.getElem?_concat_length
      results := by
        rw [← hzeros, List.getElem?_append_left (by simp [p])]
        exact List.getElem?_concat_length
      memory := by
        rw [← hzeros, show p.memory = (h.arrays ++ [zeros]).length by simp [p]]
        exact List.getElem?_concat_length
      ne := (Nat.lt_succ_self _).ne }
  have hp := hholds.within
  have hgrows : h.Grows h' :=
    ⟨(List.prefix_append _ _).trans (List.prefix_append _ _), List.prefix_append _ _⟩
  have hfresh : p.Fresh h := ⟨le_rfl, le_rfl, Nat.le_succ _⟩
  have hloop := seed_run hp (hgrows.array hseed) (n := 0) (ne_of_lt hseedLt)
    (ne_of_lt (Nat.lt_succ_of_lt hseedLt)) hwords words.length 0 {} (Nat.zero_add _)
  rw [show p.put h' 0 {} = h' from hholds.put_self, List.drop_zero, ← List.range_eq_range'] at hloop
  refine ⟨p, _, ?_, Holds.of_put hp _, hfresh, hfresh.put hgrows⟩
  unfold construct
  have hresults : (newArray zeros : Java Ref) h =
    some (p.results, { h with arrays := h.arrays ++ [zeros] }) := rfl
  have hmemory : (newArray zeros : Java Ref) { h with arrays := h.arrays ++ [zeros] } =
    some (p.memory, { h with arrays := h.arrays ++ [zeros] ++ [zeros] }) := by
    simp [newArray, p]
  have hobject : (newObject { results := p.results, memory := p.memory } : Java Ref)
    { h with arrays := h.arrays ++ [zeros] ++ [zeros] } = some (p.object, h') := rfl
  rw [bind_run hresults, bind_run hmemory, bind_run hobject,
    bind_run (length_run (hgrows.array hseed)), bind_run hloop, bind_run (init_run hp _ true)]
  rfl

end Construct

/-- A draw on the object is a draw on the cipher. -/
theorem getNextValue_run (hp : p.Within h) (hcount : s.count ≤ 256) :
    getNextValue p.object (p.put h s.count s) =
      some (s.getNextValue.1, p.put h s.getNextValue.2.count s.getNextValue.2) := by
  have hset (m k : ℤ) (s : ISAACCipher) (f : Fields → Fields)
      (hf : f ⟨m, p.results, p.memory, s.a, s.b, s.c⟩ = ⟨k, p.results, p.memory, s.a, s.b, s.c⟩) :
      (setFields p.object f : Java Unit) (p.put h m s) = some ((), p.put h k s) :=
    Place.put_setFields hp s s hf rfl rfl
  unfold getNextValue
  rw [bind_run (Place.put_fields hp), bind_run (hset s.count (s.count - 1) s _ (by rfl)),
    ISAACCipher.getNextValue]
  by_cases hzero : s.count = 0
  · rw [if_pos (by rw [hzero]; rfl), if_pos hzero]
    have hcount (t : ISAACCipher) := hset (s.count - 1) 255 t
      (fun f => { f with count := 256 - 1 }) rfl
    rw [bind_run (isaac_run hp), bind_run (hcount _)]
    generalize s.isaac = t
    refine (bind_run (Place.put_fields hp)).trans ?_
    rw [Place.put_count]
    exact Place.put_load_results hp (slot 255)
  · obtain ⟨k, hk⟩ := Nat.exists_eq_succ_of_ne_zero hzero
    have hval : (slot k).val = k := slot_val (by omega)
    have hload := Place.put_load_results (n := k) (s := s) hp (slot k)
    rw [hval] at hload
    rw [if_neg (fun heq => hzero (Int.natCast_eq_zero.mp heq)), if_neg hzero, hk,
      show ((k + 1 : ℕ) : ℤ) - 1 = k by omega, Nat.succ_sub_one]
    exact (bind_run (Place.put_fields hp)).trans hload

/-- The copy has the state that the cipher had. -/
private theorem copy_run {q : Place} {h' : Heap Fields Word} (hq : q.Within h')
    (hs : Holds p h s) (hfresh : q.Fresh h) (hg : h.Grows h') (t : ISAACCipher) :
    (do
      setFields q.object fun g => { g with count := s.count }
      let g ← fields q.object
      arraycopy p.results 0 g.results 0 256
      arraycopy p.memory 0 g.memory 0 256
      setFields q.object fun g => { g with a := s.a }
      setFields q.object fun g => { g with b := s.b }
      setFields q.object fun g => { g with c := s.c }
      getNextValue q.object : Java Word) (q.put h' t.count t) =
      getNextValue q.object (q.put h' s.count s) := by
  have hgrown (k : ℤ) (u : ISAACCipher) := hs.grows (hfresh.put (n := k) (s := u) hg)
  have hfields (a b c : Word) (f : Fields → Fields) (u : ISAACCipher)
      (hf : f ⟨s.count, q.results, q.memory, u.a, u.b, u.c⟩ =
        ⟨s.count, q.results, q.memory, a, b, c⟩) :
      (setFields q.object f : Java Unit) (q.put h' s.count u) =
        some ((), q.put h' s.count { u with a := a, b := b, c := c }) :=
    Place.put_setFields hq u _ hf rfl rfl
  rw [bind_run (Place.put_setFields hq t t (m := s.count) (by rfl) (by rfl) (by rfl)),
    bind_run (Place.put_fields hq), bind_run (Place.put_copy_results hq (hgrown _ _).results),
    bind_run (Place.put_copy_memory hq (hgrown _ _).memory),
    bind_run (hfields s.a t.b t.c _ _ (by rfl)), bind_run (hfields s.a s.b t.c _ _ (by rfl)),
    bind_run (hfields s.a s.b s.c _ _ (by rfl))]
  rfl

/-- A peek at the object is a peek at the cipher, and changes nothing that was there. -/
theorem getCurrentValue_run (hs : Holds p h s) (hcount : s.count ≤ 256) :
    ∃ h', getCurrentValue p.object h = some (s.getCurrentValue, h') ∧ h.Grows h' := by
  rw [getCurrentValue_eq]
  unfold getCurrentValue
  rw [bind_run (fields_run hs.object)]
  by_cases hzero : s.count = 0
  · let h₁ : Heap Fields Word := { h with arrays := h.arrays ++ [[0, 0, 0, 0]] }
    have hseed : (newArray [0, 0, 0, 0] : Java Ref) h = some (h.arrays.length, h₁) := rfl
    have hg₁ : h.Grows h₁ := ⟨List.prefix_append _ _, List.prefix_rfl⟩
    obtain ⟨two, htwo⟩ : ∃ two, create [0, 0, 0, 0] = some two := ⟨_, rfl⟩
    obtain ⟨q, h₂, hconstruct, ht, hfresh, hg₂⟩ :=
      construct_run (h := h₁) List.getElem?_concat_length htwo
    have hcopy := copy_run ht.within (hs.grows hg₁) hfresh hg₂ two
    rw [ht.put_self] at hcopy
    refine ⟨q.put h₂ s.getNextValue.2.count s.getNextValue.2, ?_, hg₁.trans (hfresh.put hg₂)⟩
    rw [if_pos (by rw [hzero]; rfl), bind_run hseed, bind_run hconstruct]
    exact hcopy.trans (getNextValue_run ht.within hcount)
  · obtain ⟨k, hk⟩ := Nat.exists_eq_succ_of_ne_zero hzero
    have hval : (slot k).val = k := slot_val (by omega)
    have hload := Place.put_load_results (n := s.count) (s := s) hs.within (slot k)
    rw [hval, hs.put_self] at hload
    refine ⟨h, ?_, Heap.Grows.refl h⟩
    rw [if_neg (fun heq => hzero (Int.natCast_eq_zero.mp heq)), ISAACCipher.getNextValue,
      if_neg hzero, hk, show ((k + 1 : ℕ) : ℤ) - 1 = k by omega, Nat.succ_sub_one]
    exact hload

/-- What may happen to a cipher between two packets. -/
inductive Call
  | draw
  | peek
deriving DecidableEq

def perform (o : Ref) : Call → Java Word
  | .draw => getNextValue o
  | .peek => getCurrentValue o

def performAll (o : Ref) : List Call → Java Unit
  | [] => pure ()
  | c :: calls => do
    let _ ← perform o c
    performAll o calls

/-- Everything an object holds. -/
def contents (o : Ref) (h : Heap Fields Word) : Option (Fields × List Word × List Word) := do
  let f ← h.objects[o]?
  let results ← h.arrays[f.results]?
  let memory ← h.arrays[f.memory]?
  return (f, results, memory)

theorem Holds.contents_eq (hs : Holds p h s) : contents p.object h =
    some (⟨s.count, p.results, p.memory, s.a, s.b, s.c⟩, s.results.toList, s.memory.toList) := by
  simp [contents, hs.object, hs.results, hs.memory]

private theorem getNextValue_count (s : ISAACCipher) (hcount : s.count ≤ 256) :
    s.getNextValue.2.count ≤ 256 := by
  rw [ISAACCipher.getNextValue]
  split_ifs with hzero
  · exact Nat.le_succ 255
  · exact (Nat.sub_le _ _).trans hcount

/-- However peeks are mixed in, the object is the cipher behind as many draws. -/
theorem performAll_run (calls : List Call) (hs : Holds p h s) (hcount : s.count ≤ 256) :
    ∃ h' t, performAll p.object calls h = some ((), h') ∧ Holds p h' t ∧ t.count ≤ 256 ∧
      t = (fun s => s.getNextValue.2)^[calls.count .draw] s := by
  induction calls generalizing h s with
  | nil => exact ⟨h, s, rfl, hs, hcount, rfl⟩
  | cons c calls ih =>
    cases c with
    | draw =>
      have hrun := getNextValue_run hs.within hcount
      rw [hs.put_self] at hrun
      obtain ⟨h', t, hcalls, ht, htcount, hdraws⟩ :=
        ih (Holds.of_put hs.within s.getNextValue.2) (getNextValue_count s hcount)
      refine ⟨h', t, (bind_run hrun).trans hcalls, ht, htcount, ?_⟩
      rw [List.count_cons_self, Function.iterate_succ_apply, hdraws]
    | peek =>
      obtain ⟨h₁, hrun, hg⟩ := getCurrentValue_run hs hcount
      obtain ⟨h', t, hcalls, ht, htcount, hdraws⟩ := ih (hs.grows hg) hcount
      refine ⟨h', t, (bind_run hrun).trans hcalls, ht, htcount, ?_⟩
      rw [List.count_cons_of_ne (by decide), hdraws]

/-- Behind any calls a peek gives what the next draw gives, before and after it, and changes
nothing: no array or object that was there. The runs end, so no index was out of range. -/
theorem getCurrentValue_exact (h : Heap Fields Word) (seed : Ref) (words : List Word)
    (hseed : h.arrays[seed]? = some words) (hwords : words.length ≤ 256) (calls : List Call) :
    ∃ o h₁ h₂ f v h₃, construct seed h = some (o, h₁) ∧
      performAll o calls h₁ = some ((), h₂) ∧
      h₂.objects[o]? = some f ∧ 0 ≤ f.count ∧ f.count ≤ 256 ∧
      getCurrentValue o h₂ = some (v, h₃) ∧ h₂.Grows h₃ ∧ contents o h₃ = contents o h₂ ∧
      (∃ h₄, getNextValue o h₂ = some (v, h₄)) ∧ ∃ h₄, getNextValue o h₃ = some (v, h₄) := by
  obtain ⟨s, hs, hfull⟩ : ∃ s, create words = some s ∧ s.count = 256 :=
    ⟨_, by rw [create, if_neg (not_lt.mpr hwords)], rfl⟩
  obtain ⟨p, h₁, hconstruct, hholds, -, -⟩ := construct_run hseed hs
  obtain ⟨h₂, t, hcalls, ht, hcount, -⟩ := performAll_run calls hholds hfull.le
  obtain ⟨h₃, hpeek, hg⟩ := getCurrentValue_run ht hcount
  have hdraw {h : Heap Fields Word} (hh : Holds p h t) :
      ∃ h₄, getNextValue p.object h = some (t.getCurrentValue, h₄) := by
    have hrun := getNextValue_run hh.within hcount
    rw [hh.put_self, ← getCurrentValue_eq] at hrun
    exact ⟨_, hrun⟩
  refine ⟨p.object, h₁, h₂, _, t.getCurrentValue, h₃, hconstruct, hcalls, ht.object,
    Int.natCast_nonneg _, Int.ofNat_le.mpr hcount, hpeek, hg, ?_, hdraw ht, hdraw (ht.grows hg)⟩
  rw [(ht.grows hg).contents_eq, ht.contents_eq]

theorem getCurrentValue_exact_used_up :
    ∃ o h₁ h₂ f v h₃, construct 0 ⟨[[1, 2, 3, 4]], []⟩ = some (o, h₁) ∧
      performAll o (List.replicate 256 .draw) h₁ = some ((), h₂) ∧
      h₂.objects[o]? = some f ∧ 0 ≤ f.count ∧ f.count ≤ 256 ∧
      getCurrentValue o h₂ = some (v, h₃) ∧ h₂.Grows h₃ ∧ contents o h₃ = contents o h₂ ∧
      (∃ h₄, getNextValue o h₂ = some (v, h₄)) ∧ ∃ h₄, getNextValue o h₃ = some (v, h₄) :=
  getCurrentValue_exact ⟨[[1, 2, 3, 4]], []⟩ 0 [1, 2, 3, 4] rfl (by decide) _

end Object

end ISAACCipher

end OpenNXT.Util
