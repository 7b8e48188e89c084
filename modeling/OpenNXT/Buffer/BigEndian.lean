import Mathlib.Data.List.Basic
import Mathlib.Algebra.Order.Ring.Nat
import Mathlib.Tactic.Linarith
import Mathlib.Tactic.Ring

/-! Fixed-width words as big-endian byte strings, and partial readers over them. -/
namespace OpenNXT.Buffer

abbrev Byte := BitVec 8

/-- A Kotlin `Int`. -/
abbrev Word := BitVec 32

/-- A Kotlin `Long`. -/
abbrev Long := BitVec 64

/-- The `n` low-order bytes of a number, most significant first. -/
def toBytes : ℕ → ℕ → List Byte
  | 0, _ => []
  | n + 1, v => BitVec.ofNat 8 (v / 256 ^ n) :: toBytes n v

/-- The number spelled by a byte string, most significant byte first. -/
def ofBytes : List Byte → ℕ
  | [] => 0
  | b :: bs => b.toNat * 256 ^ bs.length + ofBytes bs

@[simp] theorem length_toBytes (n v : ℕ) : (toBytes n v).length = n := by
  induction n with
  | zero => rfl
  | succ n ih => simp [toBytes, ih]

theorem ofBytes_lt (bs : List Byte) : ofBytes bs < 256 ^ bs.length := by
  induction bs with
  | nil => simp [ofBytes]
  | cons b bs ih =>
    have hb : b.toNat + 1 ≤ 256 := b.isLt
    have hm := Nat.mul_le_mul_right (256 ^ bs.length) hb
    rw [List.length_cons, pow_succ, ofBytes]
    linarith

theorem ofBytes_toBytes (n v : ℕ) : ofBytes (toBytes n v) = v % 256 ^ n := by
  induction n with
  | zero => simp [toBytes, ofBytes, Nat.mod_one]
  | succ n ih =>
    have hb : (BitVec.ofNat 8 (v / 256 ^ n)).toNat = v / 256 ^ n % 256 := BitVec.toNat_ofNat _ _
    rw [toBytes, ofBytes, length_toBytes, ih, hb, pow_succ, Nat.mod_mul]
    ring

private theorem toBytes_add_mul (n v k : ℕ) : toBytes n (v + k * 256 ^ n) = toBytes n v := by
  induction n generalizing k with
  | zero => rfl
  | succ n ih =>
    have hpos : 0 < 256 ^ n := Nat.pow_pos (by omega)
    have hsplit : v + k * 256 ^ (n + 1) = v + k * 256 * 256 ^ n := by ring
    have hhead : (v + k * 256 * 256 ^ n) / 256 ^ n = v / 256 ^ n + k * 256 :=
      Nat.add_mul_div_right _ _ hpos
    rw [toBytes, toBytes, hsplit, ih, hhead]
    congr 1
    apply BitVec.eq_of_toNat_eq
    rw [BitVec.toNat_ofNat, BitVec.toNat_ofNat]
    exact Nat.add_mul_mod_self_right _ _ _

theorem toBytes_ofBytes (bs : List Byte) : toBytes bs.length (ofBytes bs) = bs := by
  induction bs with
  | nil => rfl
  | cons b bs ih =>
    have hlt := ofBytes_lt bs
    have hpos : 0 < 256 ^ bs.length := Nat.pow_pos (by omega)
    have hhead : (b.toNat * 256 ^ bs.length + ofBytes bs) / 256 ^ bs.length = b.toNat := by
      rw [Nat.add_comm, Nat.add_mul_div_right _ _ hpos, Nat.div_eq_of_lt hlt, Nat.zero_add]
    rw [List.length_cons, ofBytes, toBytes, hhead, Nat.add_comm, toBytes_add_mul, ih,
      BitVec.ofNat_toNat, BitVec.setWidth_eq]

/-- A word of `n` bytes, most significant byte first. -/
def putWord (n : ℕ) (v : BitVec (8 * n)) : List Byte := toBytes n v.toNat

abbrev putShort (v : BitVec 16) : List Byte := putWord 2 v

abbrev putInt (v : BitVec 32) : List Byte := putWord 4 v

@[simp] theorem length_putWord (n : ℕ) (v : BitVec (8 * n)) : (putWord n v).length = n :=
  length_toBytes n _

theorem ofBytes_putWord (n : ℕ) (v : BitVec (8 * n)) : ofBytes (putWord n v) = v.toNat := by
  have hv : v.toNat < 256 ^ n := by
    have h := v.isLt
    rwa [pow_mul] at h
  rw [putWord, ofBytes_toBytes, Nat.mod_eq_of_lt hv]

theorem putWord_ofBytes (bs : List Byte) :
    putWord bs.length (BitVec.ofNat (8 * bs.length) (ofBytes bs)) = bs := by
  have hlt := ofBytes_lt bs
  rw [show (256 : ℕ) = 2 ^ 8 from rfl, ← pow_mul] at hlt
  rw [putWord, BitVec.toNat_ofNat, Nat.mod_eq_of_lt hlt, toBytes_ofBytes]

/-- A reader consumes a prefix of its buffer; `none` is an underflow or a rejected value. -/
abbrev Reader := StateT (List Byte) Option

namespace Reader

/-- The next `n` bytes. -/
def bytes (n : ℕ) : Reader (List Byte) := fun bs =>
  if n ≤ bs.length then some (bs.take n, bs.drop n) else none

def word (n : ℕ) : Reader (BitVec (8 * n)) := do
  let bs ← bytes n
  return BitVec.ofNat (8 * n) (ofBytes bs)

abbrev byte : Reader Byte := word 1

abbrev short : Reader (BitVec 16) := word 2

abbrev int : Reader (BitVec 32) := word 4

/-- A value the source rejects with an exception. -/
def fail {α : Type} : Reader α := fun _ => none

/-- A value computed apart from the buffer; `none` is an exception. -/
def ofOption {α : Type} (value : Option α) : Reader α := fun bs => value.map fun v => (v, bs)

/-- A loop that reads one value in each of its rounds. -/
def times {α : Type} : ℕ → Reader α → Reader (List α)
  | 0, _ => return []
  | n + 1, r => do
    let v ← r
    let vs ← times n r
    return v :: vs

section Apply
variable {α β : Type}

theorem pure_apply (v : α) (bs : List Byte) : (Pure.pure v : Reader α) bs = some (v, bs) := rfl

theorem bind_apply (r : Reader α) (f : α → Reader β) (bs : List Byte) :
    (r >>= f) bs = (r bs).bind fun p => f p.1 p.2 := rfl

theorem word_eq {n : ℕ} {bs : List Byte} (h : n ≤ bs.length) :
    word n bs = some (BitVec.ofNat (8 * n) (ofBytes (bs.take n)), bs.drop n) := by
  rw [word, bind_apply, bytes, if_pos h]
  rfl

theorem word_eq_none {n : ℕ} {bs : List Byte} (h : bs.length < n) : word n bs = none := by
  rw [word, bind_apply, bytes, if_neg (not_le.mpr h)]
  rfl

theorem word_rest {n : ℕ} {bs rest : List Byte} {v : BitVec (8 * n)}
    (h : word n bs = some (v, rest)) : rest = bs.drop n := by
  by_cases hle : n ≤ bs.length
  · rw [word_eq hle] at h
    cases h
    rfl
  · rw [word_eq_none (not_le.mp hle)] at h
    cases h

/-- What was read stood in front of the rest. -/
theorem eq_append_of_word {n : ℕ} {bs rest : List Byte} {v : BitVec (8 * n)}
    (h : word n bs = some (v, rest)) : bs = putWord n v ++ rest := by
  by_cases hle : n ≤ bs.length
  · rw [word_eq hle] at h
    cases h
    have hlen : (bs.take n).length = n := by rw [List.length_take, Nat.min_eq_left hle]
    have hput := putWord_ofBytes (bs.take n)
    rw [hlen] at hput
    rw [hput, List.take_append_drop]
  · rw [word_eq_none (not_le.mp hle)] at h
    cases h

theorem length_word {n : ℕ} {bs rest : List Byte} {v : BitVec (8 * n)}
    (h : word n bs = some (v, rest)) : rest.length + n = bs.length := by
  by_cases hle : n ≤ bs.length
  · rw [word_eq hle] at h
    cases h
    rw [List.length_drop]
    omega
  · rw [word_eq_none (not_le.mp hle)] at h
    cases h

end Apply

end Reader

/-- `Reads r bs v`: in front of any further bytes, `r` consumes exactly `bs` and returns `v`. -/
def Reads {α : Type} (r : Reader α) (bs : List Byte) (v : α) : Prop :=
  ∀ rest, r (bs ++ rest) = some (v, rest)

namespace Reads
variable {α β : Type}

theorem pure (v : α) : Reads (Pure.pure v) [] v := fun _ => rfl

theorem ofOption {o : Option α} {v : α} (h : o = some v) : Reads (Reader.ofOption o) [] v := by
  intro rest
  rw [h]
  rfl

theorem bind {r : Reader α} {f : α → Reader β} {bs cs : List Byte} {v : α} {w : β}
    (hr : Reads r bs v) (hf : Reads (f v) cs w) : Reads (r >>= f) (bs ++ cs) w := by
  intro rest
  change (r (bs ++ cs ++ rest)).bind (fun p => f p.1 p.2) = _
  rw [List.append_assoc, hr]
  exact hf rest

/-- Whatever reads on starts behind the bytes that were read. -/
theorem bind_append {r : Reader α} {bs : List Byte} {v : α} (h : Reads r bs v) (f : α → Reader β)
    (rest : List Byte) : (r >>= f) (bs ++ rest) = f v rest := by
  rw [Reader.bind_apply, h rest, Option.bind_some]

theorem map {r : Reader α} {bs : List Byte} {v : α} (f : α → β) (h : Reads r bs v) :
    Reads (do let x ← r; return f x) bs (f v) := by
  have hb : Reads (r >>= fun x => Pure.pure (f x)) (bs ++ []) (f v) := bind h (pure (f v))
  rwa [List.append_nil] at hb

theorem run {r : Reader α} {bs : List Byte} {v : α} (h : Reads r bs v) : r bs = some (v, []) := by
  simpa using h []

/-- What is read is determined. -/
theorem unique {r : Reader α} {bs : List Byte} {v w : α} (hv : Reads r bs v) (hw : Reads r bs w) :
    v = w := by
  have hrun := hv.run
  rw [hw.run] at hrun
  cases hrun
  rfl

theorem bytes (bs : List Byte) : Reads (Reader.bytes bs.length) bs bs := by
  intro rest
  simp [Reader.bytes]

/-- A field that is skipped. -/
theorem skip {n : ℕ} {bs : List Byte} (h : bs.length = n) : Reads (Reader.bytes n) bs bs := by
  subst h
  exact Reads.bytes bs

theorem word (n : ℕ) (v : BitVec (8 * n)) : Reads (Reader.word n) (putWord n v) v := by
  intro rest
  have htake : (putWord n v ++ rest).take n = putWord n v := List.take_left' (length_putWord n v)
  have hdrop : (putWord n v ++ rest).drop n = rest := List.drop_left' (length_putWord n v)
  rw [Reader.word_eq (by simp), htake, hdrop, ofBytes_putWord, BitVec.ofNat_toNat,
    BitVec.setWidth_eq]

theorem byte (b : Byte) : Reads Reader.byte [b] b := by
  have h := word 1 b
  rwa [show putWord 1 b = [b] by simp [putWord, toBytes]] at h

/-- A column of values is read back by a left fold that consumes one value for each element. -/
theorem foldlM {σ : Type} {step : σ → α → Reader σ} {next : σ → α → σ} {enc : α → List Byte}
    (l : List α) (s : σ)
    (h : ∀ pre a post, l = pre ++ a :: post →
      Reads (step (pre.foldl next s) a) (enc a) (next (pre.foldl next s) a)) :
    Reads (l.foldlM step s) (l.flatMap enc) (l.foldl next s) := by
  induction l generalizing s with
  | nil => exact pure s
  | cons a l ih =>
    rw [List.foldlM_cons, List.flatMap_cons, List.foldl_cons]
    refine bind (h [] a l rfl) (ih _ fun pre b post hl => ?_)
    simpa using h (a :: pre) b post (by rw [hl]; rfl)

/-- Values written one after the other are read back one after the other. -/
theorem times {write : α → Option (List Byte)} {r : Reader β} {f : α → β} (l : List α)
    (h : ∀ a ∈ l, ∃ bs, write a = some bs ∧ Reads r bs (f a)) :
    ∃ written, l.mapM write = some written ∧
      Reads (Reader.times l.length r) written.flatten (l.map f) := by
  induction l with
  | nil => exact ⟨[], rfl, pure []⟩
  | cons a l ih =>
    obtain ⟨bs, hwrite, hread⟩ := h a List.mem_cons_self
    obtain ⟨written, hwritten, hreads⟩ := ih fun b hb => h b (List.mem_cons_of_mem _ hb)
    refine ⟨bs :: written, ?_, ?_⟩
    · rw [List.mapM_cons, hwrite, hwritten]
      rfl
    · rw [List.flatten_cons]
      exact bind hread (hreads.map fun vs => f a :: vs)

end Reads

end OpenNXT.Buffer
