import OpenNXT.Buffer.BigEndian

/-! Writing into a buffer of a fixed size, and again into one of four times the size where it
overflows. The size is an `Int`. -/
namespace OpenNXT.Buffer

inductive PutError
  | overflow
  | rejected
  deriving DecidableEq

/-- The puts of one attempt in order; `none` is one that throws something else. -/
def putChunks (size : ℕ) : List (Option (List Byte)) → List Byte → Except PutError (List Byte)
  | [], buffer => .ok buffer
  | none :: _, _ => .error .rejected
  | some bytes :: chunks, buffer =>
    if buffer.length + bytes.length ≤ size then putChunks size chunks (buffer ++ bytes)
    else .error .overflow

/-- The attempts; `none` is one more than the rounds given. -/
def putGrowing (chunks : List (Option (List Byte))) :
    ℕ → Word → Option (Except PutError (List Byte))
  | 0, _ => none
  | n + 1, size =>
    match putChunks size.toNat chunks [] with
    | .error .overflow => putGrowing chunks n (size * 4)
    | attempt => some attempt

theorem putChunks_eq {size : ℕ} {buffer : List Byte} (hbuffer : buffer.length ≤ size)
    (chunks : List (List Byte)) : putChunks size (chunks.map some) buffer =
      if buffer.length + chunks.flatten.length ≤ size then .ok (buffer ++ chunks.flatten)
      else .error .overflow := by
  induction chunks generalizing buffer with
  | nil =>
    rw [List.flatten_nil, List.length_nil, Nat.add_zero, if_pos hbuffer, List.append_nil]
    rfl
  | cons bytes chunks ih =>
    rw [List.map_cons, putChunks, List.flatten_cons, List.length_append, ← Nat.add_assoc]
    by_cases hfirst : buffer.length + bytes.length ≤ size
    · have hlen : (buffer ++ bytes).length = buffer.length + bytes.length := List.length_append
      rw [if_pos hfirst, ih (by omega), hlen, List.append_assoc]
    · rw [if_neg hfirst, if_neg (by omega)]

/-- Puts none of which throws anything else, and the bytes that they come to. -/
def Written (puts : List (Option (List Byte))) (bytes : List Byte) : Prop :=
  ∃ chunks : List (List Byte), puts = chunks.map some ∧ chunks.flatten = bytes

namespace Written

theorem nil : Written [] [] := ⟨[], rfl, rfl⟩

theorem cons {puts : List (Option (List Byte))} {put : Option (List Byte)} {bytes rest : List Byte}
    (hput : put = some bytes) (h : Written puts rest) : Written (put :: puts) (bytes ++ rest) := by
  obtain ⟨chunks, rfl, rfl⟩ := h
  exact ⟨bytes :: chunks, by rw [hput, List.map_cons], List.flatten_cons⟩

theorem append {first second : List (Option (List Byte))} {bytes rest : List Byte}
    (hfirst : Written first bytes) (hsecond : Written second rest) :
    Written (first ++ second) (bytes ++ rest) := by
  obtain ⟨chunks, rfl, rfl⟩ := hfirst
  obtain ⟨more, rfl, rfl⟩ := hsecond
  exact ⟨chunks ++ more, List.map_append.symm, List.flatten_append⟩

theorem optional {puts : List (Option (List Byte))} {bytes : List Byte} {present : Prop}
    [Decidable present] (h : Written puts bytes) :
    Written (if present then puts else []) (if present then bytes else []) := by
  split_ifs
  · exact h
  · exact nil

theorem flatMap {α : Type} {l : List α} {puts : α → List (Option (List Byte))}
    {bytes : α → List Byte} (h : ∀ a ∈ l, Written (puts a) (bytes a)) :
    Written (l.flatMap puts) (l.flatMap bytes) := by
  induction l with
  | nil => exact nil
  | cons a l ih =>
    rw [List.flatMap_cons, List.flatMap_cons]
    exact (h a List.mem_cons_self).append (ih fun b hb => h b (List.mem_cons_of_mem a hb))

end Written

/-- The sizes on the way: four times the last, until there is none left of an `Int`. -/
def growth (k : ℕ) : Word := BitVec.ofNat 32 (4096 * 4 ^ k)

theorem growth_succ (k : ℕ) : growth k * 4 = growth (k + 1) := by
  rw [growth, growth, pow_succ, ← Nat.mul_assoc]
  exact (BitVec.ofNat_mul (4096 * 4 ^ k) 4).symm

theorem toNat_growth {k : ℕ} (hk : k ≤ 9) : (growth k).toNat = 4096 * 4 ^ k := by
  have hle : 4 ^ k ≤ 4 ^ 9 := Nat.pow_le_pow_right (by omega) hk
  rw [growth, BitVec.toNat_ofNat, Nat.mod_eq_of_lt (by omega)]

theorem toNat_growth_le (k : ℕ) : (growth k).toNat ≤ 2 ^ 30 := by
  by_cases hk : k ≤ 9
  · have hle : 4 ^ k ≤ 4 ^ 9 := Nat.pow_le_pow_right (by omega) hk
    rw [toNat_growth hk]
    omega
  · have hsplit : 4096 * 4 ^ k = 2 ^ 32 * 4 ^ (k - 10) := by
      have hpow : 4 ^ k = 4 ^ 10 * 4 ^ (k - 10) := by rw [← pow_add, Nat.add_sub_cancel' (by omega)]
      omega
    rw [growth, BitVec.toNat_ofNat, hsplit, Nat.mul_mod_right]
    exact Nat.zero_le _

section
variable {chunks : List (List Byte)}

theorem putGrowing_succ (n k : ℕ) : putGrowing (chunks.map some) (n + 1) (growth k) =
    if chunks.flatten.length ≤ (growth k).toNat then some (.ok chunks.flatten)
    else putGrowing (chunks.map some) n (growth (k + 1)) := by
  rw [putGrowing, putChunks_eq (Nat.zero_le _), List.length_nil, Nat.zero_add, List.nil_append]
  split_ifs with hfits
  · rfl
  · exact congrArg (putGrowing (chunks.map some) n) (growth_succ k)

theorem putGrowing_of_le (hlen : chunks.flatten.length ≤ 2 ^ 30) {n k : ℕ} (hsum : n + k = 9) :
    putGrowing (chunks.map some) (n + 1) (growth k) = some (.ok chunks.flatten) := by
  induction n generalizing k with
  | zero =>
    have hk : k = 9 := by omega
    rw [putGrowing_succ, toNat_growth hk.le, hk, if_pos (by omega)]
  | succ n ih =>
    rw [putGrowing_succ]
    split_ifs with hfits
    · rfl
    · exact ih (by omega)

theorem of_putGrowing {n k : ℕ} {result : Except PutError (List Byte)}
    (h : putGrowing (chunks.map some) n (growth k) = some result) :
    chunks.flatten.length ≤ 2 ^ 30 ∧ result = .ok chunks.flatten := by
  induction n generalizing k with
  | zero => cases h
  | succ n ih =>
    rw [putGrowing_succ] at h
    split_ifs at h with hfits
    · cases h
      exact ⟨hfits.trans (toNat_growth_le k), rfl⟩
    · exact ih h

/-- The attempts come to an end exactly up to a gigabyte: four times that is no size at all. -/
theorem Written.putGrowing_iff {puts : List (Option (List Byte))} {bytes : List Byte}
    (h : Written puts bytes) {result : Except PutError (List Byte)} :
    (∃ n, putGrowing puts n 4096 = some result) ↔ bytes.length ≤ 2 ^ 30 ∧ result = .ok bytes := by
  have hstart : (4096 : Word) = growth 0 := rfl
  obtain ⟨chunks, rfl, rfl⟩ := h
  rw [hstart]
  constructor
  · rintro ⟨n, hn⟩
    exact of_putGrowing hn
  · rintro ⟨hlen, rfl⟩
    exact ⟨10, putGrowing_of_le hlen rfl⟩

/-- One attempt at a size that does not grow. -/
theorem Written.putChunks_eq_ok {puts : List (Option (List Byte))} {bytes : List Byte}
    (h : Written puts bytes) (size : ℕ) (hlen : bytes.length ≤ size) :
    putChunks size puts [] = .ok bytes := by
  obtain ⟨chunks, rfl, rfl⟩ := h
  rw [putChunks_eq (Nat.zero_le _), List.length_nil, Nat.zero_add, if_pos hlen, List.nil_append]

end

end OpenNXT.Buffer
