import Mathlib.FieldTheory.Finite.Basic

/-! Powers modulo a product of two primes: exponents that are inverse to each other undo each other. -/
namespace OpenNXT.Arithmetic

/-- An exponent that is one modulo `p - 1` fixes every residue modulo a prime `p`. -/
theorem pow_modEq_self {p n : ℕ} (hp : p.Prime) (h : n ≡ 1 [MOD p - 1]) (hn : 0 < n) (m : ℕ) :
    m ^ n ≡ m [MOD p] := by
  by_cases hdvd : p ∣ m
  · have hzero : m ≡ 0 [MOD p] := (Nat.modEq_zero_iff_dvd).mpr hdvd
    have hpow : m ^ n ≡ 0 [MOD p] := (Nat.modEq_zero_iff_dvd).mpr (dvd_pow hdvd hn.ne')
    exact hpow.trans hzero.symm
  · have hcoprime : Nat.Coprime m p := ((Nat.Prime.coprime_iff_not_dvd hp).mpr hdvd).symm
    have hfermat : m ^ (p - 1) ≡ 1 [MOD p] := by
      have htotient := Nat.ModEq.pow_totient hcoprime
      rwa [Nat.totient_prime hp] at htotient
    obtain ⟨k, hk⟩ := (Nat.modEq_iff_dvd' hn).mp h.symm
    have hsplit : n = 1 + (p - 1) * k := by omega
    calc m ^ n = m * (m ^ (p - 1)) ^ k := by rw [hsplit, pow_add, pow_one, pow_mul]
      _ ≡ m * 1 ^ k [MOD p] := (hfermat.pow k).mul_left m
      _ = m := by rw [one_pow, mul_one]

/-- Encryption is undone below the modulus. -/
theorem pow_pow_mod {p q e d k : ℕ} (hp : p.Prime) (hq : q.Prime) (hne : p ≠ q)
    (h : e * d = k * ((p - 1) * (q - 1)) + 1) {m : ℕ} (hm : m < p * q) :
    (m ^ e % (p * q)) ^ d % (p * q) = m := by
  have hone : e * d ≡ 1 [MOD (p - 1) * (q - 1)] := by
    rw [h, Nat.add_comm]
    exact Nat.add_mul_mod_self_right _ _ _
  have hpos : 0 < e * d := h ▸ Nat.succ_pos _
  have hmodp : m ^ (e * d) ≡ m [MOD p] := pow_modEq_self hp (hone.of_mul_right _) hpos m
  have hmodq : m ^ (e * d) ≡ m [MOD q] := pow_modEq_self hq (hone.of_mul_left _) hpos m
  have hcoprime : Nat.Coprime p q := (Nat.coprime_primes hp hq).mpr hne
  have hboth : m ^ (e * d) ≡ m [MOD p * q] :=
    (Nat.modEq_and_modEq_iff_modEq_mul hcoprime).mp ⟨hmodp, hmodq⟩
  rw [← Nat.pow_mod, ← pow_mul, hboth, Nat.mod_eq_of_lt hm]

end OpenNXT.Arithmetic
