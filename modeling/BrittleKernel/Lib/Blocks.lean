import Mathlib.Data.Nat.Bitwise

/-!
# Naturally Aligned Blocks

Blocks of a power-of-two size at a multiple of that size: who lies in one, how a block
falls into eighths, and the mask tests that recognise one.
-/

namespace Blocks

variable {a b n l : Nat}

/-! ## Membership -/

/-- An address lies in an aligned block exactly if it agrees with the base above the size. -/
theorem div_eq_div_iff (hb : n ∣ b) (hn : 0 < n) : a / n = b / n ↔ b ≤ a ∧ a < b + n := by
  obtain ⟨q, rfl⟩ := hb
  rw [Nat.mul_div_cancel_left q hn, Nat.div_eq_iff hn, Nat.mul_comm q n]
  omega

/-- Inside an aligned block, the three address bits below its size count the eighths from its
base. -/
theorem eighth_eq (hl : 3 ≤ l) (hb : 2 ^ l ∣ b) (hle : b ≤ a) (hlt : a < b + 2 ^ l) :
    a / 2 ^ (l - 3) % 8 = (a - b) / 2 ^ (l - 3) := by
  obtain ⟨q, rfl⟩ := hb
  obtain ⟨x, rfl⟩ := Nat.exists_eq_add_of_le hle
  have hpow : 2 ^ l = 2 ^ (l - 3) * 8 := by
    rw [show (8 : Nat) = 2 ^ 3 from rfl, ← Nat.pow_add, Nat.sub_add_cancel hl]
  have hpos : 0 < 2 ^ (l - 3) := Nat.two_pow_pos _
  have hx : x / 2 ^ (l - 3) < 8 := by
    apply Nat.div_lt_of_lt_mul
    rw [← hpow]
    omega
  rw [Nat.add_sub_cancel_left, hpow, Nat.mul_assoc, Nat.mul_add_div hpos, Nat.mul_add_mod,
    Nat.mod_eq_of_lt hx]

/-! ## Mask tests -/

/-- The bits below a power of two vanish exactly in its multiples. -/
theorem and_pred_eq_zero_iff : b &&& (2 ^ l - 1) = 0 ↔ 2 ^ l ∣ b := by
  rw [Nat.and_two_pow_sub_one_eq_mod, Nat.dvd_iff_mod_eq_zero]

/-- A number without its lowest one bit vanishes exactly if it is a power of two. -/
theorem and_pred_self_eq_zero_iff (hn : n ≠ 0) : n &&& (n - 1) = 0 ↔ ∃ k, n = 2 ^ k :=
  Nat.and_sub_one_eq_zero_iff_isPowerOfTwo hn

/-- Clearing the bits below a power of two leaves its multiples alone. -/
theorem shiftRight_shiftLeft_of_dvd (hb : 2 ^ l ∣ b) : b >>> l <<< l = b := by
  rw [Nat.shiftRight_eq_div_pow, Nat.shiftLeft_eq, Nat.div_mul_cancel hb]

/-! ## Rounding up by smearing -/

section Smearing

variable {w : Nat} {u x : BitVec w}

/-- Bit `i` of `x` tells whether `u` has a one among the `n` bits from `i` on. -/
def Smeared (u x : BitVec w) (n : Nat) : Prop :=
  ∀ i, x.getLsbD i = true ↔ ∃ d < n, u.getLsbD (i + d) = true

theorem Smeared.one (u : BitVec w) : Smeared u u 1 := by
  intro i
  constructor
  · intro h
    exact ⟨0, by decide, h⟩
  · rintro ⟨d, hd, h⟩
    obtain rfl : d = 0 := by omega
    exact h

/-- Joining a shift by `n` doubles the reach. -/
theorem Smeared.double {n : Nat} (h : Smeared u x n) : Smeared u (x ||| (x >>> n)) (n + n) := by
  intro i
  rw [BitVec.getLsbD_or, BitVec.getLsbD_ushiftRight, Bool.or_eq_true, h i, h (n + i)]
  constructor
  · rintro (⟨d, hd, hbit⟩ | ⟨d, hd, hbit⟩)
    · exact ⟨d, by omega, hbit⟩
    · exact ⟨n + d, by omega, by rwa [show i + (n + d) = n + i + d by omega]⟩
  · rintro ⟨d, hd, hbit⟩
    by_cases hlow : d < n
    · exact .inl ⟨d, hlow, hbit⟩
    · exact .inr ⟨d - n, by omega, by rwa [show n + i + (d - n) = i + d by omega]⟩

/-- A smear over the whole width fills everything below the leading one. -/
theorem Smeared.toNat_eq (h : Smeared u x w) (hu : u ≠ 0#w) :
    x.toNat = 2 ^ (u.toNat.log2 + 1) - 1 := by
  have hne : u.toNat ≠ 0 := fun hzero => hu (BitVec.eq_of_toNat_eq (by simpa using hzero))
  have htop : u.getLsbD u.toNat.log2 = true := Nat.testBit_log2 hne
  apply Nat.eq_of_testBit_eq
  intro i
  rw [Nat.testBit_two_pow_sub_one, Bool.eq_iff_iff, decide_eq_true_eq]
  show x.getLsbD i = true ↔ _
  rw [h i]
  constructor
  · rintro ⟨d, -, hbit⟩
    by_contra hle
    have hsmall : u.toNat < 2 ^ (i + d) :=
      Nat.lt_log2_self.trans_le (Nat.pow_le_pow_right (by decide) (by omega))
    have hclear : u.getLsbD (i + d) = false := Nat.testBit_lt_two_pow hsmall
    rw [hclear] at hbit
    contradiction
  · intro hi
    have hwidth := BitVec.lt_of_getLsbD htop
    exact ⟨u.toNat.log2 - i, by omega, by rwa [show i + (u.toNat.log2 - i) = u.toNat.log2 by omega]⟩

end Smearing

end Blocks
