import Mathlib.Data.Nat.ModEq

/-!
# Epochs

A counter that only grows and of which only the low bits are kept.  A stamp tells its epoch from
the epochs that follow until the counter has gone all the way around.
-/

namespace BrittleKernel

/-- What is kept of the `n`th epoch. -/
def stamp (w n : Nat) : BitVec w := BitVec.ofNat w n

variable {w m n : Nat}

theorem stamp_succ : stamp w (n + 1) = stamp w n + 1#w := by
  simp [stamp, BitVec.ofNat_add]

theorem stamp_eq_iff : stamp w m = stamp w n ↔ m ≡ n [MOD 2 ^ w] := by
  rw [← BitVec.toNat_inj, stamp, stamp, BitVec.toNat_ofNat, BitVec.toNat_ofNat]
  exact Iff.rfl

/-- Two epochs have the same stamp if whole turns of the counter lie between them. -/
theorem stamp_eq_iff_dvd (h : m ≤ n) : stamp w m = stamp w n ↔ 2 ^ w ∣ n - m :=
  stamp_eq_iff.trans (Nat.modEq_iff_dvd' h)

/-- Before the counter has gone around, a stamp stands for one epoch. -/
theorem eq_of_stamp_eq (h : m ≤ n) (hn : n < 2 ^ w) (heq : stamp w m = stamp w n) : m = n := by
  obtain ⟨turns, hturns⟩ := (stamp_eq_iff_dvd h).mp heq
  cases turns with
  | zero => omega
  | succ turns =>
    have : 2 ^ w ≤ 2 ^ w * (turns + 1) := Nat.le_mul_of_pos_right _ (Nat.succ_pos _)
    omega

/-- The stamp of the last epoch before the counter starts again. -/
theorem stamp_last : stamp w (2 ^ w - 1) = 0#w - 1#w := by
  apply BitVec.eq_of_toNat_eq
  have hpos : 0 < 2 ^ w := Nat.two_pow_pos w
  rw [stamp, BitVec.toNat_ofNat, Nat.mod_eq_of_lt (by omega)]
  simp [BitVec.toNat_allOnes, BitVec.neg_one_eq_allOnes]

end BrittleKernel
