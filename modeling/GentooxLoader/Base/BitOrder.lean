import Mathlib.Algebra.Order.Ring.Nat
import Mathlib.Tactic.Ring

/-!
# Numbers whose first bit is the lowest or the highest

A number is read bit by bit from its low end; `rev k` puts the first `k` of
these bits into the other order, so that what begins with the same bits is one
interval.

    rev_inj        the first bits are the same ↔ the reversed ones are
    rev_div        fewer bits
    rev_mul        zeros behind
    mod_eq_rev_iff the same first bits ↔ the same part of the numbers
    rev_mem_iff    the same first bits ↔ in the interval
-/

namespace BitOrder

/-- The first `k` bits of `x`, the lowest first, with the first one highest. -/
def rev : Nat → Nat → Nat
  | 0, _ => 0
  | k + 1, x => x % 2 * 2 ^ k + rev k (x / 2)

theorem rev_lt (k x : Nat) : rev k x < 2 ^ k := by
  induction k generalizing x with
  | zero => exact Nat.one_pos
  | succ k ih =>
    have h := ih (x / 2)
    rw [rev, Nat.pow_succ]
    rcases Nat.mod_two_eq_zero_or_one x with hx | hx <;> rw [hx] <;> omega

@[simp] theorem rev_zero (k : Nat) : rev k 0 = 0 := by
  induction k with
  | zero => rfl
  | succ k ih => rw [rev, Nat.zero_mod, Nat.zero_div, ih, Nat.zero_mul]

/-- The last of the bits. -/
theorem rev_succ (k x : Nat) : rev (k + 1) x = 2 * rev k x + x / 2 ^ k % 2 := by
  induction k generalizing x with
  | zero => simp [rev]
  | succ k ih =>
    have hlast : x / 2 / 2 ^ k = x / 2 ^ (k + 1) := by
      rw [Nat.div_div_eq_div_mul, Nat.pow_succ, Nat.mul_comm]
    rw [rev, ih (x / 2), hlast, rev, Nat.pow_succ]
    ring

theorem rev_inj {k x y : Nat} : rev k x = rev k y ↔ x % 2 ^ k = y % 2 ^ k := by
  induction k generalizing x y with
  | zero => simp [rev, Nat.mod_one]
  | succ k ih =>
    have hx := rev_lt k (x / 2)
    have hy := rev_lt k (y / 2)
    have hstep : rev (k + 1) x = rev (k + 1) y ↔ x % 2 = y % 2 ∧ rev k (x / 2) = rev k (y / 2) := by
      rw [rev, rev]
      rcases Nat.mod_two_eq_zero_or_one x with h1 | h1 <;>
        rcases Nat.mod_two_eq_zero_or_one y with h2 | h2 <;> rw [h1, h2] <;> omega
    have hmod (z : Nat) : z % 2 ^ (k + 1) = z % 2 + 2 * (z / 2 % 2 ^ k) := by
      rw [Nat.pow_succ', Nat.mod_mul]
    rw [hstep, ih, hmod x, hmod y]
    omega

/-- Of `k + d` bits the last `d` are left out. -/
theorem rev_div (k d x : Nat) : rev (k + d) x / 2 ^ d = rev k x := by
  induction d with
  | zero => rw [Nat.pow_zero, Nat.div_one, Nat.add_zero]
  | succ d ih =>
    have hhalf : rev (k + d + 1) x / 2 = rev (k + d) x := by
      rw [rev_succ]
      omega
    rw [← Nat.add_assoc, Nat.pow_succ', ← Nat.div_div_eq_div_mul, hhalf, ih]

/-- A multiple of `2 ^ d` has its bits among the first ones. -/
theorem rev_mul (k d x : Nat) : rev (k + d) (x * 2 ^ d) = rev k x := by
  induction d generalizing x with
  | zero => rw [Nat.pow_zero, Nat.mul_one, Nat.add_zero]
  | succ d ih =>
    have heven : x * 2 ^ (d + 1) = 2 * (x * 2 ^ d) := by
      rw [Nat.pow_succ]
      ring
    rw [← Nat.add_assoc, rev, heven, Nat.mul_mod_right, Nat.zero_mul, Nat.zero_add,
      Nat.mul_div_cancel_left _ Nat.two_pos, ih]

theorem rev_rev (k x : Nat) : rev k (rev k x) = x % 2 ^ k := by
  induction k generalizing x with
  | zero => simp [rev, Nat.mod_one]
  | succ k ih =>
    have hbit : rev (k + 1) x % 2 = x / 2 ^ k % 2 := by
      rw [rev_succ]
      omega
    have hrest : rev (k + 1) x / 2 = rev k x := rev_div k 1 x ▸ by rw [Nat.pow_one]
    rw [rev, hbit, hrest, ih, Nat.pow_succ, Nat.mod_mul]
    ring

/-- The same first bits, seen from the other order. -/
theorem mod_eq_rev_iff {g w A S : Nat} (hw : w ≤ g) (hA : A < 2 ^ g) :
    S % 2 ^ w = rev g A % 2 ^ w ↔ rev g S / 2 ^ (g - w) = A / 2 ^ (g - w) := by
  obtain ⟨d, rfl⟩ := Nat.exists_eq_add_of_le hw
  have hrev := rev_div w d (rev (w + d) A)
  rw [rev_rev, Nat.mod_eq_of_lt hA] at hrev
  rw [Nat.add_sub_cancel_left, hrev, rev_div, rev_inj]

/-- Numbers that begin with the first `k` bits of `V`, one of `g` bits of which the rest is 0,
are an interval. -/
theorem rev_mem_iff {g k V S : Nat} (hk : k ≤ g) (hV : 2 ^ (g - k) ∣ V) :
    S % 2 ^ k = rev g V % 2 ^ k ∧ V < 2 ^ g ↔ V ≤ rev g S ∧ rev g S < V + 2 ^ (g - k) ∧ V < 2 ^ g := by
  obtain ⟨d, rfl⟩ := Nat.exists_eq_add_of_le hk
  rw [Nat.add_sub_cancel_left] at *
  obtain ⟨C, rfl⟩ := hV
  have hpos : 0 < 2 ^ d := Nat.two_pow_pos d
  have hrev : rev (k + d) (2 ^ d * C) = rev k C := by rw [Nat.mul_comm, rev_mul]
  have hS := rev_div k d S
  have hlt := Nat.div_add_mod (rev (k + d) S) (2 ^ d)
  have hmod := Nat.mod_lt (rev (k + d) S) hpos
  rw [hrev, ← rev_inj, rev_rev, ← hS, ← and_assoc]
  refine and_congr_left fun hC => ?_
  have hC' : C < 2 ^ k := by
    rw [Nat.pow_add, Nat.mul_comm] at hC
    exact Nat.lt_of_mul_lt_mul_right hC
  rw [Nat.mod_eq_of_lt hC']
  constructor
  · intro h
    rw [h] at hlt
    omega
  · rintro ⟨h1, h2⟩
    have hle : C ≤ rev (k + d) S / 2 ^ d := by
      rw [Nat.le_div_iff_mul_le hpos, Nat.mul_comm]
      exact h1
    have hge : rev (k + d) S / 2 ^ d < C + 1 := by
      rw [Nat.div_lt_iff_lt_mul hpos, Nat.add_mul, Nat.one_mul, Nat.mul_comm C]
      exact h2
    omega

end BitOrder
