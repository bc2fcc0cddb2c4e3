import Mathlib.Data.BitVec

/-!
# Shift registers with feedback

A register goes down one bit; where the bit that leaves it is set, a pattern is
added.  With the highest bit of the pattern set nothing is lost.

    shift_xor       the shift is linear
    shifts_high     what has its low bits clear only moves
    shifts_inj      different registers stay different
-/

namespace Registers

variable {w : Nat}

def shift (e x : BitVec w) : BitVec w := if x.getLsbD 0 then (x >>> 1) ^^^ e else x >>> 1

def shifts (e : BitVec w) : Nat → BitVec w → BitVec w
  | 0, x => x
  | n + 1, x => shifts e n (shift e x)

theorem shift_xor (e x y : BitVec w) : shift e (x ^^^ y) = shift e x ^^^ shift e y := by
  unfold shift
  rw [BitVec.getLsbD_xor, BitVec.ushiftRight_xor_distrib]
  cases x.getLsbD 0 <;> cases y.getLsbD 0
  · simp
  · simp [BitVec.xor_assoc]
  · simp only [Bool.true_bne, Bool.not_false, if_true, Bool.false_eq_true, if_false]
    rw [BitVec.xor_assoc, BitVec.xor_comm (y >>> 1), ← BitVec.xor_assoc]
  · simp only [bne_self_eq_false, Bool.false_eq_true, if_false, if_true]
    rw [BitVec.xor_assoc (x >>> 1) e, BitVec.xor_comm e, BitVec.xor_assoc (y >>> 1),
      BitVec.xor_self, BitVec.xor_zero]

theorem shifts_xor (e : BitVec w) (n : Nat) (x y : BitVec w) :
    shifts e n (x ^^^ y) = shifts e n x ^^^ shifts e n y := by
  induction n generalizing x y with
  | zero => rfl
  | succ n ih => rw [shifts, shifts, shifts, shift_xor, ih]

theorem shifts_add (e : BitVec w) (m n : Nat) (x : BitVec w) :
    shifts e (m + n) x = shifts e n (shifts e m x) := by
  induction m generalizing x with
  | zero => rw [Nat.zero_add, shifts]
  | succ m ih => rw [Nat.succ_add, shifts, ih, shifts]

/-- A register whose low `n` bits are clear only moves. -/
theorem shifts_high (e : BitVec w) {n : Nat} {x : BitVec w} (h : ∀ i < n, x.getLsbD i = false) :
    shifts e n x = x >>> n := by
  induction n generalizing x with
  | zero => simp [shifts]
  | succ n ih =>
    have h0 : shift e x = x >>> 1 := by
      unfold shift
      rw [h 0 (Nat.succ_pos n)]
      simp
    have hrest : ∀ i < n, (x >>> 1).getLsbD i = false := by
      intro i hi
      rw [BitVec.getLsbD_ushiftRight]
      exact h (1 + i) (by omega)
    rw [shifts, h0, ih hrest, ← BitVec.shiftRight_add, Nat.add_comm]

/-- The pattern's highest bit says which bit has left. -/
theorem shift_eq_zero {e x : BitVec w} (he : e.msb = true) (h : shift e x = 0) : x = 0 := by
  have hw : 0 < w := by
    rcases Nat.eq_zero_or_pos w with rfl | hw
    · simp [BitVec.of_length_zero] at he
    · exact hw
  unfold shift at h
  cases hbit : x.getLsbD 0
  · rw [hbit] at h
    simp only [Bool.false_eq_true, if_false] at h
    apply BitVec.eq_of_getLsbD_eq
    intro i hi
    cases i with
    | zero => simpa using hbit
    | succ i =>
      have hi' := congrArg (fun y : BitVec w => y.getLsbD i) h
      simp only [BitVec.getLsbD_ushiftRight] at hi'
      rw [Nat.add_comm 1 i] at hi'
      simpa using hi'
  · rw [hbit] at h
    simp only [if_true] at h
    have heq : x >>> 1 = e := by
      rw [← BitVec.xor_zero (x := x >>> 1), ← BitVec.xor_self (x := e), ← BitVec.xor_assoc, h]
      simp
    rw [← heq, BitVec.msb_ushiftRight] at he
    simp at he

/-- **Nothing is lost.** -/
theorem shifts_inj {e : BitVec w} (he : e.msb = true) {n : Nat} {x y : BitVec w}
    (h : shifts e n x = shifts e n y) : x = y := by
  induction n generalizing x y with
  | zero => exact h
  | succ n ih =>
    have hone := ih h
    have hxor : shift e (x ^^^ y) = 0 := by rw [shift_xor, hone, BitVec.xor_self]; rfl
    have hzero := shift_eq_zero he hxor
    rw [← BitVec.xor_zero (x := x), ← BitVec.xor_self (x := y), ← BitVec.xor_assoc, hzero]
    simp

end Registers
