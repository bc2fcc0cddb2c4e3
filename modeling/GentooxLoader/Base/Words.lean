import Mathlib.Data.Nat.Bitwise
import Mathlib.Data.UInt

/-!
# Machine words as numbers
-/

namespace Words

/-- A mask that clears the low `k` bits rounds down. -/
theorem and_mask (x : UInt32) {m : UInt32} {k : Nat} (hk : k ≤ 32) (hm : m.toNat = 2 ^ 32 - 2 ^ k) :
    (x &&& m).toNat = x.toNat / 2 ^ k * 2 ^ k := by
  have hx := x.toNat_lt
  have hpos : 0 < 2 ^ k := Nat.two_pow_pos k
  have hle : 2 ^ k ≤ 2 ^ 32 := Nat.pow_le_pow_right (by decide) hk
  rw [UInt32.toNat_and, hm, ← Nat.shiftRight_eq_div_pow, ← Nat.shiftLeft_eq]
  apply Nat.eq_of_testBit_eq
  intro i
  rw [Nat.testBit_and, Nat.testBit_shiftLeft, Nat.testBit_shiftRight,
    show 2 ^ 32 - 2 ^ k = 2 ^ 32 - (2 ^ k - 1 + 1) by omega, Nat.testBit_two_pow_sub_succ (by omega),
    Nat.testBit_two_pow_sub_one]
  by_cases hik : k ≤ i
  · rw [Nat.add_sub_cancel' hik]
    by_cases hi : i < 32
    · simp [hik, hi, Nat.not_lt.2 hik]
    · have hbig : x.toNat < 2 ^ i := hx.trans_le (Nat.pow_le_pow_right (by decide) (Nat.not_lt.1 hi))
      rw [Nat.testBit_lt_two_pow hbig]
      simp
  · simp [hik, Nat.lt_of_not_le hik]

/-! ## Bytes of a word -/

theorem and_byte (x : UInt32) : (x &&& 0xff).toUInt8 = x.toUInt8 := by
  rw [← UInt8.toNat_inj, UInt32.toNat_toUInt8, UInt32.toNat_toUInt8, UInt32.toNat_and]
  show (x.toNat &&& (2 ^ 8 - 1)) % 2 ^ 8 = x.toNat % 2 ^ 8
  rw [Nat.and_two_pow_sub_one_eq_mod, Nat.mod_mod]

theorem and_byte_short (x : UInt32) : (x &&& 0xff).toUInt16 = x.toUInt8.toUInt16 := by
  rw [← UInt16.toNat_inj, UInt32.toNat_toUInt16, UInt8.toNat_toUInt16, UInt32.toNat_toUInt8,
    UInt32.toNat_and]
  show (x.toNat &&& (2 ^ 8 - 1)) % 2 ^ 16 = x.toNat % 2 ^ 8
  rw [Nat.and_two_pow_sub_one_eq_mod]
  omega

theorem and_short (x : UInt32) : (x &&& 0xffff).toUInt16 = x.toUInt16 := by
  rw [← UInt16.toNat_inj, UInt32.toNat_toUInt16, UInt32.toNat_toUInt16, UInt32.toNat_and]
  show (x.toNat &&& (2 ^ 16 - 1)) % 2 ^ 16 = x.toNat % 2 ^ 16
  rw [Nat.and_two_pow_sub_one_eq_mod, Nat.mod_mod]

/-- The second byte, by way of the low short. -/
theorem short_second (x : UInt32) : (x.toUInt16 >>> 8).toUInt8 = (x >>> 8).toUInt8 := by
  rw [← UInt8.toNat_inj, UInt16.toNat_toUInt8, UInt32.toNat_toUInt8, UInt16.toNat_shiftRight,
    UInt32.toNat_shiftRight, UInt32.toNat_toUInt16]
  show (x.toNat % 2 ^ 16) >>> 8 % 2 ^ 8 = x.toNat >>> 8 % 2 ^ 8
  rw [Nat.shiftRight_eq_div_pow, Nat.shiftRight_eq_div_pow]
  omega

/-- Two bytes put together, low byte first. -/
theorem toNat_or_bytes (a b : UInt8) :
    (a.toUInt16 ||| b.toUInt16 <<< 8).toNat = a.toNat + b.toNat * 2 ^ 8 := by
  have ha := a.toNat_lt
  have hb := b.toNat_lt
  rw [UInt16.toNat_or, UInt16.toNat_shiftLeft, UInt8.toNat_toUInt16, UInt8.toNat_toUInt16]
  show a.toNat ||| b.toNat <<< 8 % 2 ^ 16 = _
  have hlt : b.toNat <<< 8 < 2 ^ 16 := by
    rw [Nat.shiftLeft_eq]
    omega
  rw [Nat.mod_eq_of_lt hlt, Nat.or_comm, ← Nat.shiftLeft_add_eq_or_of_lt ha, Nat.shiftLeft_eq,
    Nat.add_comm]

theorem or_bytes_inj {a b c d : UInt8}
    (h : a.toUInt16 ||| b.toUInt16 <<< 8 = c.toUInt16 ||| d.toUInt16 <<< 8) : a = c ∧ b = d := by
  have hnat := congrArg UInt16.toNat h
  rw [toNat_or_bytes, toNat_or_bytes] at hnat
  have ha := a.toNat_lt
  have hc := c.toNat_lt
  exact ⟨UInt8.toNat_inj.1 (by omega), UInt8.toNat_inj.1 (by omega)⟩

/-- Two bytes of a word put together again. -/
theorem or_second (x : UInt32) :
    x.toUInt8.toUInt16 ||| (x >>> 8).toUInt8.toUInt16 <<< 8 = x.toUInt16 := by
  rw [← UInt16.toNat_inj, toNat_or_bytes, UInt32.toNat_toUInt8, UInt32.toNat_toUInt8,
    UInt32.toNat_toUInt16, UInt32.toNat_shiftRight]
  show x.toNat % 2 ^ 8 + x.toNat >>> 8 % 2 ^ 8 * 2 ^ 8 = x.toNat % 2 ^ 16
  rw [Nat.shiftRight_eq_div_pow]
  omega

/-! ## Signed words of 32 bits -/

/-- What an `int` or a `long` keeps of an integer. -/
def long (x : Int) : Int := x.bmod (2 ^ 32)

theorem long_long (x : Int) : long (long x) = long x := Int.bmod_bmod

/-- What is between 2^31 and 2^32 comes out negative. -/
theorem long_of_nonneg {x : Int} (h0 : 0 ≤ x) (h1 : x < 2 ^ 32) (h : 0 ≤ long x) : long x = x := by
  have hmod : x % (2 ^ 32 : Nat) = x := Int.emod_eq_of_lt h0 h1
  unfold long at *
  rw [Int.bmod_eq_emod, hmod] at h ⊢
  by_cases hbig : x ≥ ((2 ^ 32 : Nat) + 1 : Int) / 2
  · rw [if_pos hbig] at h
    omega
  · rw [if_neg hbig]
    exact Int.sub_zero x

theorem long_of_fits {x : Int} (h0 : -2 ^ 31 ≤ x) (h1 : x < 2 ^ 31) : long x = x :=
  Int.bmod_eq_of_le_mul_two (by omega) (by omega)

theorem long_of_small {x : Int} (h0 : 0 ≤ x) (h1 : x < 2 ^ 31) : long x = x :=
  long_of_fits (by omega) h1

/-- The lower bits stay. -/
theorem long_emod (x : Int) {k : Int} (hk : k ∣ (2 ^ 32 : Nat)) : long x % k = x % k := by
  have hmod : long x % (2 ^ 32 : Nat) = x % (2 ^ 32 : Nat) := Int.bmod_emod
  rw [← Int.emod_emod_of_dvd (long x) hk, hmod, Int.emod_emod_of_dvd x hk]

end Words
