import GentooxLoader.Base.Registers
import GentooxLoader.Gzip.Deflate
import Mathlib.Data.UInt
import Mathlib.Data.Nat.Bitwise

/-!
# The check of the output (lib/gzip/inflate.c, lib/gzip/misc.c)

`makecrc` makes a table of 256 words, with which `flush_window` takes a byte at a
time.  `crcOf` says what that is: a register of 32 bits that the bits of the
output are added to, with its ones taken for zeros at both ends.

    crcNext_eq       the table does what eight bits do
    crcFrom_append   pieces of the output
    crcOf_burst      a change within four bytes is noticed
-/

namespace Gentoox.Gzip

open Registers

/-! ## Algorithm -/

/-- Terms of the polynomial, except `x^32`. -/
def crcTerms : List Nat := [0, 1, 2, 4, 5, 7, 8, 10, 11, 12, 16, 22, 23, 26]

/-- The exclusive-or pattern. -/
def crcPattern : UInt32 := crcTerms.foldl (fun e p => e ||| (1 <<< UInt32.ofNat (31 - p))) 0

/-- `for (k = i | 256; k != 1; k >>= 1)`, which has eight turns. -/
def crcLoop : Nat → Nat → UInt32 → UInt32
  | 0, _, c => c
  | fuel + 1, k, c =>
    if k ≠ 1 then
      let c := if c &&& 1 ≠ 0 then (c >>> 1) ^^^ crcPattern else c >>> 1
      crcLoop fuel (k >>> 1) (if k &&& 1 ≠ 0 then c ^^^ crcPattern else c)
    else c

/-- `crc_32_tab[i]` as `makecrc` leaves it. -/
def crcTab (i : Nat) : UInt32 := if i = 0 then 0 else crcLoop 9 (i ||| 256) 0

/-- The shift register contents at the start. -/
def crcStart : UInt32 := 0xffffffff

/-- One byte in `flush_window`. -/
def crcNext (c : UInt32) (ch : UInt8) : UInt32 :=
  crcTab ((c ^^^ ch.toUInt32) &&& 0xff).toNat ^^^ (c >>> 8)

/-- `CRC_VALUE`. -/
def crcValue (c : UInt32) : UInt32 := c ^^^ 0xffffffff

/-! ## The register -/

/-- Eight bits, the lowest first. -/
def crcByte (c : BitVec 32) (ch : UInt8) : BitVec 32 :=
  shifts crcPattern.toBitVec 8 (c ^^^ ch.toBitVec.setWidth 32)

def crcFrom (c : BitVec 32) (out : List UInt8) : BitVec 32 := out.foldl crcByte c

/-- The check of what was put out. -/
def crcOf (out : List UInt8) : BitVec 32 := crcFrom (BitVec.allOnes 32) out ^^^ BitVec.allOnes 32

theorem crcFrom_append (c : BitVec 32) (out out' : List UInt8) :
    crcFrom c (out ++ out') = crcFrom (crcFrom c out) out' := List.foldl_append

theorem pattern_msb : crcPattern.toBitVec.msb = true := by decide

/-! ## The table -/

theorem low_bit (c : UInt32) : c &&& 1 ≠ 0 ↔ c.toBitVec.getLsbD 0 = true := by
  have h : (c &&& 1).toBitVec = BitVec.setWidth 32 (BitVec.ofBool (c.toBitVec.getLsbD 0)) := by
    rw [UInt32.toBitVec_and]
    exact BitVec.and_one_eq_setWidth_ofBool_getLsbD
  rw [Ne, ← UInt32.toBitVec_inj, h]
  cases c.toBitVec.getLsbD 0 <;> decide

theorem shift_toBitVec (c : UInt32) :
    (if c &&& 1 ≠ 0 then (c >>> 1) ^^^ crcPattern else c >>> 1).toBitVec =
      shift crcPattern.toBitVec c.toBitVec := by
  unfold shift
  by_cases h : c.toBitVec.getLsbD 0 = true
  · rw [if_pos ((low_bit c).2 h), if_pos h]
    simp
  · rw [if_neg (fun hc => h ((low_bit c).1 hc)), if_neg h]
    simp

theorem getLsbD_ofNat_lt {m i : Nat} (hm : m < 2 ^ 32) :
    (BitVec.ofNat 32 m).getLsbD i = m.testBit i := by
  rw [BitVec.getLsbD_ofNat]
  by_cases hi : i < 32
  · simp [hi]
  · have hbig : m < 2 ^ i := hm.trans_le (Nat.pow_le_pow_right (by decide) (Nat.not_lt.1 hi))
    rw [Nat.testBit_lt_two_pow hbig, Bool.and_false]

/-- The low bit, and the others. -/
theorem ofNat_split {m : Nat} (hm : m < 2 ^ 32) :
    BitVec.ofNat 32 m = BitVec.ofNat 32 (m % 2) ^^^ BitVec.ofNat 32 (2 * (m / 2)) := by
  apply BitVec.eq_of_getLsbD_eq
  intro i _
  rw [BitVec.getLsbD_xor, getLsbD_ofNat_lt hm, getLsbD_ofNat_lt (by omega),
    getLsbD_ofNat_lt (by omega)]
  cases i with
  | zero => simp [Nat.testBit_zero]
  | succ i =>
    rw [Nat.testBit_succ, Nat.testBit_succ, Nat.testBit_succ,
      Nat.div_eq_of_lt (Nat.mod_lt m Nat.two_pos), Nat.mul_div_cancel_left _ Nat.two_pos,
      Nat.zero_testBit, Bool.false_xor]

theorem shift_double {m : Nat} (hm : 2 * m < 2 ^ 32) :
    shift crcPattern.toBitVec (BitVec.ofNat 32 (2 * m)) = BitVec.ofNat 32 m := by
  have hbit : (BitVec.ofNat 32 (2 * m)).getLsbD 0 = false := by
    rw [getLsbD_ofNat_lt hm, Nat.testBit_zero]
    simp
  unfold shift
  rw [if_neg (by rw [hbit]; decide)]
  apply BitVec.eq_of_getLsbD_eq
  intro i _
  rw [BitVec.getLsbD_ushiftRight, getLsbD_ofNat_lt hm, getLsbD_ofNat_lt (by omega), Nat.add_comm,
    Nat.testBit_succ, Nat.mul_div_cancel_left _ Nat.two_pos]

theorem shift_bit (b : Nat) (hb : b < 2) :
    shift crcPattern.toBitVec (BitVec.ofNat 32 b) = if b = 1 then crcPattern.toBitVec else 0 := by
  rcases Nat.lt_or_eq_of_le (Nat.le_of_lt_succ hb) with h0 | rfl
  · obtain rfl : b = 0 := by omega
    decide
  · decide

/-- **The bits of an index are those of a byte**: with `j` bits of it to come below the
highest bit of `k`. -/
theorem crcLoop_eq {fuel j m : Nat} {c : UInt32} (hj : j ≤ 8) (hm : m < 2 ^ j) (hfuel : j < fuel) :
    (crcLoop fuel (2 ^ j + m) c).toBitVec =
      shifts crcPattern.toBitVec j (c.toBitVec ^^^ BitVec.ofNat 32 m) := by
  induction j generalizing fuel m c with
  | zero =>
    obtain ⟨fuel, rfl⟩ := Nat.exists_eq_add_of_lt hfuel
    obtain rfl : m = 0 := by simpa using hm
    rw [Nat.zero_add, crcLoop, if_neg (by simp), shifts]
    simp
  | succ j ih =>
    obtain ⟨fuel, rfl⟩ := Nat.exists_eq_succ_of_ne_zero (Nat.ne_zero_of_lt hfuel)
    have hpos := Nat.two_pow_pos j
    have hle : 2 ^ j ≤ 2 ^ 7 := Nat.pow_le_pow_right Nat.two_pos (by omega)
    rw [Nat.pow_succ] at hm ⊢
    have hhalf : (2 ^ j * 2 + m) >>> 1 = 2 ^ j + m / 2 := by
      rw [Nat.shiftRight_eq_div_pow]
      omega
    have hodd : (2 ^ j * 2 + m) &&& 1 = m % 2 := by
      rw [Nat.and_one_is_mod]
      omega
    have hm32 : m < 2 ^ 32 := by omega
    rw [crcLoop, if_pos (by omega)]
    dsimp only
    rw [hhalf, hodd, ih (by omega) (by omega) (by omega), shifts, ofNat_split hm32,
      ← BitVec.xor_assoc, shift_xor, shift_xor, shift_double (by omega),
      shift_bit _ (Nat.mod_lt m Nat.two_pos), ← shift_toBitVec]
    congr 1
    rcases Nat.mod_two_eq_zero_or_one m with h0 | h1
    · rw [h0, if_neg (show ¬ (0 : Nat) ≠ 0 by decide), if_neg (show ¬ (0 : Nat) = 1 by decide)]
      simp
    · rw [h1, if_pos (show (1 : Nat) ≠ 0 by decide), if_pos rfl, UInt32.toBitVec_xor]

theorem crcTab_eq {i : Nat} (hi : i < 256) :
    (crcTab i).toBitVec = shifts crcPattern.toBitVec 8 (BitVec.ofNat 32 i) := by
  have hloop : (crcLoop 9 (2 ^ 8 + i) 0).toBitVec = _ :=
    crcLoop_eq (c := 0) (Nat.le_refl 8) hi (by decide)
  have hor : i ||| 256 = 2 ^ 8 + i := by
    have h := Nat.two_pow_add_eq_or_of_lt (show i < 2 ^ 8 from hi) 1
    rw [Nat.mul_one] at h
    rw [h, Nat.or_comm]
  unfold crcTab
  by_cases h0 : i = 0
  · subst h0
    decide
  · rw [if_neg h0, hor, hloop]
    simp

/-- The low byte and the rest. -/
theorem split_byte (x : BitVec 32) :
    x = BitVec.ofNat 32 (x &&& 0xff).toNat ^^^ (x &&& ~~~0xff) := by
  rw [BitVec.ofNat_toNat, BitVec.setWidth_eq]
  apply BitVec.eq_of_getLsbD_eq
  intro i hi
  rw [BitVec.getLsbD_xor, BitVec.getLsbD_and, BitVec.getLsbD_and, BitVec.getLsbD_not]
  cases x.getLsbD i <;> cases (0xff : BitVec 32).getLsbD i <;> simp [hi]

theorem getLsbD_ff (i : Nat) : (0xff : BitVec 32).getLsbD i = decide (i < 8) := by
  show (BitVec.ofNat 32 (2 ^ 8 - 1)).getLsbD i = _
  rw [getLsbD_ofNat_lt (by decide), Nat.testBit_two_pow_sub_one]

/-- **The table does what eight bits do.** -/
theorem crcNext_eq (c : UInt32) (ch : UInt8) : (crcNext c ch).toBitVec = crcByte c.toBitVec ch := by
  have hidx : ((c ^^^ ch.toUInt32) &&& 0xff).toNat =
      ((c.toBitVec ^^^ ch.toBitVec.setWidth 32) &&& 0xff).toNat := by
    rw [← UInt32.toNat_toBitVec, UInt32.toBitVec_and, UInt32.toBitVec_xor]
    rfl
  have hlt : ((c.toBitVec ^^^ ch.toBitVec.setWidth 32) &&& 0xff).toNat < 256 := by
    rw [BitVec.toNat_and]
    exact lt_of_le_of_lt Nat.and_le_right (by decide)
  unfold crcNext crcByte
  rw [UInt32.toBitVec_xor, hidx, crcTab_eq hlt]
  conv_rhs => rw [split_byte (c.toBitVec ^^^ ch.toBitVec.setWidth 32)]
  rw [shifts_xor]
  congr 1
  rw [shifts_high]
  · -- the byte is in the low bits only
    rw [UInt32.toBitVec_shiftRight]
    apply BitVec.eq_of_getLsbD_eq
    intro i hi
    show (c.toBitVec >>> 8).getLsbD i = _
    rw [BitVec.getLsbD_ushiftRight, BitVec.getLsbD_ushiftRight, BitVec.getLsbD_and,
      BitVec.getLsbD_xor, BitVec.getLsbD_setWidth, BitVec.getLsbD_not, getLsbD_ff]
    have hch : ch.toBitVec.getLsbD (8 + i) = false := BitVec.getLsbD_of_ge _ _ (by omega)
    rw [hch]
    by_cases h : 8 + i < 32
    · simp [h]
    · simp [h, BitVec.getLsbD_of_ge c.toBitVec (8 + i) (Nat.not_lt.1 h)]
  · intro i hi
    rw [BitVec.getLsbD_and, BitVec.getLsbD_not, getLsbD_ff]
    simp [hi]

theorem crcNext_foldl (c : UInt32) (out : List UInt8) :
    (out.foldl crcNext c).toBitVec = crcFrom c.toBitVec out := by
  induction out generalizing c with
  | nil => rfl
  | cons ch out ih => rw [List.foldl_cons, ih, crcNext_eq, crcFrom, crcFrom, List.foldl_cons]

/-! ## What is noticed -/

theorem streamOf_lt (out : List UInt8) : streamOf out < 2 ^ (8 * out.length) := by
  induction out with
  | nil => exact Nat.one_pos
  | cons ch out ih =>
    have := ch.toNat_lt
    rw [streamOf, List.length_cons, Nat.mul_succ, Nat.pow_add]
    omega

theorem streamOf_inj {out out' : List UInt8} (hlen : out.length = out'.length)
    (h : streamOf out = streamOf out') : out = out' := by
  induction out generalizing out' with
  | nil => exact (List.length_eq_zero_iff.1 hlen.symm).symm
  | cons ch out ih =>
    cases out' with
    | nil => cases hlen
    | cons ch' out' =>
      have h1 := ch.toNat_lt
      have h2 := ch'.toNat_lt
      rw [streamOf, streamOf] at h
      have hch : ch = ch' := UInt8.toNat_inj.1 (by omega)
      rw [hch, ih (Nat.succ.inj hlen) (by omega)]

/-- The first byte and those behind it. -/
theorem ofNat_cons {x y : Nat} (hx : x < 256) (hy : 256 * y < 2 ^ 32) :
    BitVec.ofNat 32 (x + 256 * y) = BitVec.ofNat 32 x ^^^ BitVec.ofNat 32 (256 * y) := by
  apply BitVec.eq_of_getLsbD_eq
  intro i _
  have hor : x + 256 * y = 2 ^ 8 * y ||| x := by
    rw [← Nat.two_pow_add_eq_or_of_lt hx]
    omega
  have hsmall : x + 256 * y < 2 ^ 32 := by omega
  rw [BitVec.getLsbD_xor, getLsbD_ofNat_lt hsmall, getLsbD_ofNat_lt (by omega),
    getLsbD_ofNat_lt hy, hor, show 256 * y = 2 ^ 8 * y from rfl, Nat.testBit_or,
    Nat.testBit_two_pow_mul]
  by_cases h : 8 ≤ i
  · have hxi : x.testBit i = false :=
      Nat.testBit_lt_two_pow (hx.trans_le (Nat.pow_le_pow_right Nat.two_pos h))
    simp [h, hxi]
  · simp [h]

theorem shifts_bytes {y : Nat} (hy : 256 * y < 2 ^ 32) :
    shifts crcPattern.toBitVec 8 (BitVec.ofNat 32 (256 * y)) = BitVec.ofNat 32 y := by
  have hbit : ∀ i, (BitVec.ofNat 32 (256 * y)).getLsbD i = (decide (8 ≤ i) && y.testBit (i - 8)) := by
    intro i
    rw [getLsbD_ofNat_lt hy, show 256 * y = 2 ^ 8 * y from rfl, Nat.testBit_two_pow_mul]
  rw [shifts_high]
  · apply BitVec.eq_of_getLsbD_eq
    intro i _
    rw [BitVec.getLsbD_ushiftRight, hbit, getLsbD_ofNat_lt (by omega)]
    simp
  · intro i hi
    rw [hbit]
    simp [Nat.not_le.2 hi]

/-- Up to four bytes at once. -/
theorem crcFrom_word (out : List UInt8) (c : BitVec 32) (hlen : out.length ≤ 4) :
    crcFrom c out =
      shifts crcPattern.toBitVec (8 * out.length) (c ^^^ BitVec.ofNat 32 (streamOf out)) := by
  induction out generalizing c with
  | nil => simp [crcFrom, shifts, streamOf]
  | cons ch out ih =>
    have hword := streamOf_lt out
    have hpow : 2 ^ (8 * out.length) ≤ 2 ^ 24 := by
      rw [List.length_cons] at hlen
      exact Nat.pow_le_pow_right Nat.two_pos (by omega)
    have hch : ch.toBitVec.setWidth 32 = BitVec.ofNat 32 ch.toNat := by
      rw [← UInt8.toNat_toBitVec, BitVec.ofNat_toNat]
    show crcFrom (crcByte c ch) out = _
    rw [ih _ (Nat.le_of_succ_le hlen), List.length_cons, Nat.mul_succ, Nat.add_comm _ 8, shifts_add,
      streamOf, ofNat_cons ch.toNat_lt (by omega), ← BitVec.xor_assoc,
      shifts_xor _ 8 (c ^^^ BitVec.ofNat 32 ch.toNat), shifts_bytes (by omega), crcByte, hch]

theorem crcFrom_inj {c c' : BitVec 32} {out : List UInt8} (h : crcFrom c out = crcFrom c' out) :
    c = c' := by
  induction out generalizing c c' with
  | nil => exact h
  | cons ch out ih =>
    have hone : crcByte c ch = crcByte c' ch := ih h
    have hxor := shifts_inj pattern_msb hone
    exact (BitVec.xor_left_inj _).1 hxor

/-- **A change within four bytes is noticed.** -/
theorem crcOf_burst {a m m' z : List UInt8} (hlen : m.length = m'.length) (hfour : m.length ≤ 4)
    (h : crcOf (a ++ m ++ z) = crcOf (a ++ m' ++ z)) : m = m' := by
  unfold crcOf at h
  have hfrom : crcFrom (BitVec.allOnes 32) (a ++ m ++ z) =
      crcFrom (BitVec.allOnes 32) (a ++ m' ++ z) := by
    have h' := congrArg (· ^^^ BitVec.allOnes 32) h
    simpa [BitVec.xor_assoc] using h'
  rw [crcFrom_append, crcFrom_append _ _ z, crcFrom_append, crcFrom_append] at hfrom
  have hm := crcFrom_inj hfrom
  rw [crcFrom_word m _ hfour, crcFrom_word m' _ (by omega), ← hlen] at hm
  have hx := (BitVec.xor_right_inj _).1 (shifts_inj pattern_msb hm)
  have h1 := streamOf_lt m
  have h2 := streamOf_lt m'
  have hpow : 2 ^ (8 * m.length) ≤ 2 ^ 32 := Nat.pow_le_pow_right Nat.two_pos (by omega)
  have hnat := congrArg BitVec.toNat hx
  rw [BitVec.toNat_ofNat, BitVec.toNat_ofNat, Nat.mod_eq_of_lt (by omega),
    Nat.mod_eq_of_lt (by rw [← hlen] at h2; omega)] at hnat
  exact streamOf_inj hlen hnat

end Gentoox.Gzip
