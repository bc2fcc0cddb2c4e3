import GentooxLoader.Base.Cells
import GentooxLoader.Base.Loops
import GentooxLoader.Base.Words

/-!
# The PLL of the Focus encoder (drivers/video/focus.c)

The search goes over the output divider, N and M until the output clock is the
dot clock, give or take one.  `long` has 32 bits, and some products of the
search do not fit; they come out negative.  The frequency of the NCO, which the
source computes in floating point, is a parameter.

    searchM_turn                  no wrapped product is accepted
    searchPll_iff                 the search ends with a solution ↔ there is one
    decodeRegs_pllRegs            the registers lose nothing of a solution
    focusCalcPllSettings_valid    what a successful call leaves in the registers
-/

namespace Gentoox.Video

open Cells Loops Words

/-! ## Algorithm -/

structure FocusPllSettings where
  dotclock : Int
  vgaHtotal : Int
  vgaVtotal : Int
  tvHtotal : Int
  tvVtotal : Int

/-- A setting of the PLL. -/
structure Pll where
  ncon : Int
  ncod : Int
  m : Int
  n : Int
  p : Int

/-- `for (x=first; x<last; ++x)` -/
def upTo (first last : Nat) : List Int := (List.range' first (last - first)).map Int.ofNat

/-- The loop over M; `found` makes the setting. -/
def searchM (dotclock pllMultiplier pllInClk : Int) (found : Int → Pll) : Turn Unit Pll :=
  forEach (fun _ m =>
    let pllOutClk := long (pllInClk * m)
    if 100000000 ≤ pllOutClk ∧ pllOutClk ≤ 300000000 then
      let outputClk := pllOutClk.tdiv pllMultiplier
      if outputClk = dotclock ∨ outputClk + 1 = dotclock ∨ outputClk - 1 = dotclock then
        .done (found m)
      else .next ()
    else .next ()) (upTo 2 3000) ()

/-- The loop over N. -/
def searchN (dotclock pllMultiplier ncoOutClk : Int) (found : Int → Int → Pll) : Turn Unit Pll :=
  forEach (fun _ n =>
    let pllInClk := ncoOutClk.tdiv n
    if 100000 ≤ pllInClk ∧ pllInClk ≤ 1000000 then
      searchM dotclock pllMultiplier pllInClk (found n)
    else .next ()) (upTo 2 270) ()

section
variable (nco : Int → Int → Int) (settings : FocusPllSettings)

def FocusPllSettings.ncon : Int := long (settings.vgaHtotal * settings.vgaVtotal)

def FocusPllSettings.ncod (pllMultiplier : Int) : Int :=
  long (long (settings.tvHtotal * settings.tvVtotal) * pllMultiplier)

/-- The loop over the multipliers. -/
def searchPll : Turn Unit Pll :=
  forEach (fun _ p =>
    searchN settings.dotclock p (nco settings.ncon (settings.ncod p)) fun n m =>
      ⟨settings.ncon, settings.ncod p, m, n, p⟩) (upTo 4 6) ()

/-- `(x>>k)&0xFF` as it is stored. -/
def byteOf (x : Int) (k : Nat) : UInt8 := UInt8.ofInt (x / 2 ^ k)

/-- The registers 0x10 to 0x1D. -/
def pllRegs (s : Pll) : List UInt8 :=
  [byteOf s.ncon 0, byteOf s.ncon 8, byteOf s.ncon 16, byteOf s.ncon 24,
    byteOf s.ncod 0, byteOf s.ncod 8, byteOf s.ncod 16, byteOf s.ncod 24,
    byteOf (s.m - 17) 0, byteOf (s.m - 17) 8, byteOf (s.n - 1) 0, byteOf (s.n - 1) 8,
    byteOf (s.p - 1) 0, byteOf (s.p - 1) 0]

def focusCalcPllSettings (regs : Nat → UInt8) : Int × (Nat → UInt8) :=
  match searchPll nco settings with
  | .done pll => (1, write regs 0x10 (pllRegs pll))
  | .next _ => (0, regs)

/-! ## What a solution is -/

/-- A setting as the comments of the search have it, in unbounded integers. -/
structure Valid (pll : Pll) : Prop where
  ncon : pll.ncon = settings.ncon
  ncod : pll.ncod = settings.ncod pll.p
  p : 4 ≤ pll.p ∧ pll.p < 6
  n : 2 ≤ pll.n ∧ pll.n < 270
  m : 2 ≤ pll.m ∧ pll.m < 3000
  pllIn : 100000 ≤ (nco pll.ncon pll.ncod).tdiv pll.n ∧
    (nco pll.ncon pll.ncod).tdiv pll.n ≤ 1000000
  pllOut : 100000000 ≤ (nco pll.ncon pll.ncod).tdiv pll.n * pll.m ∧
    (nco pll.ncon pll.ncod).tdiv pll.n * pll.m ≤ 300000000
  output : (((nco pll.ncon pll.ncod).tdiv pll.n * pll.m).tdiv pll.p -
    settings.dotclock).natAbs ≤ 1

end

/-- The registers read back, low byte first; M, N and the divider have their offsets. -/
def decodeRegs (r : List UInt8) : Pll :=
  let at' (i : Nat) : Int := (r.getD i 0).toNat
  ⟨long (at' 0 + at' 1 * 2 ^ 8 + at' 2 * 2 ^ 16 + at' 3 * 2 ^ 24),
    long (at' 4 + at' 5 * 2 ^ 8 + at' 6 * 2 ^ 16 + at' 7 * 2 ^ 24),
    at' 8 + at' 9 * 2 ^ 8 + 17, at' 10 + at' 11 * 2 ^ 8 + 1, at' 12 + 1⟩

/-! ## The search -/

theorem mem_upTo {first last : Nat} (h : first ≤ last) {x : Int} :
    x ∈ upTo first last ↔ (first : Int) ≤ x ∧ x < last := by
  unfold upTo
  rw [List.mem_map]
  constructor
  · rintro ⟨k, hk, rfl⟩
    have := List.mem_range'_1.1 hk
    exact ⟨Int.ofNat_le.2 this.1, Int.ofNat_lt.2 (by omega)⟩
  · rintro ⟨h1, h2⟩
    refine ⟨x.toNat, List.mem_range'_1.2 (by omega), ?_⟩
    exact Int.toNat_of_nonneg (by omega)

section
variable {dotclock p : Int}

/-- **No wrapped product is accepted**: what is between 2^31 and 2^32 comes out negative. -/
theorem searchM_turn {pllIn m : Int} (hin : 0 ≤ pllIn ∧ pllIn ≤ 1000000) (hm : 2 ≤ m ∧ m < 3000) :
    (100000000 ≤ long (pllIn * m) ∧ long (pllIn * m) ≤ 300000000) ↔
      (100000000 ≤ pllIn * m ∧ pllIn * m ≤ 300000000) := by
  have h0 : 0 ≤ pllIn * m := Int.mul_nonneg hin.1 (by omega)
  have h1 : pllIn * m ≤ 1000000 * 2999 :=
    Int.mul_le_mul hin.2 (by omega) (by omega) (by omega)
  constructor
  · intro h
    rwa [long_of_nonneg h0 (by omega) (by omega)] at h
  · intro h
    rwa [long_of_small h0 (by omega)]

theorem near_iff (a b : Int) : (a = b ∨ a + 1 = b ∨ a - 1 = b) ↔ (a - b).natAbs ≤ 1 := by
  omega

theorem searchM_done {pllIn : Int} (hin : 100000 ≤ pllIn ∧ pllIn ≤ 1000000) {found : Int → Pll}
    {pll : Pll} (h : searchM dotclock p pllIn found = .done pll) :
    ∃ m, (2 ≤ m ∧ m < 3000) ∧ (100000000 ≤ pllIn * m ∧ pllIn * m ≤ 300000000) ∧
      ((pllIn * m).tdiv p - dotclock).natAbs ≤ 1 ∧ pll = found m := by
  obtain ⟨m, hm, hturn⟩ := forEach_done_mem h
  have hm : 2 ≤ m ∧ m < 3000 := (mem_upTo (by decide)).1 hm
  simp only [near_iff] at hturn
  split at hturn
  · rename_i hout
    have hout' := (searchM_turn ⟨by omega, hin.2⟩ hm).1 hout
    split at hturn
    · rename_i hnear
      rw [long_of_small (by omega) (by omega)] at hnear
      exact ⟨m, hm, hout', hnear, (Turn.done.inj hturn).symm⟩
    · cases hturn
  · cases hturn

theorem searchM_next {pllIn : Int} (hin : 100000 ≤ pllIn ∧ pllIn ≤ 1000000) {found : Int → Pll}
    (h : searchM dotclock p pllIn found = .next ()) {m : Int} (hm : 2 ≤ m ∧ m < 3000)
    (hout : 100000000 ≤ pllIn * m ∧ pllIn * m ≤ 300000000) :
    ¬ ((pllIn * m).tdiv p - dotclock).natAbs ≤ 1 := by
  intro hnear
  have hturn := forEach_next_iff.1 h m ((mem_upTo (by decide)).2 hm)
  simp only [near_iff] at hturn
  rw [if_pos ((searchM_turn ⟨by omega, hin.2⟩ hm).2 hout), long_of_small (by omega) (by omega),
    if_pos hnear] at hturn
  cases hturn

theorem searchN_done {nco : Int} {found : Int → Int → Pll} {pll : Pll}
    (h : searchN dotclock p nco found = .done pll) :
    ∃ n m, (2 ≤ n ∧ n < 270) ∧ (100000 ≤ nco.tdiv n ∧ nco.tdiv n ≤ 1000000) ∧
      (2 ≤ m ∧ m < 3000) ∧ (100000000 ≤ nco.tdiv n * m ∧ nco.tdiv n * m ≤ 300000000) ∧
      ((nco.tdiv n * m).tdiv p - dotclock).natAbs ≤ 1 ∧ pll = found n m := by
  obtain ⟨n, hn, hturn⟩ := forEach_done_mem h
  simp only at hturn
  split at hturn
  · rename_i hin
    obtain ⟨m, hm⟩ := searchM_done hin hturn
    exact ⟨n, m, (mem_upTo (by decide)).1 hn, hin, hm⟩
  · cases hturn

theorem searchN_next {nco : Int} {found : Int → Int → Pll}
    (h : searchN dotclock p nco found = .next ()) {n m : Int} (hn : 2 ≤ n ∧ n < 270)
    (hin : 100000 ≤ nco.tdiv n ∧ nco.tdiv n ≤ 1000000) (hm : 2 ≤ m ∧ m < 3000)
    (hout : 100000000 ≤ nco.tdiv n * m ∧ nco.tdiv n * m ≤ 300000000) :
    ¬ ((nco.tdiv n * m).tdiv p - dotclock).natAbs ≤ 1 := by
  have hturn := forEach_next_iff.1 h n ((mem_upTo (by decide)).2 hn)
  simp only [if_pos hin] at hturn
  exact searchM_next hin hturn hm hout

end

section
variable {nco : Int → Int → Int} {settings : FocusPllSettings}

theorem searchPll_done {pll : Pll} (h : searchPll nco settings = .done pll) :
    Valid nco settings pll := by
  obtain ⟨p, hp, hturn⟩ := forEach_done_mem h
  obtain ⟨n, m, hn, hin, hm, hout, hnear, rfl⟩ := searchN_done hturn
  exact ⟨rfl, rfl, (mem_upTo (by decide)).1 hp, hn, hm, hin, hout, hnear⟩

/-- **The search** ends with a solution exactly if there is one. -/
theorem searchPll_iff :
    (∃ pll, searchPll nco settings = .done pll) ↔ ∃ pll, Valid nco settings pll := by
  constructor
  · rintro ⟨pll, h⟩
    exact ⟨pll, searchPll_done h⟩
  · rintro ⟨pll, hpll⟩
    cases hsearch : searchPll nco settings with
    | done pll => exact ⟨pll, rfl⟩
    | next u =>
      obtain ⟨hncon, hncod, hp, hn, hm, hin, hout, hnear⟩ := hpll
      have hturn := forEach_next_iff.1 hsearch pll.p ((mem_upTo (by decide)).2 hp)
      rw [hncon, hncod] at hin hout hnear
      exact absurd hnear (searchN_next hturn hn hin hm hout)

end

/-! ## The registers -/

theorem toNat_byteOf (x : Int) (k : Nat) : ((byteOf x k).toNat : Int) = x / 2 ^ k % 256 := by
  unfold byteOf UInt8.ofInt
  rw [UInt8.toNat_ofNat']
  omega

/-- Four bytes are a `long`. -/
theorem long_bytes {x : Int} (hx : long x = x) :
    long ((byteOf x 0).toNat + (byteOf x 8).toNat * 2 ^ 8 + (byteOf x 16).toNat * 2 ^ 16 +
      (byteOf x 24).toNat * 2 ^ 24) = x := by
  rw [toNat_byteOf, toNat_byteOf, toNat_byteOf, toNat_byteOf]
  have hsum : x / 2 ^ 0 % 256 + x / 2 ^ 8 % 256 * 2 ^ 8 + x / 2 ^ 16 % 256 * 2 ^ 16 +
      x / 2 ^ 24 % 256 * 2 ^ 24 = x % (2 ^ 32 : Nat) := by
    omega
  rw [hsum]
  unfold long at *
  rw [Int.emod_bmod, hx]

theorem short_bytes {x : Int} (h0 : 0 ≤ x) (h1 : x < 2 ^ 16) :
    ((byteOf x 0).toNat + (byteOf x 8).toNat * 2 ^ 8 : Int) = x := by
  rw [toNat_byteOf, toNat_byteOf]
  omega

section
variable {nco : Int → Int → Int} {settings : FocusPllSettings}

/-- M is at least 100, so the offsets of the registers lose nothing of a solution. -/
theorem decodeRegs_pllRegs {pll : Pll} (h : Valid nco settings pll) :
    decodeRegs (pllRegs pll) = pll ∧ (pllRegs pll).getD 13 0 = (pllRegs pll).getD 12 0 := by
  have hm17 : 17 ≤ pll.m := by
    by_contra hsmall
    have hle : (nco pll.ncon pll.ncod).tdiv pll.n * pll.m ≤ 1000000 * 16 :=
      Int.mul_le_mul h.pllIn.2 (by omega) (by have := h.m; omega) (by decide)
    have := h.pllOut
    omega
  have hncon : long pll.ncon = pll.ncon := by
    rw [h.ncon]
    exact long_long _
  have hncod : long pll.ncod = pll.ncod := by
    rw [h.ncod]
    exact long_long _
  have hm := h.m
  have hn := h.n
  have hp := h.p
  have hbytes : decodeRegs (pllRegs pll) =
      ⟨long ((byteOf pll.ncon 0).toNat + (byteOf pll.ncon 8).toNat * 2 ^ 8 +
          (byteOf pll.ncon 16).toNat * 2 ^ 16 + (byteOf pll.ncon 24).toNat * 2 ^ 24),
        long ((byteOf pll.ncod 0).toNat + (byteOf pll.ncod 8).toNat * 2 ^ 8 +
          (byteOf pll.ncod 16).toNat * 2 ^ 16 + (byteOf pll.ncod 24).toNat * 2 ^ 24),
        (byteOf (pll.m - 17) 0).toNat + (byteOf (pll.m - 17) 8).toNat * 2 ^ 8 + 17,
        (byteOf (pll.n - 1) 0).toNat + (byteOf (pll.n - 1) 8).toNat * 2 ^ 8 + 1,
        (byteOf (pll.p - 1) 0).toNat + 1⟩ := rfl
  refine ⟨?_, rfl⟩
  rw [hbytes, long_bytes hncon, long_bytes hncod, short_bytes (by omega) (by omega),
    short_bytes (by omega) (by omega), toNat_byteOf, Int.pow_zero, Int.ediv_one,
    Int.emod_eq_of_lt (by omega) (by omega), Int.sub_add_cancel, Int.sub_add_cancel,
    Int.sub_add_cancel]

/-! ## Top theorem -/

/-- **A call that returns 1** has found a setting within the bounds, and the registers
0x10 to 0x1D are that setting. -/
theorem focusCalcPllSettings_valid {regs regs' : Nat → UInt8}
    (h : focusCalcPllSettings nco settings regs = (1, regs')) :
    ∃ pll, Valid nco settings pll ∧ decodeRegs (read regs' 0x10 14) = pll ∧
      regs' 0x1D = regs' 0x1C := by
  unfold focusCalcPllSettings at h
  split at h
  · rename_i pll hsearch
    have hpll := searchPll_done hsearch
    obtain ⟨hdecode, hdividers⟩ := decodeRegs_pllRegs hpll
    obtain rfl := (Prod.mk.inj h).2
    refine ⟨pll, hpll, ?_, ?_⟩
    · have hlen : (pllRegs pll).length = 14 := rfl
      rw [read_write_of_length hlen, hdecode]
    · exact hdividers
  · cases (Prod.mk.inj h).1

end

/-- A clock of 2 MHz and a dot clock of 25 MHz. -/
theorem focusCalcPllSettings_valid_25MHz : ∃ regs', focusCalcPllSettings (fun _ _ => 2000000)
    ⟨25000000, 800, 525, 858, 525⟩ (fun _ => 0) = (1, regs') ∧
    ∃ pll, Valid (fun _ _ => 2000000) ⟨25000000, 800, 525, 858, 525⟩ pll ∧
      decodeRegs (read regs' 0x10 14) = pll ∧ regs' 0x1D = regs' 0x1C := by
  obtain ⟨regs', hregs⟩ : ∃ regs', focusCalcPllSettings (fun _ _ => 2000000)
      ⟨25000000, 800, 525, 858, 525⟩ (fun _ => 0) = (1, regs') := ⟨_, rfl⟩
  exact ⟨regs', hregs, focusCalcPllSettings_valid hregs⟩

end Gentoox.Video
