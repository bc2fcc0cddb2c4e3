import Mathlib.Data.List.Basic
import Mathlib.Data.UInt
import Mathlib.Tactic.SplitIfs
import GentooxLoader.Base.Cells
import GentooxLoader.Base.Streams

/-!
# Strings and numbers (lib/misc/BootLibrary.c, lib/misc/vsprintf.c)

A string that is only read is the list of its characters before the NUL.
-/

namespace Gentoox.Lib

/-- A `u32` stored in an `int`. -/
def signed (x : UInt32) : Int := if x.toNat < 2 ^ 31 then x.toNat else (x.toNat : Int) - 2 ^ 32

theorem ofInt_signed (x : UInt32) : UInt32.ofInt (signed x) = x := by
  have hx := x.toNat_lt
  have hmod : (signed x % 2 ^ 32).toNat = x.toNat := by
    unfold signed
    split <;> omega
  show UInt32.ofNat (signed x % 2 ^ 32).toNat = x
  rw [hmod, UInt32.ofNat_toNat]

theorem toNat_ofInt (k : Nat) : (UInt32.ofInt (k : Int)).toNat = k % 2 ^ 32 := by
  show (UInt32.ofNat ((k : Int) % 2 ^ 32).toNat).toNat = _
  rw [UInt32.toNat_ofNat']
  omega

/-- The `u32` at `a`, low byte first. -/
def longAt (m : Nat → UInt8) (a : Nat) : UInt32 :=
  (m a).toUInt32 + (m (a + 1)).toUInt32 * 2 ^ 8 + (m (a + 2)).toUInt32 * 2 ^ 16 +
    (m (a + 3)).toUInt32 * 2 ^ 24

theorem longAt_congr {m m' : Nat → UInt8} {a b : Nat}
    (h : ∀ i, i < 4 → m (a + i) = m' (b + i)) : longAt m a = longAt m' b := by
  have h0 : m a = m' b := h 0 (by omega)
  unfold longAt
  rw [h0, h 1 (by omega), h 2 (by omega), h 3 (by omega)]

/-- The characters of a literal. -/
def chars (l : List Char) : List UInt8 := l.map fun c => UInt8.ofNat c.toNat

/-- The string in an array that holds these characters. -/
def cstr (l : List UInt8) : List UInt8 := l.takeWhile (· ≠ 0)

/-- A `char`, as the number it is in an `int`. -/
def charInt (c : UInt8) : Int := if c.toNat < 2 ^ 7 then c.toNat else (c.toNat : Int) - 2 ^ 8

def isupper (ch : Int) : Bool := 0 ≤ ch - 65 ∧ ch - 65 < 26

def tolower (ch : Int) : Int := if 0 ≤ ch - 65 ∧ ch - 65 < 26 then ch + 32 else ch

/-- Every way out behind the loop returns 0. -/
def strncasecmp : List UInt8 → List UInt8 → Int → Int
  | a :: sz1, b :: sz2, nMax =>
    if nMax = 0 then 0
    else if tolower (charInt a) ≠ tolower (charInt b) then charInt a - charInt b
    else strncasecmp sz1 sz2 (nMax - 1)
  | _, _, _ => 0

/-- A byte as `tolower` leaves it. -/
def lower (c : UInt8) : UInt8 := if 0x41 ≤ c ∧ c ≤ 0x5a then c + 0x20 else c

theorem charInt_inj {a b : UInt8} : charInt a = charInt b ↔ a = b := by
  refine ⟨fun h => UInt8.toNat_inj.1 ?_, congrArg charInt⟩
  have ha := a.toNat_lt
  have hb := b.toNat_lt
  unfold charInt at h
  split_ifs at h <;> omega

theorem tolower_charInt : ∀ c : UInt8, tolower (charInt c) = charInt (lower c) := by
  rintro ⟨x⟩
  revert x
  decide +kernel

/-- Strings of one length are the same to `_strncasecmp` when they are in lower case. -/
theorem strncasecmp_eq_zero {sz1 sz2 : List UInt8} (h : sz1.length = sz2.length) :
    strncasecmp sz1 sz2 sz2.length = 0 ↔ sz1.map lower = sz2.map lower := by
  induction sz1 generalizing sz2 with
  | nil =>
    rw [List.length_eq_zero_iff.1 h.symm]
    exact iff_of_true rfl rfl
  | cons a sz1 ih =>
    cases sz2 with
    | nil => cases h
    | cons b sz2 =>
      unfold strncasecmp
      rw [tolower_charInt, tolower_charInt, List.map_cons, List.map_cons, List.cons.injEq,
        if_neg (by rw [List.length_cons]; omega)]
      by_cases hab : lower a = lower b
      · rw [if_neg (by rw [hab]; exact fun hne => hne rfl), ← ih (Nat.succ.inj h), List.length_cons,
          Int.natCast_succ, Int.add_sub_cancel]
        exact ⟨fun h => ⟨hab, h⟩, fun h => h.2⟩
      · rw [if_pos fun hc => hab (charInt_inj.1 hc)]
        refine iff_of_false (fun hsub => hab ?_) fun h => hab h.1
        rw [charInt_inj.1 (Int.sub_eq_zero.1 hsub)]

/-- The place of the first `ch` in the string. -/
def strrchr0 (string : List UInt8) (ch : UInt8) : Option Nat := string.findIdx? (· == ch)

/-- The place of the first `s2` in `s1`. -/
def strstr (s1 s2 : List UInt8) : Option Nat :=
  if s2 = [] then some 0
  else (Streams.after s2 s1).map fun rest => s1.length - rest.length - s2.length

/-- The value of a digit, letters counting from 10 on. -/
def digitValue (c : UInt8) : Option Nat :=
  if 0x30 ≤ c ∧ c ≤ 0x39 then some (c.toNat - 0x30)
  else if 0x61 ≤ c ∧ c ≤ 0x66 then some (c.toNat - 0x61 + 10)
  else if 0x41 ≤ c ∧ c ≤ 0x46 then some (c.toNat - 0x41 + 10)
  else none

def strtoulLoop (base : Nat) : UInt32 → List UInt8 → UInt32
  | result, [] => result
  | result, c :: cp =>
    match digitValue c with
    | none => result
    | some value =>
      if value < base then strtoulLoop base (result * UInt32.ofNat base + UInt32.ofNat value) cp
      else result

/-- The base that the first characters choose, and what follows them. -/
def chooseBase : List UInt8 → Nat × List UInt8
  | 0x30 :: 0x78 :: c :: cp =>
    if (digitValue c).isSome then (16, c :: cp) else (8, 0x78 :: c :: cp)
  | 0x30 :: cp => (8, cp)
  | cp => (10, cp)

def simpleStrtoul (cp : List UInt8) (base : Nat) : UInt32 :=
  let (base, cp) := if base = 0 then chooseBase cp else (base, cp)
  strtoulLoop base 0 cp

def simpleStrtol (cp : List UInt8) (base : Nat) : Int :=
  if cp.head? = some 0x2d then signed (-simpleStrtoul cp.tail base)
  else signed (simpleStrtoul cp base)

end Gentoox.Lib
