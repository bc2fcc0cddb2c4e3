import GentooxLoader.Gzip.Deflate
import GentooxLoader.Gzip.HuftBuild
import Mathlib.Data.UInt
import Mathlib.Data.Nat.Bitwise

/-!
# The input and the bit buffer (lib/gzip/misc.c, lib/gzip/inflate.c)

`NEEDBITS` takes bytes into the bit buffer, the first one's bits lowest,
`DUMPBITS` takes bits out.  `At` says what the buffer is: the bits of the input
from a position up to the bytes that were not taken.  `error` never returns.
The functions of the inflater have local copies of `bb`, `bk` and `wp`; these
are the variables themselves here, as nothing reads them after an early return.

    At.needBits         so many bits are in the buffer then
    At.peek             what is masked out of it
    At.dump             the position goes on
-/

namespace Gentoox.Gzip

/-! ## Algorithm -/

def wsize : Nat := 0x8000

/-- The variables of misc.c and inflate.c.  `output` is what `output_data` holds up to
`output_ptr`. -/
structure Globals where
  insize : Nat
  inptr : Nat
  outcnt : Nat
  bb : Nat
  bk : Nat
  window : Nat → UInt8
  output : List UInt8
  crc : UInt32
  bytesOut : Nat
  heap : Heap

/-- Why a function does not return 0: `error` halts, or a table that is `NULL` is read, or
it returns something else; `fuel` is none of these, but an end of the model's steps. -/
inductive Stop
  | error
  | null
  | ret (r : Nat)
  | fuel
  deriving DecidableEq

abbrev Run := Except Stop

theorem ok_bind {α β : Type} (x : α) (f : α → Run β) : ((.ok x : Run α) >>= f) = f x := rfl

section
variable (inp : List UInt8)

def fillInbuf (s : Globals) : Run (UInt8 × Globals) :=
  if s.insize ≠ 0 then .error .error
  else .ok (inp.getD 0 0, { s with insize := inp.length, inptr := 1 })

def getByte (s : Globals) : Run (UInt8 × Globals) :=
  if s.inptr < s.insize then .ok (inp.getD s.inptr 0, { s with inptr := s.inptr + 1 })
  else fillInbuf inp s

/-- `NEEDBITS(n)`. -/
def needBits (n : Nat) (s : Globals) : Run Globals :=
  if s.bk < n then do
    let (c, s') ← getByte inp s
    needBits n { s' with bb := s.bb ||| (c.toNat <<< s.bk) % 2 ^ 32, bk := s.bk + 8 }
  else .ok s
termination_by n - s.bk

end

def maskBits (n : Nat) : Nat := 2 ^ n - 1

/-- `(unsigned)b & mask_bits[n]`. -/
def peek (n : Nat) (s : Globals) : Nat := s.bb &&& maskBits n

/-- `DUMPBITS(n)`; `bk` is unsigned. -/
def dump (n : Nat) (s : Globals) : Globals :=
  { s with bb := s.bb >>> n, bk := (s.bk + 2 ^ 32 - n) % 2 ^ 32 }

/-! ## The input as a stream of bits -/

theorem bits_streamOf (inp : List UInt8) (i : Nat) :
    bits (streamOf inp) (8 * i) 8 = (inp.getD i 0).toNat := by
  unfold bits bitsFrom
  induction inp generalizing i with
  | nil => simp [streamOf]
  | cons c inp ih =>
    have hc := c.toNat_lt
    cases i with
    | zero =>
      rw [streamOf, Nat.mul_zero, Nat.pow_zero, Nat.div_one, List.getD_cons_zero]
      omega
    | succ i =>
      have hdiv : streamOf (c :: inp) / 2 ^ (8 * (i + 1)) = streamOf inp / 2 ^ (8 * i) := by
        rw [streamOf, Nat.mul_succ, Nat.add_comm (8 * i) 8, Nat.pow_add, ← Nat.div_div_eq_div_mul]
        congr 1
        omega
      rw [hdiv, ih, List.getD_cons_succ]

theorem bits_add (N pos m n : Nat) :
    bits N pos (m + n) = bits N pos m + 2 ^ m * bits N (pos + m) n := by
  unfold bits bitsFrom
  rw [Nat.pow_add, Nat.mod_mul, Nat.div_div_eq_div_mul, ← Nat.pow_add]

theorem bits_lt (N pos n : Nat) : bits N pos n < 2 ^ n := Nat.mod_lt _ (Nat.two_pow_pos n)

theorem bitsFrom_add (N pos n : Nat) : bitsFrom N (pos + n) = bitsFrom N pos / 2 ^ n := by
  unfold bitsFrom
  rw [Nat.div_div_eq_div_mul, ← Nat.pow_add]

/-! ## The bit buffer -/

/-- The next bit of the input is the one at `pos`. -/
structure At (inp : List UInt8) (pos : Nat) (s : Globals) : Prop where
  place : pos + s.bk = 8 * s.inptr
  buffer : s.bb = bits (streamOf inp) pos s.bk
  inside : s.inptr ≤ inp.length
  filled : s.insize = inp.length ∨ s.insize = 0 ∧ s.inptr = 0
  small : s.bk < 32

/-- `s'` has the same output as `s`, and may differ in what it has read. -/
def SameOut (s s' : Globals) : Prop :=
  s'.outcnt = s.outcnt ∧ s'.window = s.window ∧ s'.output = s.output ∧ s'.crc = s.crc ∧
    s'.bytesOut = s.bytesOut ∧ s'.heap = s.heap

section
variable {inp : List UInt8} {pos n : Nat} {s : Globals}

theorem SameOut.trans {s s' s'' : Globals} (h : SameOut s s') (h' : SameOut s' s'') :
    SameOut s s'' := by
  obtain ⟨h1, h2, h3, h4, h5, h6⟩ := h
  obtain ⟨h1', h2', h3', h4', h5', h6'⟩ := h'
  exact ⟨h1'.trans h1, h2'.trans h2, h3'.trans h3, h4'.trans h4, h5'.trans h5, h6'.trans h6⟩

theorem SameOut.rfl : SameOut s s := ⟨Eq.refl _, Eq.refl _, Eq.refl _, Eq.refl _, Eq.refl _, Eq.refl _⟩

theorem At.getByte (h : At inp pos s) (hin : s.inptr < inp.length) :
    ∃ s', Gzip.getByte inp s = .ok (inp.getD s.inptr 0, s') ∧ s'.inptr = s.inptr + 1 ∧
      s'.insize = inp.length ∧ s'.bb = s.bb ∧ s'.bk = s.bk ∧ SameOut s s' := by
  unfold Gzip.getByte fillInbuf
  rcases h.filled with hfull | ⟨h0, hp⟩
  · rw [if_pos (by omega)]
    exact ⟨_, rfl, rfl, hfull, rfl, rfl, .rfl⟩
  · rw [if_neg (by omega), if_neg (not_not.2 h0), hp]
    exact ⟨_, rfl, rfl, rfl, rfl, rfl, .rfl⟩

/-- One more byte in the buffer. -/
theorem or_byte {x k c : Nat} (hx : x < 2 ^ k) (hc : c < 256) (hk : k ≤ 24) :
    x ||| (c <<< k) % 2 ^ 32 = x + 2 ^ k * c := by
  have hshift : c <<< k = 2 ^ k * c := by rw [Nat.shiftLeft_eq, Nat.mul_comm]
  have hlt : 2 ^ k * c < 2 ^ 32 := by
    calc 2 ^ k * c < 2 ^ k * 2 ^ 8 := Nat.mul_lt_mul_of_pos_left hc (Nat.two_pow_pos k)
      _ = 2 ^ (k + 8) := (Nat.pow_add 2 k 8).symm
      _ ≤ 2 ^ 32 := Nat.pow_le_pow_right Nat.two_pos (by omega)
  rw [hshift, Nat.mod_eq_of_lt hlt, Nat.or_comm, ← Nat.two_pow_add_eq_or_of_lt hx, Nat.add_comm]

/-- **So many bits are in the buffer.** -/
theorem At.needBits (h : At inp pos s) (hn : n ≤ 16) (hroom : pos + n ≤ 8 * inp.length) :
    ∃ s', Gzip.needBits inp n s = .ok s' ∧ At inp pos s' ∧ n ≤ s'.bk ∧ SameOut s s' := by
  induction hm : n - s.bk using Nat.strongRecOn generalizing s with
  | ind m ih =>
    by_cases hlt : s.bk < n
    · have hplace := h.place
      obtain ⟨s', hbyte, hptr, hsize, hbb, hbk, hsame⟩ :=
        h.getByte (by omega)
      rw [Gzip.needBits, if_pos hlt, hbyte]
      have hbuf : s.bb ||| ((inp.getD s.inptr 0).toNat <<< s.bk) % 2 ^ 32 =
          bits (streamOf inp) pos (s.bk + 8) := by
        rw [h.buffer, or_byte (bits_lt _ _ _) (inp.getD s.inptr 0).toNat_lt (by omega), bits_add,
          hplace, bits_streamOf]
      have hat : At inp pos { s' with
          bb := s.bb ||| ((inp.getD s.inptr 0).toNat <<< s.bk) % 2 ^ 32, bk := s.bk + 8 } :=
        ⟨by show pos + (s.bk + 8) = 8 * s'.inptr; omega, hbuf, by show s'.inptr ≤ _; omega,
          Or.inl hsize, by show s.bk + 8 < 32; omega⟩
      obtain ⟨s'', hneed, hat', hle, hsame'⟩ := ih (n - (s.bk + 8)) (by omega) hat rfl
      exact ⟨s'', hneed, hat', hle, SameOut.trans hsame hsame'⟩
    · rw [Gzip.needBits, if_neg hlt]
      exact ⟨s, rfl, h, Nat.le_of_not_lt hlt, .rfl⟩

theorem At.peek (h : At inp pos s) (hn : n ≤ s.bk) :
    Gzip.peek n s = bits (streamOf inp) pos n := by
  unfold Gzip.peek maskBits
  rw [Nat.and_two_pow_sub_one_eq_mod, h.buffer]
  unfold bits
  rw [Nat.mod_mod_of_dvd _ (Nat.pow_dvd_pow 2 hn)]

/-- **The position goes on.** -/
theorem At.dump (h : At inp pos s) (hn : n ≤ s.bk) :
    At inp (pos + n) (Gzip.dump n s) ∧ (Gzip.dump n s).bk = s.bk - n ∧ SameOut s (Gzip.dump n s) := by
  have hsmall := h.small
  have hplace := h.place
  have hbk : (Gzip.dump n s).bk = s.bk - n := by
    show (s.bk + 2 ^ 32 - n) % 2 ^ 32 = _
    omega
  refine ⟨⟨?_, ?_, h.inside, h.filled, by omega⟩, hbk, .rfl⟩
  · rw [hbk]
    show _ = 8 * s.inptr
    omega
  · rw [hbk]
    show s.bb >>> n = _
    have hsplit := bits_add (streamOf inp) pos n (s.bk - n)
    rw [Nat.add_sub_cancel' hn] at hsplit
    rw [h.buffer, hsplit, Nat.shiftRight_eq_div_pow, Nat.add_mul_div_left _ _ (Nat.two_pow_pos n),
      Nat.div_eq_of_lt (bits_lt _ _ _), Nat.zero_add]

end

end Gentoox.Gzip
