import Mathlib.Data.List.DropRight
import Mathlib.Data.UInt
import GentooxLoader.Base.Cells

/-!
# The texts of an IDENTIFY answer (drivers/ide/BootHddKey.c, drivers/ide/BootIde.c)

The two bytes of every word of a text are the wrong way round, and the text is
filled up with spaces.  `copySwapTrim` puts the bytes right, in place if wanted,
and ends the text behind its last byte that is not a space.  It looks for that
byte from the end, and when there is none it returns 0 without storing a NUL.

    swapLoop_read        the swapped text, wherever it is copied to
    trimLoop_eq          where the scan stops, and what it stores
    copySwapTrim_iff     the result is the trimmed text ↔ some byte is not a space,
                         or there is no byte and a NUL is already there
-/

namespace Gentoox.Ide

/-! ## Algorithm -/

abbrev Memory := Nat → UInt8

/-- One turn of the first loop; `tmp` allows the swap in place. -/
def swapPair (dst src i : Nat) (m : Memory) : Memory :=
  let tmp := m (src + i)
  let m := Function.update m (dst + i) (m (src + i + 1))
  Function.update m (dst + i + 1) tmp

/-- `n` turns from `i` on. -/
def swapLoop (dst src : Nat) : Nat → Nat → Memory → Memory
  | 0, _, m => m
  | n + 1, i, m => swapLoop dst src n (i + 2) (swapPair dst src i m)

/-- The second loop counts down from `i`; with `--dst` in front of it `dst[i]` is
the byte before the place `i`, and `dst[i+1]` the one at it. -/
def trimLoop (dst : Nat) : Nat → Memory → Nat × Memory
  | 0, m => (0, m)
  | i + 1, m =>
    if m (dst + i) ≠ 0x20 then (i + 1, Function.update m (dst + (i + 1)) 0) else trimLoop dst i m

/-- The number returned, and the memory. -/
def copySwapTrim (dst src len : Nat) (m : Memory) : Nat × Memory :=
  trimLoop dst len (swapLoop dst src ((len + 1) / 2) 0 m)

/-! ## The property -/

/-- The bytes of each word exchanged. -/
def swapBytes : List UInt8 → List UInt8
  | a :: b :: l => b :: a :: swapBytes l
  | l => l

/-- Without the spaces at the end. -/
def trim (l : List UInt8) : List UInt8 := l.rdropWhile (· == 0x20)

/-- The text of a field. -/
def text (field : List UInt8) : List UInt8 := trim (swapBytes field)

/-- At `dst` there is the text `t`, terminated at the length returned. -/
def Holds (t : List UInt8) (dst : Nat) (r : Nat × Memory) : Prop :=
  r.1 = t.length ∧ Cells.read r.2 dst r.1 = t ∧ r.2 (dst + r.1) = 0

/-! ## The loops -/

theorem mem_swapBytes (l : List UInt8) (c : UInt8) : c ∈ swapBytes l ↔ c ∈ l := by
  fun_induction swapBytes l with
  | case1 a b l ih =>
    simp only [List.mem_cons, ih]
    exact or_left_comm
  | case2 l h => rfl

theorem swapPair_of_ne (dst src i : Nat) (m : Memory) {a : Nat} (h : a ≠ dst + i)
    (h' : a ≠ dst + i + 1) : swapPair dst src i m a = m a := by
  unfold swapPair
  rw [Function.update_of_ne h', Function.update_of_ne h]

theorem swapPair_first (dst src i : Nat) (m : Memory) :
    swapPair dst src i m (dst + i) = m (src + i + 1) := by
  unfold swapPair
  rw [Function.update_of_ne (by omega), Function.update_self]

theorem swapPair_second (dst src i : Nat) (m : Memory) :
    swapPair dst src i m (dst + i + 1) = m (src + i) := by
  unfold swapPair
  rw [Function.update_self]

theorem swapLoop_of_outside (dst src : Nat) {n : Nat} : ∀ {i : Nat} {m : Memory} {a : Nat},
    a < dst + i ∨ dst + i + 2 * n ≤ a → swapLoop dst src n i m a = m a := by
  induction n with
  | zero => intro i m a _; rfl
  | succ n ih =>
    intro i m a ha
    rw [swapLoop, ih (by omega), swapPair_of_ne _ _ _ _ (by omega) (by omega)]

/-- What the turns from `i` on leave, in place or in another array. -/
theorem swapLoop_read {dst src n : Nat} : ∀ (i : Nat) (m : Memory),
    (dst = src ∨ dst + i + 2 * n ≤ src + i ∨ src + i + 2 * n ≤ dst + i) →
    Cells.read (swapLoop dst src n i m) (dst + i) (2 * n) =
      swapBytes (Cells.read m (src + i) (2 * n)) := by
  induction n with
  | zero => intro i m _; rfl
  | succ n ih =>
    intro i m hapart
    have hrest : Cells.read (swapPair dst src i m) (src + (i + 2)) (2 * n) =
        Cells.read m (src + (i + 2)) (2 * n) := by
      apply Cells.read_congr
      intro k hk1 hk2
      exact swapPair_of_ne _ _ _ _ (by omega) (by omega)
    have htail := ih (i + 2) (swapPair dst src i m) (by omega)
    rw [hrest] at htail
    rw [show 2 * (n + 1) = 2 * n + 1 + 1 by omega, Cells.read_succ, Cells.read_succ,
      Cells.read_succ m, Cells.read_succ m, swapBytes, swapLoop]
    rw [swapLoop_of_outside _ _ (by omega), swapLoop_of_outside _ _ (by omega), swapPair_first,
      swapPair_second]
    exact congrArg _ (congrArg _ htail)

theorem trim_concat (l : List UInt8) (c : UInt8) :
    trim (l ++ [c]) = if c = 0x20 then trim l else l ++ [c] := by
  unfold trim
  rw [List.rdropWhile_concat]
  simp only [beq_iff_eq]

theorem trim_eq_nil_iff (l : List UInt8) : trim l = [] ↔ ∀ c ∈ l, c = 0x20 := by
  unfold trim
  simp only [List.rdropWhile_eq_nil_iff, beq_iff_eq]

/-- The scan stops behind the last byte that is not a space. -/
theorem trimLoop_eq (dst n : Nat) (m : Memory) :
    trimLoop dst n m = ((trim (Cells.read m dst n)).length,
      if trim (Cells.read m dst n) = [] then m
      else Function.update m (dst + (trim (Cells.read m dst n)).length) 0) := by
  induction n with
  | zero => rfl
  | succ n ih =>
    have hread : Cells.read m dst (n + 1) = Cells.read m dst n ++ [m (dst + n)] :=
      Cells.read_add m dst n 1
    rw [trimLoop, hread, trim_concat]
    by_cases hspace : m (dst + n) = 0x20
    · rw [if_neg (fun h => h hspace), ih, if_pos hspace]
    · rw [if_pos hspace, if_neg hspace, if_neg (by simp), List.length_append, List.length_singleton,
        Cells.length_read]

/-! ## The text that is left -/

theorem swapLoop_all {dst src len : Nat} (m : Memory) (heven : len % 2 = 0)
    (hapart : dst = src ∨ dst + len ≤ src ∨ src + len ≤ dst) :
    Cells.read (swapLoop dst src ((len + 1) / 2) 0 m) dst len =
      swapBytes (Cells.read m src len) := by
  have hturns : 2 * ((len + 1) / 2) = len := by omega
  have hfits : dst = src ∨ dst + 0 + 2 * ((len + 1) / 2) ≤ src + 0 ∨
      src + 0 + 2 * ((len + 1) / 2) ≤ dst + 0 := by omega
  have h := swapLoop_read 0 m hfits
  rwa [hturns] at h

theorem text_eq_nil_iff (field : List UInt8) : text field = [] ↔ ¬ ∃ c ∈ field, c ≠ 0x20 := by
  unfold text
  rw [trim_eq_nil_iff]
  constructor
  · rintro hspaces ⟨c, hc, hne⟩
    exact hne (hspaces c ((mem_swapBytes _ _).2 hc))
  · intro hnone c hc
    by_contra hne
    exact hnone ⟨c, (mem_swapBytes _ _).1 hc, hne⟩

/-- The text lies at the start of the swapped bytes. -/
theorem read_text {m : Memory} {dst len : Nat} {field : List UInt8}
    (h : Cells.read m dst len = swapBytes field) :
    Cells.read m dst (text field).length = text field := by
  have hprefix : text field <+: Cells.read m dst len := by
    rw [h]
    exact List.rdropWhile_prefix _ _
  have hle := hprefix.length_le
  rw [Cells.length_read] at hle
  have htake := List.prefix_iff_eq_take.1 hprefix
  rw [Cells.take_read, Nat.min_eq_left hle] at htake
  exact htake.symm

/-! ## Top theorem -/

/-- **The text fields.** The result is the trimmed text exactly when there is
something besides spaces to end the text behind, or no text at all and a NUL. -/
theorem copySwapTrim_iff {dst src len : Nat} (m : Memory) (heven : len % 2 = 0)
    (hapart : dst = src ∨ dst + len ≤ src ∨ src + len ≤ dst) :
    Holds (text (Cells.read m src len)) dst (copySwapTrim dst src len m) ↔
      (∃ c ∈ Cells.read m src len, c ≠ 0x20) ∨ len = 0 ∧ m dst = 0 := by
  have hread := swapLoop_all m heven hapart
  generalize hm1 : swapLoop dst src ((len + 1) / 2) 0 m = m1 at hread
  have hloop : copySwapTrim dst src len m = trimLoop dst len m1 := by
    rw [copySwapTrim, hm1]
  have htrim : trim (Cells.read m1 dst len) = text (Cells.read m src len) := by
    rw [hread]
    rfl
  rw [hloop, trimLoop_eq, htrim]
  by_cases hnil : text (Cells.read m src len) = []
  · have hnone := (text_eq_nil_iff _).1 hnil
    rw [hnil, if_pos rfl, or_iff_right hnone]
    show (0 = 0 ∧ [] = [] ∧ m1 dst = 0) ↔ _
    simp only [true_and]
    -- nothing is stored behind the spaces
    cases hlen : len with
    | zero =>
      rw [hlen] at hm1
      rw [← hm1]
      exact (and_iff_right rfl).symm
    | succ n =>
      have hfirst : m1 dst ∈ Cells.read m1 dst len := by
        rw [hlen, Cells.read_succ]
        exact List.mem_cons_self
      rw [hread] at hfirst
      rw [(trim_eq_nil_iff _).1 hnil _ hfirst]
      exact iff_of_false (by decide) fun h => absurd h.1 (by omega)
  · have hsome := not_not.1 (mt (text_eq_nil_iff _).2 hnil)
    rw [if_neg hnil]
    refine iff_of_true ⟨rfl, ?_, Function.update_self ..⟩ (.inl hsome)
    rw [Cells.read_update_of_outside (.inr (Nat.le_refl _))]
    exact read_text hread

/-- A model number "ABC " in place. -/
theorem copySwapTrim_iff_model :
    Holds (text (Cells.read (fun i => [0x42, 0x41, 0x20, 0x43].getD i 0) 0 4)) 0
        (copySwapTrim 0 0 4 fun i => [0x42, 0x41, 0x20, 0x43].getD i 0) ↔
      (∃ c ∈ Cells.read (fun i => [0x42, 0x41, 0x20, 0x43].getD i 0) 0 4, c ≠ (0x20 : UInt8)) ∨
        4 = 0 ∧ ([0x42, 0x41, 0x20, 0x43].getD 0 0 : UInt8) = 0 :=
  copySwapTrim_iff (fun i => [0x42, 0x41, 0x20, 0x43].getD i 0) (by decide) (.inl rfl)

/-- A serial number of twenty spaces is not terminated. -/
theorem copySwapTrim_spaces :
    ¬ Holds (text (Cells.read (fun _ => 0x20) 0 20)) 0 (copySwapTrim 0 0 20 fun _ => 0x20) := by
  rintro ⟨-, -, hnul⟩
  exact absurd hnul (by decide)

end Gentoox.Ide
