import Mathlib.Data.List.TakeDrop
import GentooxLoader.Lib.Strings

/-!
# Strings in a buffer (lib/misc/BootLibrary.c)

The string functions as `ParseConfig` uses them, on pointers into its buffer.
Every access is checked against the bytes the caller has allocated: one past
them is `Fault.outside`.  A scan stops at a NUL; since it could also run out of
the buffer, its recursion is on the bytes left.

`StrAt b a t` says that the string `t` stands at `a`; the functions on it are
then those on lists (`strlen_strAt`, `skipSpace_strAt`, …).
-/

namespace Gentoox.Config

open Lib

/-! ## Algorithm -/

inductive Fault where
  /-- An access outside `szBuffer[0..fileLen]`. -/
  | outside
  /-- More turns of a loop than the model gives it. -/
  | endless
  deriving DecidableEq

/-- `szBuffer`, with the bytes 0 to `fileLen` allocated. -/
structure Buffer where
  fileLen : Nat
  bytes : Nat → UInt8

def Buffer.load (b : Buffer) (i : Nat) : Except Fault UInt8 :=
  if i ≤ b.fileLen then .ok (b.bytes i) else .error .outside

def Buffer.store (b : Buffer) (i : Nat) (v : UInt8) : Except Fault Buffer :=
  if i ≤ b.fileLen then .ok { b with bytes := Function.update b.bytes i v } else .error .outside

def isspace (c : UInt8) : Bool := c == 0x20 || c == 0x09 || c == 0x0d || c == 0x0a

/-- The bytes from `a` to the end of the buffer. -/
def Buffer.left (b : Buffer) (a : Nat) : Nat := b.fileLen + 1 - a

def strlenFrom (b : Buffer) : Nat → Nat → Except Fault Nat
  | 0, _ => .error .outside
  | n + 1, a => if b.bytes a = 0 then .ok 0 else (· + 1) <$> strlenFrom b n (a + 1)

def strlen (b : Buffer) (a : Nat) : Except Fault Nat := strlenFrom b (b.left a) a

def strpbrkFrom (b : Buffer) (ct : List UInt8) : Nat → Nat → Except Fault (Option Nat)
  | 0, _ => .error .outside
  | n + 1, a =>
    if b.bytes a = 0 then .ok none
    else if b.bytes a ∈ ct then .ok (some a) else strpbrkFrom b ct n (a + 1)

def strpbrk (b : Buffer) (cs : Nat) (ct : List UInt8) : Except Fault (Option Nat) :=
  strpbrkFrom b ct (b.left cs) cs

/-- The token, the new `*s` and the buffer. -/
def strsep (b : Buffer) (s : Option Nat) (ct : List UInt8) :
    Except Fault (Option Nat × Option Nat × Buffer) :=
  match s with
  | none => .ok (none, none, b)
  | some sbegin => do
    match ← strpbrk b sbegin ct with
    | some e =>
      let b ← b.store e 0
      return (some sbegin, some (e + 1), b)
    | none => return (some sbegin, none, b)

/-- `while (isspace(*p)) p++` -/
def skipSpaceFrom (b : Buffer) : Nat → Nat → Except Fault Nat
  | 0, _ => .error .outside
  | n + 1, p => if isspace (b.bytes p) then skipSpaceFrom b n (p + 1) else .ok p

def skipSpace (b : Buffer) (p : Nat) : Except Fault Nat := skipSpaceFrom b (b.left p) p

/-- `while (p!=paramdata && isspace(*p)) p--` -/
def stripBack (b : Buffer) (paramdata p : Nat) : Except Fault Nat :=
  if p = paramdata then .ok p
  else do
    if isspace (← b.load p) then
      match p with
      | 0 => .error .outside
      | p + 1 => stripBack b paramdata p
    else .ok p

/-- `strncmp(cs, ct, count) == 0` with the `count` characters of `ct` given. -/
def strncmpEq (b : Buffer) : Nat → List UInt8 → Except Fault Bool
  | _, [] => .ok true
  | a, c :: ct => do if (← b.load a) = c then strncmpEq b (a + 1) ct else .ok false

/-- The characters of the string at `a`. -/
def string (b : Buffer) (a : Nat) : Except Fault (List UInt8) := do
  let n ← strlen b a
  return Cells.read b.bytes a n

/-- `chrreplace`, which stays on a character it has just replaced. -/
def chrreplace (b : Buffer) (a : Nat) (search ch : UInt8) : Except Fault Buffer := do
  let s ← string b a
  return { b with bytes := Cells.write b.bytes a (s.map fun c => if c = search then ch else c) }

/-! ## Strings in the buffer -/

/-- The string `t` stands at `a`, its NUL inside the buffer. -/
structure StrAt (b : Buffer) (a : Nat) (t : List UInt8) : Prop where
  chars : Cells.read b.bytes a t.length = t
  nul : b.bytes (a + t.length) = 0
  nonzero : 0 ∉ t
  inside : a + t.length ≤ b.fileLen

theorem strAt_nil {b : Buffer} {a : Nat} : StrAt b a [] ↔ b.bytes a = 0 ∧ a ≤ b.fileLen :=
  ⟨fun h => ⟨h.nul, h.inside⟩, fun h => ⟨rfl, h.1, by simp, h.2⟩⟩

theorem strAt_cons {b : Buffer} {a : Nat} {c : UInt8} {t : List UInt8} :
    StrAt b a (c :: t) ↔ b.bytes a = c ∧ c ≠ 0 ∧ StrAt b (a + 1) t := by
  constructor
  · rintro ⟨h1, h2, h3, h4⟩
    rw [List.length_cons, Cells.read_succ, List.cons.injEq] at h1
    rw [List.mem_cons, not_or] at h3
    rw [List.length_cons] at h2 h4
    refine ⟨h1.1, Ne.symm h3.1, h1.2, ?_, h3.2, by omega⟩
    rw [← h2]
    congr 1
    omega
  · rintro ⟨h1, h2, h3⟩
    refine ⟨?_, ?_, ?_, ?_⟩
    · rw [List.length_cons, Cells.read_succ, h1, h3.chars]
    · rw [List.length_cons, ← h3.nul]
      congr 1
      omega
    · rw [List.mem_cons, not_or]
      exact ⟨Ne.symm h2, h3.nonzero⟩
    · have := h3.inside
      rw [List.length_cons]
      omega

theorem strAt_append {b : Buffer} {a : Nat} {s t : List UInt8} :
    StrAt b a (s ++ t) ↔ Cells.read b.bytes a s.length = s ∧ 0 ∉ s ∧ StrAt b (a + s.length) t := by
  induction s generalizing a with
  | nil => simp
  | cons c s ih =>
    rw [List.cons_append, strAt_cons, ih, List.length_cons, Cells.read_succ, List.cons.injEq,
      List.mem_cons, not_or, show a + 1 + s.length = a + (s.length + 1) by omega]
    constructor
    · rintro ⟨h1, h2, h3, h4, h5⟩
      exact ⟨⟨h1, h3⟩, ⟨Ne.symm h2, h4⟩, h5⟩
    · rintro ⟨⟨h1, h3⟩, ⟨h2, h4⟩, h5⟩
      exact ⟨h1, Ne.symm h2, h3, h4, h5⟩

theorem StrAt.getElem {b : Buffer} {a : Nat} {t : List UInt8} (h : StrAt b a t) (i : Nat)
    (hi : i < t.length) : b.bytes (a + i) = t[i] := by
  have := Cells.getElem_read b.bytes a t.length i (by simpa using hi)
  rw [← this]
  congr 1
  exact h.chars

/-- There is a string wherever a NUL follows. -/
theorem exists_strAt (b : Buffer) : ∀ (n a : Nat), a + n = b.fileLen → b.bytes b.fileLen = 0 →
    ∃ t, StrAt b a t := by
  intro n
  induction n with
  | zero =>
    intro a h h0
    exact ⟨[], strAt_nil.2 ⟨by rw [show a = b.fileLen by omega]; exact h0, by omega⟩⟩
  | succ n ih =>
    intro a h h0
    by_cases hc : b.bytes a = 0
    · exact ⟨[], strAt_nil.2 ⟨hc, by omega⟩⟩
    · obtain ⟨t, ht⟩ := ih (a + 1) (by omega) h0
      exact ⟨_, strAt_cons.2 ⟨rfl, hc, ht⟩⟩

theorem Buffer.left_succ {b : Buffer} {a : Nat} (h : a ≤ b.fileLen) : b.left a = b.left (a + 1) + 1 := by
  unfold Buffer.left
  omega

theorem StrAt.le {b : Buffer} {a : Nat} {t : List UInt8} (h : StrAt b a t) : a ≤ b.fileLen := by
  have := h.inside
  omega

theorem strlen_strAt {b : Buffer} {a : Nat} {t : List UInt8} (h : StrAt b a t) :
    strlen b a = .ok t.length := by
  induction t generalizing a with
  | nil =>
    obtain ⟨h0, -⟩ := strAt_nil.1 h
    rw [strlen, Buffer.left_succ h.le, strlenFrom, if_pos h0]
    rfl
  | cons c t ih =>
    obtain ⟨hc, hne, ht⟩ := strAt_cons.1 h
    have := ih ht
    unfold strlen at this ⊢
    rw [Buffer.left_succ h.le, strlenFrom, hc, if_neg hne, this]
    rfl

theorem string_strAt {b : Buffer} {a : Nat} {t : List UInt8} (h : StrAt b a t) :
    string b a = .ok t := by
  unfold string
  rw [strlen_strAt h]
  show Except.ok _ = _
  rw [h.chars]

theorem strpbrk_strAt {b : Buffer} {a : Nat} {t : List UInt8} (h : StrAt b a t) (ct : List UInt8) :
    strpbrk b a ct = .ok (if ∃ c ∈ t, c ∈ ct then some (a + (t.takeWhile (· ∉ ct)).length) else none) := by
  induction t generalizing a with
  | nil =>
    obtain ⟨h0, -⟩ := strAt_nil.1 h
    rw [strpbrk, Buffer.left_succ h.le, strpbrkFrom, if_pos h0]
    simp
  | cons c t ih =>
    obtain ⟨hc, hne, ht⟩ := strAt_cons.1 h
    have := ih ht
    unfold strpbrk at this ⊢
    rw [Buffer.left_succ h.le, strpbrkFrom, hc, if_neg hne, this]
    by_cases hm : c ∈ ct
    · simp [hm]
    · simp only [hm, if_false, List.mem_cons, exists_eq_or_imp, false_or, not_false_eq_true,
        decide_true, List.takeWhile_cons_of_pos, List.length_cons]
      congr 3
      omega

theorem skipSpace_strAt {b : Buffer} {a : Nat} {t : List UInt8} (h : StrAt b a t) :
    skipSpace b a = .ok (a + (t.takeWhile isspace).length) := by
  induction t generalizing a with
  | nil =>
    obtain ⟨h0, -⟩ := strAt_nil.1 h
    rw [skipSpace, Buffer.left_succ h.le, skipSpaceFrom, h0]
    rfl
  | cons c t ih =>
    obtain ⟨hc, hne, ht⟩ := strAt_cons.1 h
    have := ih ht
    unfold skipSpace at this ⊢
    rw [Buffer.left_succ h.le, skipSpaceFrom, hc, this, List.takeWhile_cons]
    cases hs : isspace c with
    | true =>
      simp only [if_true, List.length_cons]
      congr 1
      omega
    | false => simp

theorem strncmpEq_strAt {b : Buffer} {a : Nat} {t : List UInt8} (h : StrAt b a t) (ct : List UInt8)
    (h0 : 0 ∉ ct) : strncmpEq b a ct = .ok (ct.isPrefixOf t) := by
  induction ct generalizing a t with
  | nil => simp [strncmpEq]
  | cons c ct ih =>
    rw [List.mem_cons, not_or] at h0
    have hload : b.load a = .ok (b.bytes a) := if_pos h.le
    simp only [strncmpEq, hload]
    cases t with
    | nil =>
      obtain ⟨hb, -⟩ := strAt_nil.1 h
      simp only [hb]
      show (if (0 : UInt8) = c then _ else _) = _
      rw [if_neg h0.1]
      rfl
    | cons d t =>
      obtain ⟨hb, -, ht⟩ := strAt_cons.1 h
      simp only [hb]
      show (if d = c then _ else _) = _
      by_cases hd : d = c
      · rw [if_pos hd, ih ht h0.2, hd, List.isPrefixOf_cons_cons]
        simp
      · rw [if_neg hd, List.isPrefixOf_cons_cons]
        simp [Ne.symm hd]

/-! ## Cutting strings -/

/-- A NUL stored at `i`. -/
def Buffer.cut (b : Buffer) (i : Nat) : Buffer := { b with bytes := Function.update b.bytes i 0 }

theorem Buffer.store_zero {b : Buffer} {i : Nat} (h : i ≤ b.fileLen) : b.store i 0 = .ok (b.cut i) :=
  if_pos h

theorem Buffer.cut_self (b : Buffer) (i : Nat) : (b.cut i).bytes i = 0 := Function.update_self _ _ _

theorem Buffer.cut_of_ne (b : Buffer) {i j : Nat} (h : j ≠ i) : (b.cut i).bytes j = b.bytes j :=
  Function.update_of_ne h _ _

theorem Buffer.cut_of_zero (b : Buffer) {i j : Nat} (h : b.bytes j = 0) : (b.cut i).bytes j = 0 := by
  by_cases hj : j = i
  · rw [hj, Buffer.cut_self]
  · rw [Buffer.cut_of_ne b hj, h]

/-- A cut before a string or behind it leaves it alone. -/
theorem StrAt.cut {b : Buffer} {a i : Nat} {t : List UInt8} (h : StrAt b a t)
    (hi : i < a ∨ a + t.length ≤ i) : StrAt (b.cut i) a t := by
  refine ⟨?_, b.cut_of_zero h.nul, h.nonzero, h.inside⟩
  rw [← h.chars, Cells.length_read]
  apply Cells.read_congr
  intro j h1 h2
  apply b.cut_of_ne
  omega

theorem StrAt.cut_left {b : Buffer} {a : Nat} {s t : List UInt8} (h : StrAt b a (s ++ t)) :
    StrAt (b.cut (a + s.length)) a s := by
  obtain ⟨h1, h2, h3⟩ := strAt_append.1 h
  refine ⟨?_, b.cut_self _, h2, h3.le⟩
  rw [← h1, Cells.length_read]
  apply Cells.read_congr
  intro j hj1 hj2
  apply b.cut_of_ne
  omega

theorem StrAt.cut_right {b : Buffer} {a : Nat} {s t : List UInt8} {c : UInt8}
    (h : StrAt b a (s ++ c :: t)) : StrAt (b.cut (a + s.length)) (a + s.length + 1) t := by
  obtain ⟨-, -, h3⟩ := strAt_append.1 h
  exact ((strAt_cons.1 h3).2.2).cut (Or.inl (Nat.lt_succ_self _))

theorem strsep_none {b : Buffer} {a : Nat} {t ct : List UInt8} (h : StrAt b a t)
    (hct : ∀ c ∈ t, c ∉ ct) : strsep b (some a) ct = .ok (some a, none, b) := by
  have hp := strpbrk_strAt h ct
  rw [if_neg (by rintro ⟨c, h1, h2⟩; exact hct c h1 h2)] at hp
  simp only [strsep, hp]
  rfl

theorem strsep_some {b : Buffer} {a : Nat} {s t ct : List UInt8} {c : UInt8}
    (h : StrAt b a (s ++ c :: t)) (hs : ∀ c ∈ s, c ∉ ct) (hc : c ∈ ct) :
    strsep b (some a) ct =
      .ok (some a, some (a + s.length + 1), b.cut (a + s.length)) := by
  have hp := strpbrk_strAt h ct
  have htake : (s ++ c :: t).takeWhile (· ∉ ct) = s := by
    rw [List.takeWhile_append_of_pos (by simpa using hs), List.takeWhile_cons_of_neg (by simpa using hc),
      List.append_nil]
  rw [if_pos ⟨c, by simp, hc⟩, htake] at hp
  have hin : a + s.length ≤ b.fileLen := by
    have := h.inside
    rw [List.length_append] at this
    omega
  simp only [strsep, hp]
  show (b.store (a + s.length) 0 >>= fun b' => Except.ok (some a, some (a + s.length + 1), b')) = _
  rw [Buffer.store_zero hin]
  rfl

theorem stripBack_spaces {b : Buffer} {paramdata q : Nat} : ∀ k : Nat, q + k ≤ b.fileLen →
    (∀ i, q < i → i ≤ q + k → isspace (b.bytes i) = true ∧ i ≠ paramdata) →
    (q = paramdata ∨ isspace (b.bytes q) = false) → stripBack b paramdata (q + k) = .ok q := by
  intro k
  induction k with
  | zero =>
    intro hin _ hq
    rw [Nat.add_zero, stripBack.eq_def]
    split
    · rfl
    · rcases hq with rfl | hq
      · contradiction
      · rw [show b.load q = .ok (b.bytes q) from if_pos hin]
        show (if isspace (b.bytes q) = true then _ else _) = _
        rw [hq]
        rfl
  | succ k ih =>
    intro hin hsp hq
    obtain ⟨h1, h2⟩ := hsp (q + k + 1) (by omega) (by omega)
    rw [show q + (k + 1) = q + k + 1 by omega, stripBack, if_neg h2,
      show b.load (q + k + 1) = .ok (b.bytes (q + k + 1)) from if_pos (by omega)]
    show (if isspace (b.bytes (q + k + 1)) = true then _ else _) = _
    rw [if_pos h1]
    exact ih (by omega) (fun i hi1 hi2 => hsp i hi1 (by omega)) hq

end Gentoox.Config
