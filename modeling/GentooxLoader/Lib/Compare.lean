import GentooxLoader.Base.Loops
import GentooxLoader.Lib.Strings

/-!
# Comparing strings (lib/misc/BootLibrary.c)

`_strncmp` and `_strncasecmp` have one loop, which ends at a NUL, when `nMax` is
used up, or at two characters that are different.  What follows it looks at
`nMax`, which is -1 when it was used up, and at the two characters; but it returns
0 in every case.

    strncasecmp_eq          the case-insensitive one is the comparison with `tolower`
    compareLoop_stops       how the loop can stop
    compare_eq_zero_iff     0 is returned ↔ no two characters that are compared differ
    agree_iff               then the strings agree, unless one ends before the other
    compare_agree_iff       so 0 means that they agree ↔ neither is cut short
    strncmp_agree_iff       which is so of both functions
    strncasecmp_of_length   strings of one length are compared right
-/

namespace Gentoox.Lib

open Loops

/-! ## Algorithm -/

/-- A string: the characters before its NUL. -/
structure CString where
  chars : List UInt8
  noNul : 0 ∉ chars

/-- `*sz` -/
def firstChar : List UInt8 → UInt8
  | [] => 0
  | c :: _ => c

section
variable (fold : Int → Int)

/-- The loop: the difference that is returned in it, or `sz1`, `sz2` and `nMax` behind it. -/
def compareLoop : List UInt8 → List UInt8 → Int → Turn (List UInt8 × List UInt8 × Int) Int
  | a :: sz1, b :: sz2, nMax =>
    if nMax = 0 then .next (a :: sz1, b :: sz2, nMax - 1)
    else if fold (charInt a) ≠ fold (charInt b) then .done (charInt a - charInt b)
    else compareLoop sz1 sz2 (nMax - 1)
  | sz1, sz2, nMax => .next (sz1, sz2, nMax)

/-- What follows the loop. -/
def compareRest : List UInt8 × List UInt8 × Int → Int
  | (sz1, sz2, nMax) =>
    if nMax = 0 then 0
    else if fold (charInt (firstChar sz1)) ≠ 0 ∨ fold (charInt (firstChar sz2)) ≠ 0 then 0
    else 0

def compareWith (sz1 sz2 : List UInt8) (nMax : Int) : Int :=
  match compareLoop fold sz1 sz2 nMax with
  | .done r => r
  | .next v => compareRest fold v

end

/-- `_strncmp` -/
def strncmp (sz1 sz2 : List UInt8) (nMax : Int) : Int := compareWith id sz1 sz2 nMax

/-! ## What it is to agree -/

/-- The first `n` characters are the same to `f`, the NULs among them. -/
def Agree (f : UInt8 → UInt8) (a b : List UInt8) (n : Nat) : Prop :=
  (a.map f ++ [0]).take n = (b.map f ++ [0]).take n

/-- One of the strings ends within the first `n` characters, and the other goes on with
the same characters before that. -/
def CutShort (f : UInt8 → UInt8) (a b : List UInt8) (n : Nat) : Prop :=
  min a.length b.length < n ∧ a.length ≠ b.length ∧ (a.map f <+: b.map f ∨ b.map f <+: a.map f)

/-! ## The loop -/

theorem compareRest_eq_zero (fold : Int → Int) (v : List UInt8 × List UInt8 × Int) :
    compareRest fold v = 0 := by
  obtain ⟨sz1, sz2, nMax⟩ := v
  show (if nMax = 0 then 0 else ite _ 0 0) = (0 : Int)
  rw [ite_self, ite_self]

/-- Behind the loop `nMax` is -1 when it was used up, and is otherwise what is left of it
at the end of one of the strings. -/
theorem compareLoop_stops {fold : Int → Int} {a b x y : List UInt8} {n : Nat} {m : Int}
    (h : compareLoop fold a b n = .next (x, y, m)) :
    ∃ k, x = a.drop k ∧ y = b.drop k ∧
      (m = -1 ∧ k = n ∧ x ≠ [] ∧ y ≠ [] ∨ m = n - k ∧ k ≤ n ∧ (x = [] ∨ y = [])) := by
  induction a generalizing b n with
  | nil =>
    cases h
    exact ⟨0, rfl, rfl, .inr ⟨by simp, n.zero_le, .inl rfl⟩⟩
  | cons c a ih =>
    cases b with
    | nil =>
      cases h
      exact ⟨0, rfl, rfl, .inr ⟨by simp, n.zero_le, .inr rfl⟩⟩
    | cons d b =>
      unfold compareLoop at h
      cases n with
      | zero =>
        cases h
        exact ⟨0, rfl, rfl, .inl ⟨rfl, rfl, List.cons_ne_nil _ _, List.cons_ne_nil _ _⟩⟩
      | succ n =>
        rw [if_neg (by omega)] at h
        split at h
        · cases h
        · rw [Int.natCast_succ, Int.add_sub_cancel] at h
          obtain ⟨k, hx, hy, hk⟩ := ih h
          refine ⟨k + 1, hx, hy, hk.imp ?_ ?_⟩
          · rintro ⟨hm, rfl, hne⟩
            exact ⟨hm, rfl, hne⟩
          · rintro ⟨hm, hle, hend⟩
            exact ⟨by omega, by omega, hend⟩

/-! ## What is compared -/

/-- The characters that are compared are the same to `f`. -/
def Matches (f : UInt8 → UInt8) (a b : List UInt8) (n : Nat) : Prop :=
  ∀ p ∈ (a.zip b).take n, f p.1 = f p.2

section
variable {fold : Int → Int} {f : UInt8 → UInt8}

theorem matches_nil_left (b : List UInt8) (n : Nat) : Matches f [] b n := by
  simp [Matches]

theorem matches_nil_right (a : List UInt8) (n : Nat) : Matches f a [] n := by
  simp [Matches]

theorem matches_zero (a b : List UInt8) : Matches f a b 0 := by
  simp [Matches]

theorem matches_succ {c d : UInt8} {a b : List UInt8} {n : Nat} :
    Matches f (c :: a) (d :: b) (n + 1) ↔ f c = f d ∧ Matches f a b n := by
  simp only [Matches, List.zip_cons_cons, List.take_succ_cons, List.forall_mem_cons]

/-- `f` is what `fold` does to a `char`. -/
theorem compare_eq_zero_iff (hfold : ∀ c, fold (charInt c) = charInt (f c)) (a b : List UInt8)
    (n : Nat) : compareWith fold a b n = 0 ↔ Matches f a b n := by
  unfold compareWith
  induction a generalizing b n with
  | nil => exact iff_of_true (compareRest_eq_zero _ _) (matches_nil_left b n)
  | cons c a ih =>
    cases b with
    | nil => exact iff_of_true (compareRest_eq_zero _ _) (matches_nil_right _ n)
    | cons d b =>
      unfold compareLoop
      cases n with
      | zero => exact iff_of_true (compareRest_eq_zero _ _) (matches_zero _ _)
      | succ n =>
        rw [if_neg (by omega), matches_succ, hfold, hfold]
        by_cases hcd : f c = f d
        · rw [if_neg (not_not.2 (congrArg charInt hcd)), Int.natCast_succ, Int.add_sub_cancel,
            ih b n]
          exact (and_iff_right hcd).symm
        · rw [if_pos fun h => hcd (charInt_inj.1 h)]
          refine iff_of_false (fun hsub => hcd ?_) fun h => hcd h.1
          exact congrArg f (charInt_inj.1 (Int.sub_eq_zero.1 hsub))

/-- The two go together to the end of the shorter one. -/
theorem matches_iff_begins {a b : List UInt8} {n : Nat} (hn : min a.length b.length < n) :
    Matches f a b n ↔ a.map f <+: b.map f ∨ b.map f <+: a.map f := by
  induction a generalizing b n with
  | nil => exact iff_of_true (matches_nil_left b n) (.inl List.nil_prefix)
  | cons c a ih =>
    cases b with
    | nil => exact iff_of_true (matches_nil_right _ n) (.inr List.nil_prefix)
    | cons d b =>
      obtain ⟨n, rfl⟩ := Nat.exists_eq_succ_of_ne_zero (Nat.ne_zero_of_lt hn)
      rw [List.length_cons, List.length_cons] at hn
      rw [matches_succ, ih (by omega), List.map_cons, List.map_cons, List.cons_prefix_cons,
        List.cons_prefix_cons, eq_comm (a := f d), and_or_left]

/-! ## What 0 leaves out -/

/-- Strings agree when what is compared matches, and neither ends before the other. -/
theorem agree_iff (hf : ∀ c, f c = 0 → c = 0) {a b : List UInt8} (ha : 0 ∉ a) (hb : 0 ∉ b)
    (n : Nat) :
    Agree f a b n ↔ Matches f a b n ∧ ¬(min a.length b.length < n ∧ a.length ≠ b.length) := by
  induction n generalizing a b with
  | zero => exact iff_of_true rfl ⟨matches_zero a b, fun h => absurd h.1 (Nat.not_lt_zero _)⟩
  | succ n ih =>
    cases a with
    | nil =>
      cases b with
      | nil => exact iff_of_true rfl ⟨matches_nil_left _ _, fun h => h.2 rfl⟩
      | cons d b =>
        have hd : f d ≠ 0 := fun h => hb (hf d h ▸ List.mem_cons_self)
        refine iff_of_false (fun h => hd ?_) fun h => h.2 ⟨by simp, by simp⟩
        exact (List.cons.inj h).1.symm
    | cons c a =>
      have hc : f c ≠ 0 := fun h => ha (hf c h ▸ List.mem_cons_self)
      cases b with
      | nil =>
        refine iff_of_false (fun h => hc ?_) fun h => h.2 ⟨by simp, by simp⟩
        exact (List.cons.inj h).1
      | cons d b =>
        have ih := ih (fun h => ha (List.mem_cons_of_mem c h)) fun h => hb (List.mem_cons_of_mem d h)
        have hstep : Agree f (c :: a) (d :: b) (n + 1) ↔ f c = f d ∧ Agree f a b n :=
          List.cons.injEq .. ▸ Iff.rfl
        rw [hstep, ih, matches_succ, and_assoc, List.length_cons, List.length_cons,
          Nat.add_min_add_right, Nat.add_lt_add_iff_right, Ne, Ne, Nat.add_right_cancel_iff]

/-- What is returned is right, unless one of the strings is cut short. -/
theorem compare_agree_iff (hfold : ∀ c, fold (charInt c) = charInt (f c))
    (hf : ∀ c, f c = 0 → c = 0) (a b : CString) (n : Nat) :
    (compareWith fold a.chars b.chars n = 0 ↔ Agree f a.chars b.chars n) ↔
      ¬CutShort f a.chars b.chars n := by
  rw [compare_eq_zero_iff hfold, agree_iff hf a.noNul b.noNul, iff_self_and, CutShort,
    ← and_assoc]
  constructor
  · rintro h ⟨hlen, hbegins⟩
    exact h ((matches_iff_begins hlen.1).2 hbegins) hlen
  · intro h hmatch hlen
    exact h ⟨hlen, (matches_iff_begins hlen.1).1 hmatch⟩

end

/-! ## The two of them -/

theorem strncasecmp_eq (a b : List UInt8) (n : Int) :
    strncasecmp a b n = compareWith tolower a b n := by
  unfold compareWith
  induction a generalizing b n with
  | nil => exact (compareRest_eq_zero _ _).symm
  | cons c a ih =>
    cases b with
    | nil => exact (compareRest_eq_zero _ _).symm
    | cons d b =>
      unfold strncasecmp compareLoop
      split_ifs
      · exact (compareRest_eq_zero _ _).symm
      · rfl
      · exact ih b (n - 1)

theorem lower_eq_zero : ∀ c, lower c = 0 → c = 0 := by
  rintro ⟨x⟩
  revert x
  decide +kernel

/-- **When 0 means that the strings agree.**  Both functions are right for strings of which
neither is cut short, and for no others: a string is taken to be any longer one that it
begins. -/
theorem strncmp_agree_iff (a b : CString) (n : Nat) :
    ((strncmp a.chars b.chars n = 0 ↔ Agree id a.chars b.chars n) ↔
      ¬CutShort id a.chars b.chars n) ∧
    ((strncasecmp a.chars b.chars n = 0 ↔ Agree lower a.chars b.chars n) ↔
      ¬CutShort lower a.chars b.chars n) := by
  constructor
  · exact compare_agree_iff (fun _ => rfl) (fun _ => id) a b n
  · rw [strncasecmp_eq]
    exact compare_agree_iff tolower_charInt lower_eq_zero a b n

/-- The names "ab" and "abc" are the same to both, to the third character. -/
theorem strncmp_ab_abc :
    ∃ a b : CString, a.chars = chars ['a', 'b'] ∧ b.chars = chars ['a', 'b', 'c'] ∧
      (strncmp a.chars b.chars 3 = 0 ∧ ¬Agree id a.chars b.chars 3) ∧
      (strncasecmp a.chars b.chars 3 = 0 ∧ ¬Agree lower a.chars b.chars 3) := by
  refine ⟨⟨chars ['a', 'b'], by decide⟩, ⟨chars ['a', 'b', 'c'], by decide⟩, rfl, rfl, ?_⟩
  unfold Agree
  decide

/-- The FATX lookups compare the lengths first. -/
theorem strncasecmp_of_length {a b : CString} (h : a.chars.length = b.chars.length) (n : Nat) :
    strncasecmp a.chars b.chars n = 0 ↔ Agree lower a.chars b.chars n := by
  rw [strncasecmp_eq]
  exact (compare_agree_iff tolower_charInt lower_eq_zero a b n).2 fun hcut => hcut.2.1 h

end Gentoox.Lib
