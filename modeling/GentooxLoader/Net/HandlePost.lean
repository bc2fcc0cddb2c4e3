import GentooxLoader.Net.NetBoot
import GentooxLoader.Net.NetFlash

/-!
# `handle_post` (networktools/netboot, networktools/netflash)

What the two servers do with the two places `locate` gives, and what the three
loops of it look for:

    findBoundary_iff   the first line end
    findStart_first    the first line feed with only CRs between it and another
    findEnd_iff        the first place where the first line stands again
-/

namespace Gentoox.Net

open Cells Lib

/-! ## Algorithm -/

/-- What `handle_post` of netboot returns. -/
def handlePostReturn (l : Locals) (s : Server) (hs : HttpState) (postdata : Nat) : Int :=
  match (locate l s.ram postdata hs.postlen).2 with
  | none => 0
  | some _ => 1

/-- And that of netflash. -/
def NetFlash.handlePostReturn (l : Locals) (ram : Nat → UInt8) (hs : HttpState) (postdata : Nat) :
    Int :=
  match (locate l ram postdata hs.postlen).2 with
  | none => 0
  | some (start, stop) =>
    let len := (stop : Int) - 2 - start
    if len ≠ 256 * 1024 ∧ len ≠ 512 * 1024 ∧ len ≠ 1024 * 1024 then 0 else 1

/-! ## What the servers do with what is found -/

/-- The sizes netflash takes. -/
def Accepted (len : Int) : Prop := len = 256 * 1024 ∨ len = 512 * 1024 ∨ len = 1024 * 1024

instance (len : Int) : Decidable (Accepted len) := inferInstanceAs (Decidable (_ ∨ _))

theorem accepted_iff (len : Int) :
    Accepted len ↔ ¬ (len ≠ 256 * 1024 ∧ len ≠ 512 * 1024 ∧ len ≠ 1024 * 1024) := by
  unfold Accepted
  omega

section
variable {l : Locals} {s : Server} {hs : HttpState} {postdata start stop : Nat}
  {ram ram' : Nat → UInt8}

theorem handlePost_none (h : locate l s.ram postdata hs.postlen = (ram', none)) :
    handlePostReturn l s hs postdata = 0 ∧
      handlePost l s hs postdata = ({ s with ram := ram' }, hs) := by
  unfold handlePostReturn handlePost
  rw [h]
  exact ⟨rfl, rfl⟩

theorem handlePost_some (h : locate l s.ram postdata hs.postlen = (ram', some (start, stop))) :
    handlePostReturn l s hs postdata = 1 ∧ handlePost l s hs postdata =
      ({ s with ram := ram', postNum := s.postNum + 1 },
        { hs with dataStart := some start, dataLen := (stop : Int) - 2 - start }) := by
  unfold handlePostReturn handlePost
  rw [h]
  exact ⟨rfl, rfl⟩

namespace NetFlash

variable (files : Nat → Int)

theorem handlePost_none (h : locate l ram postdata hs.postlen = (ram', none)) :
    handlePostReturn l ram hs postdata = 0 ∧
      SameUpload hs (handlePost files l ram hs postdata).2 := by
  have h' : locate l ram postdata (serve files hs errorFile).postlen = (ram', none) := h
  unfold handlePostReturn handlePost
  simp only [h, h']
  exact ⟨trivial, rfl, rfl⟩

theorem handlePost_refused (h : locate l ram postdata hs.postlen = (ram', some (start, stop)))
    (hlen : ¬ Accepted ((stop : Int) - 2 - start)) :
    handlePostReturn l ram hs postdata = 0 ∧
      SameUpload hs (handlePost files l ram hs postdata).2 := by
  have h' : locate l ram postdata (serve files hs errorFile).postlen = (ram', some (start, stop)) := h
  rw [accepted_iff, not_not] at hlen
  unfold handlePostReturn handlePost
  simp only [h, h', if_pos hlen]
  exact ⟨trivial, rfl, rfl⟩

theorem handlePost_accepted (h : locate l ram postdata hs.postlen = (ram', some (start, stop)))
    (hlen : Accepted ((stop : Int) - 2 - start)) :
    handlePostReturn l ram hs postdata = 1 ∧
      (handlePost files l ram hs postdata).1 = ram' ∧
      (handlePost files l ram hs postdata).2.dataStart = some start ∧
      (handlePost files l ram hs postdata).2.dataLen = (stop : Int) - 2 - start := by
  have h' : locate l ram postdata (serve files hs errorFile).postlen = (ram', some (start, stop)) := h
  rw [accepted_iff] at hlen
  unfold handlePostReturn handlePost
  simp only [h, h', if_neg hlen]
  exact ⟨trivial, trivial, rfl, rfl⟩

end NetFlash

end

/-! ## The three loops -/

def LineEnd (c : UInt8) : Prop := c = 0x0a ∨ c = 0x0d

section
variable (m : Nat → UInt8) (postdata : Nat)

/-- A body of `n` bytes has a first line, of `blen` bytes. -/
def FirstLine (n blen : Nat) : Prop :=
  LineEnd (m (postdata + blen)) ∧ blen < n ∧ ∀ i, i < blen → ¬ LineEnd (m (postdata + i))

/-- Behind a line feed at `lo` or later there are only CRs up to `i`. -/
def LineStart (lo i : Nat) : Prop :=
  ∃ k, lo ≤ k ∧ k < i ∧ m (postdata + k) = 0x0a ∧ ∀ k', k < k' → k' < i → m (postdata + k') = 0x0d

/-- The line feed of an empty line. -/
def EmptyLine (lo i : Nat) : Prop := m (postdata + i) = 0x0a ∧ LineStart m postdata lo i

def FirstEmptyLine (lo i : Nat) : Prop :=
  EmptyLine m postdata lo i ∧ ∀ k, k < i → ¬ EmptyLine m postdata lo k

/-- The boundary stands at `j`. -/
def Stands (blen j : Nat) : Prop := read m (postdata + j) blen = read m postdata blen

/-- From `i` on the boundary first stands at `j`. -/
def FirstStands (blen i j : Nat) : Prop :=
  i ≤ j ∧ Stands m postdata blen j ∧ ∀ k, i ≤ k → k < j → ¬ Stands m postdata blen k

end

section
variable {m : Nat → UInt8} {postdata : Nat}

theorem findBoundary_iff {n blen : Nat} :
    findBoundary m postdata n = some blen ↔ FirstLine m postdata n blen := by
  simp [findBoundary, FirstLine, LineEnd]

theorem findBoundary_eq_none {n : Nat} :
    findBoundary m postdata n = none ↔ ∀ i, i < n → ¬ LineEnd (m (postdata + i)) := by
  simp [findBoundary, LineEnd]

theorem FirstLine.unique {n blen blen' : Nat} (h : FirstLine m postdata n blen)
    (h' : FirstLine m postdata n blen') : blen = blen' :=
  Option.some.inj ((findBoundary_iff.2 h).symm.trans (findBoundary_iff.2 h'))

theorem findStart_succ (n i ncnt : Nat) : findStart m postdata (n + 1) i ncnt =
    if m (postdata + i) = 0x0d then findStart m postdata n (i + 1) ncnt
    else if m (postdata + i) = 0x0a then
      if ncnt + 1 = 2 then some i else findStart m postdata n (i + 1) (ncnt + 1)
    else findStart m postdata n (i + 1) 0 := rfl

theorem FirstEmptyLine.unique {lo i k : Nat} (h : FirstEmptyLine m postdata lo i)
    (h' : FirstEmptyLine m postdata lo k) : i = k := by
  rcases Nat.lt_trichotomy i k with hlt | heq | hlt
  · exact absurd h.1 (h'.2 i hlt)
  · exact heq
  · exact absurd h'.1 (h.2 k hlt)

/-- One byte more. -/
theorem lineStart_succ {lo i : Nat} (hi : lo ≤ i) : LineStart m postdata lo (i + 1) ↔
    m (postdata + i) = 0x0a ∨ m (postdata + i) = 0x0d ∧ LineStart m postdata lo i := by
  constructor
  · rintro ⟨k, h1, h2, hlf, hcr⟩
    rcases Nat.lt_or_ge k i with h | h
    · exact Or.inr ⟨hcr i h (Nat.lt_succ_self i),
        k, h1, h, hlf, fun k' h3 h4 => hcr k' h3 (Nat.lt_succ_of_lt h4)⟩
    · obtain rfl : k = i := by omega
      exact Or.inl hlf
  · rintro (hlf | ⟨hcr, k, h1, h2, hlf, hall⟩)
    · exact ⟨i, hi, Nat.lt_succ_self i, hlf, fun k' h1 h2 => by omega⟩
    · refine ⟨k, h1, Nat.lt_succ_of_lt h2, hlf, fun k' h3 h4 => ?_⟩
      rcases Nat.lt_or_ge k' i with h | h
      · exact hall k' h3 h
      · obtain rfl : k' = i := by omega
        exact hcr

/-- The second loop, between a line start (`ncnt` is 1) and another byte. -/
theorem findStart_iff {lo : Nat} : ∀ {n i ncnt : Nat}, lo ≤ i →
    (ncnt = 1 ∧ LineStart m postdata lo i ∨ ncnt = 0 ∧ ¬ LineStart m postdata lo i) →
    (∀ k, k < i → ¬ EmptyLine m postdata lo k) → ∀ k,
    (findStart m postdata n i ncnt = some k ↔ k < i + n ∧ FirstEmptyLine m postdata lo k) := by
  intro n
  induction n with
  | zero =>
    intro i ncnt _ _ hno k
    constructor
    · intro h
      cases h
    · rintro ⟨hlt, hk⟩
      exact absurd hk.1 (hno k hlt)
  | succ n ih =>
    intro i ncnt hi hcnt hno k
    have hstep : LineStart m postdata lo (i + 1) ↔ m (postdata + i) = 0x0a ∨
        m (postdata + i) = 0x0d ∧ LineStart m postdata lo i := lineStart_succ hi
    have hnext : ¬ EmptyLine m postdata lo i → ∀ k, k < i + 1 → ¬ EmptyLine m postdata lo k := by
      intro hno' k hk
      rcases Nat.lt_or_ge k i with h | h
      · exact hno k h
      · obtain rfl : k = i := by omega
        exact hno'
    rw [findStart_succ, show i + (n + 1) = i + 1 + n by omega]
    by_cases hcr : m (postdata + i) = 0x0d
    · rw [if_pos hcr]
      have hlf : m (postdata + i) ≠ 0x0a := by
        rw [hcr]
        decide
      refine ih (Nat.le_succ_of_le hi) ?_ (hnext fun h => hlf h.1) k
      simpa only [hstep, hcr, true_and, show ((0x0d : UInt8) = 0x0a) = False by decide,
        false_or] using hcnt
    · rw [if_neg hcr]
      by_cases hlf : m (postdata + i) = 0x0a
      · rw [if_pos hlf]
        rcases hcnt with ⟨rfl, hstart⟩ | ⟨rfl, hstart⟩
        · -- the empty line
          rw [if_pos rfl]
          have hfirst : FirstEmptyLine m postdata lo i := ⟨⟨hlf, hstart⟩, hno⟩
          constructor
          · intro h
            cases h
            exact ⟨by omega, hfirst⟩
          · rintro ⟨-, hk⟩
            rw [hfirst.unique hk]
        · rw [if_neg (by decide)]
          exact ih (Nat.le_succ_of_le hi) (Or.inl ⟨rfl, hstep.2 (Or.inl hlf)⟩)
            (hnext fun h => hstart h.2) k
      · rw [if_neg hlf]
        refine ih (Nat.le_succ_of_le hi) (Or.inr ⟨rfl, fun h => ?_⟩) (hnext fun h => hlf h.1) k
        rcases hstep.1 h with h | ⟨h, -⟩
        · exact hlf h
        · exact hcr h

theorem findStart_congr {m' : Nat → UInt8} : ∀ {n i ncnt : Nat},
    (∀ k, i ≤ k → m (postdata + k) = m' (postdata + k)) →
    findStart m postdata n i ncnt = findStart m' postdata n i ncnt := by
  intro n
  induction n with
  | zero =>
    intro i ncnt _
    rfl
  | succ n ih =>
    intro i ncnt h
    have hnext : ∀ ncnt, findStart m postdata n (i + 1) ncnt = findStart m' postdata n (i + 1) ncnt :=
      fun _ => ih fun k hk => h k (Nat.le_of_succ_le hk)
    rw [findStart_succ, findStart_succ, h i (Nat.le_refl i), hnext, hnext, hnext]

/-- The second loop starts at the NUL the first one stored. -/
theorem findStart_nul {n blen : Nat} (h : blen < n) :
    findStart (Function.update m (postdata + blen) 0) postdata (n - blen) blen 0 =
      findStart m postdata (n - (blen + 1)) (blen + 1) 0 := by
  rw [show n - blen = n - (blen + 1) + 1 by omega, findStart_succ, Function.update_self,
    if_neg (by decide), if_neg (by decide)]
  apply findStart_congr
  intro k hk
  rw [Function.update_of_ne (by omega)]

theorem findStart_first {n blen : Nat} (h : blen < n) (k : Nat) :
    findStart (Function.update m (postdata + blen) 0) postdata (n - blen) blen 0 = some k ↔
      k < n ∧ FirstEmptyLine m postdata (blen + 1) k := by
  have hnone : ∀ i, i ≤ blen + 1 → ¬ LineStart m postdata (blen + 1) i := by
    rintro i hi ⟨k', h1, h2, -⟩
    omega
  rw [findStart_nul h, findStart_iff (Nat.le_refl _) (Or.inr ⟨rfl, hnone _ (Nat.le_refl _)⟩)
    fun k' hk' he => hnone k' (Nat.le_of_lt hk') he.2, show blen + 1 + (n - (blen + 1)) = n by omega]

/-- The third loop. -/
theorem findEnd_iff {n i blen : Nat} (h : blen < i) (j : Nat) :
    findEnd (Function.update m (postdata + blen) 0) postdata n i blen = some j ↔
      j < n ∧ FirstStands m postdata blen i j := by
  have hat : ∀ k, i ≤ k → (read (Function.update m (postdata + blen) 0) (postdata + k) blen =
      read (Function.update m (postdata + blen) 0) postdata blen ↔ Stands m postdata blen k) := by
    intro k hk
    rw [read_update_of_outside (by omega), read_update_of_outside (by omega)]
    rfl
  unfold findEnd FirstStands
  rw [List.find?_range'_eq_some, beq_iff_eq, List.mem_range'_1]
  constructor
  · rintro ⟨hj, hmem, hno⟩
    refine ⟨by omega, hmem.1, (hat j hmem.1).1 hj, fun k h1 h2 => ?_⟩
    have := hno k h1 h2
    rwa [Bool.not_eq_true', beq_eq_false_iff_ne, Ne, hat k h1] at this
  · rintro ⟨hlt, hij, hj, hno⟩
    refine ⟨(hat j hij).2 hj, by omega, fun k h1 h2 => ?_⟩
    rw [Bool.not_eq_true', beq_eq_false_iff_ne, Ne, hat k h1]
    exact hno k h1 h2

end

end Gentoox.Net
