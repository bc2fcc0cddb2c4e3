import Mathlib.Data.List.Basic

/-!
# Streams: a delimiter in a stream that comes in pieces

`after pat s` is what follows the first `pat` in a stream.  A reader that looks
for `pat` in each piece by itself gets `afterPieces pat ps` instead.  The two
agree on what is found unless a cut of the stream falls inside its first `pat`:

    afterPieces_concat   one piece more at the end
    afterPieces_none     no pat in the stream: none in the pieces
    afterPieces_uncut    the first pat is not cut: the same is found
    afterPieces_cut      it is cut: none, or less, is found

A cut is measured from the end of the stream, so that a piece more in front
does not move it.
-/

namespace Streams

variable {α : Type*} [DecidableEq α]

/-- What follows the first `pat` in the stream. -/
def after (pat : List α) : List α → Option (List α)
  | [] => none
  | x :: s => if pat <+: x :: s then some ((x :: s).drop pat.length) else after pat s

/-- What follows the first `pat` that lies in one piece. -/
def afterPieces (pat : List α) : List (List α) → Option (List α)
  | [] => none
  | p :: ps =>
    match after pat p with
    | some rest => some (rest ++ ps.flatten)
    | none => afterPieces pat ps

/-- A cut falls inside the `pat` before the end `rest` of the stream. -/
def CutInside (pat : List α) (ps : List (List α)) (rest : List α) : Prop :=
  ∃ qs qs', ps = qs ++ qs' ∧ rest.length < qs'.flatten.length ∧
    qs'.flatten.length < rest.length + pat.length

/-! ## Lemmas -/

theorem after_length {pat s rest : List α} (h : after pat s = some rest) :
    rest.length + pat.length ≤ s.length := by
  induction s with
  | nil => cases h
  | cons x s ih =>
    unfold after at h
    split at h
    · rename_i hp
      have := hp.length_le
      cases h
      rw [List.length_drop]
      omega
    · have := ih h
      rw [List.length_cons]
      omega

/-- A `pat` found in front is found whatever follows. -/
theorem after_append_some {pat s rest : List α} (t : List α) (h : after pat s = some rest) :
    after pat (s ++ t) = some (rest ++ t) := by
  induction s with
  | nil => cases h
  | cons x s ih =>
    unfold after at h
    rw [List.cons_append, after]
    split at h
    · rename_i hp
      cases h
      have hp' : pat <+: x :: (s ++ t) := hp.trans (List.prefix_append (x :: s) t)
      rw [if_pos hp', ← List.cons_append, List.drop_append_of_le_length hp.length_le]
    · rename_i hp
      by_cases hp' : pat <+: x :: (s ++ t)
      · -- a longer match here would have left less than `rest` behind
        exfalso
        have hlen := after_length h
        have : pat <+: x :: s :=
          List.prefix_of_prefix_length_le hp' (List.prefix_append (x :: s) t)
            (by rw [List.length_cons]; omega)
        exact hp this
      · rw [if_neg hp']
        exact ih h

/-- Without `pat` in front, the first `pat` lies behind or across the border. -/
theorem after_append_none {pat s : List α} (t : List α) (h : after pat s = none) :
    after pat (s ++ t) = after pat t ∨
      ∃ rest, after pat (s ++ t) = some rest ∧ rest.length < t.length ∧
        t.length < rest.length + pat.length := by
  induction s with
  | nil => exact Or.inl rfl
  | cons x s ih =>
    unfold after at h
    split at h
    · cases h
    · rename_i hp
      rw [List.cons_append, after]
      by_cases hp' : pat <+: x :: (s ++ t)
      · right
        rw [if_pos hp']
        have hle := hp'.length_le
        have hgt : (x :: s).length < pat.length := by
          by_contra hc
          exact hp (List.prefix_of_prefix_length_le hp' (List.prefix_append (x :: s) t) (by omega))
        rw [List.length_cons] at hle hgt
        rw [List.length_append] at hle
        refine ⟨_, rfl, ?_, ?_⟩ <;> simp only [List.length_drop, List.length_cons, List.length_append] <;>
          omega
      · rw [if_neg hp']
        exact ih h

theorem afterPieces_length {pat rest : List α} {ps : List (List α)}
    (h : afterPieces pat ps = some rest) : rest.length + pat.length ≤ ps.flatten.length := by
  induction ps with
  | nil => cases h
  | cons p ps ih =>
    unfold afterPieces at h
    rw [List.flatten_cons, List.length_append]
    split at h
    · rename_i r hr
      cases h
      have := after_length hr
      rw [List.length_append]
      omega
    · have := ih h
      omega

omit [DecidableEq α] in
theorem CutInside.cons {pat rest : List α} {ps : List (List α)} (p : List α)
    (h : CutInside pat ps rest) : CutInside pat (p :: ps) rest := by
  obtain ⟨qs, qs', rfl, h1, h2⟩ := h
  exact ⟨p :: qs, qs', rfl, h1, h2⟩

omit [DecidableEq α] in
/-- A piece in front adds its front as the one new place for a cut. -/
theorem CutInside.of_cons {pat rest p : List α} {ps : List (List α)}
    (h : CutInside pat (p :: ps) rest)
    (hle : rest.length + pat.length ≤ (p :: ps).flatten.length) : CutInside pat ps rest := by
  obtain ⟨qs, qs', hsplit, h1, h2⟩ := h
  cases qs with
  | nil =>
    rw [List.nil_append] at hsplit
    rw [← hsplit] at h2
    omega
  | cons q qs =>
    rw [List.cons_append, List.cons.injEq] at hsplit
    exact ⟨qs, qs', hsplit.2, h1, h2⟩

/-! ## What is found in pieces -/

/-- One piece more at the end. -/
theorem afterPieces_concat (pat : List α) (ps : List (List α)) (p : List α) :
    afterPieces pat (ps ++ [p]) =
      (afterPieces pat ps).elim (after pat p) fun rest => some (rest ++ p) := by
  induction ps with
  | nil =>
    simp only [List.nil_append, afterPieces, List.flatten_nil, List.append_nil]
    cases after pat p <;> rfl
  | cons q ps ih =>
    rw [List.cons_append, afterPieces, afterPieces]
    cases after pat q with
    | none => exact ih
    | some rest => simp

theorem afterPieces_none {pat : List α} {ps : List (List α)} (h : after pat ps.flatten = none) :
    afterPieces pat ps = none := by
  induction ps with
  | nil => rfl
  | cons p ps ih =>
    rw [List.flatten_cons] at h
    unfold afterPieces
    cases hp : after pat p with
    | some rest =>
      rw [after_append_some _ hp] at h
      cases h
    | none =>
      rcases after_append_none ps.flatten hp with he | ⟨rest, hr, -⟩
      · exact ih (he.symm.trans h)
      · rw [hr] at h
        cases h

theorem afterPieces_uncut {pat rest : List α} {ps : List (List α)}
    (h : after pat ps.flatten = some rest) (hc : ¬ CutInside pat ps rest) :
    afterPieces pat ps = some rest := by
  induction ps with
  | nil => cases h
  | cons p ps ih =>
    rw [List.flatten_cons] at h
    unfold afterPieces
    cases hp : after pat p with
    | some rest' =>
      rw [after_append_some _ hp] at h
      exact h
    | none =>
      rcases after_append_none ps.flatten hp with he | ⟨rest', hr, h1, h2⟩
      · exact ih (he.symm.trans h) fun hc' => hc (hc'.cons p)
      · rw [hr] at h
        cases h
        exact absurd ⟨[p], ps, rfl, h1, h2⟩ hc

theorem afterPieces_cut {pat rest : List α} {ps : List (List α)}
    (h : after pat ps.flatten = some rest) (hc : CutInside pat ps rest) :
    ∀ rest', afterPieces pat ps = some rest' → rest'.length < rest.length := by
  induction ps with
  | nil => cases h
  | cons p ps ih =>
    intro rest' hrest'
    have hle := after_length h
    replace hc := hc.of_cons hle
    rw [List.flatten_cons] at h
    unfold afterPieces at hrest'
    cases hp : after pat p with
    | some r =>
      -- found in the first piece, so no later cut falls inside
      exfalso
      rw [after_append_some _ hp] at h
      cases h
      obtain ⟨qs, qs', rfl, h1, -⟩ := hc
      rw [List.flatten_append, List.length_append, List.length_append] at h1
      omega
    | none =>
      rw [hp] at hrest'
      rcases after_append_none ps.flatten hp with he | ⟨r, hr, h1, h2⟩
      · exact ih (he.symm.trans h) hc rest' hrest'
      · rw [hr] at h
        cases h
        have := afterPieces_length hrest'
        omega

end Streams
