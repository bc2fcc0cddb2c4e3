import GentooxLoader.Base.Cells
import Mathlib.Data.Nat.ModEq

/-!
# Rings: the last elements of a growing list

Element `i` of the list is put at cell `i % n`, so that the cells hold the last
`n` elements, and older ones are gone.

    Holds.push    one more element
    Holds.read    the cells of what was put in last
-/

namespace Rings

variable {α : Type} {n : Nat} {m : Nat → α} {l : List α}

/-- The last `n` elements of the list lie at their places. -/
def Holds (n : Nat) (m : Nat → α) (l : List α) : Prop :=
  ∀ i x, l[i]? = some x → l.length ≤ i + n → m (i % n) = x

theorem Holds.push (h : Holds n m l) (x : α) :
    Holds n (Function.update m (l.length % n) x) (l ++ [x]) := by
  intro i y hy hnear
  rw [List.length_append, List.length_singleton] at hnear
  rcases Nat.lt_trichotomy i l.length with hlt | heq | hgt
  · rw [List.getElem?_append_left hlt] at hy
    rw [Function.update_of_ne]
    · exact h i y hy (by omega)
    · intro hmod
      have hdvd : n ∣ l.length - i := (Nat.modEq_iff_dvd' (Nat.le_of_lt hlt)).1 hmod
      have := Nat.le_of_dvd (by omega) hdvd
      omega
  · subst heq
    rw [List.getElem?_append_right (Nat.le_refl _), Nat.sub_self, List.getElem?_cons_zero,
      Option.some.injEq] at hy
    rw [Function.update_self, hy]
  · rw [List.getElem?_eq_none (by simp; omega)] at hy
    cases hy

/-- What was put in since the first cell was last written. -/
theorem Holds.read {k : Nat} (h : Holds n m l) (hk : k ≤ n) (hle : k ≤ l.length)
    (hfirst : (l.length - k) % n = 0) : Cells.read m 0 k = l.drop (l.length - k) := by
  apply List.ext_getElem
  · rw [Cells.length_read, List.length_drop]
    omega
  · intro i h1 h2
    rw [Cells.length_read] at h1
    rw [Cells.getElem_read, List.getElem_drop, Nat.zero_add]
    have hi := h (l.length - k + i) _ (List.getElem?_eq_getElem (by omega)) (by omega)
    rcases Nat.lt_or_eq_of_le hk with hlt | rfl
    · rw [Nat.add_mod, hfirst, Nat.zero_add, Nat.mod_mod, Nat.mod_eq_of_lt (by omega)] at hi
      exact hi
    · rw [Nat.add_mod, hfirst, Nat.zero_add, Nat.mod_mod, Nat.mod_eq_of_lt h1] at hi
      exact hi

theorem holds_nil (m : Nat → α) (n : Nat) : Holds n m [] := by
  intro i x hx _
  cases hx

end Rings
