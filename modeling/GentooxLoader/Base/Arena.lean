import Mathlib.Data.Finset.Basic
import GentooxLoader.Base.Machine

/-!
# Arena: what an allocator is for

A finite set of cells is taken only when it meets neither the reserved cells
nor a set that is still out, and given back as the set that was taken.  How the
sets are chosen and how they are remembered is left to the program that
refines this machine.

    arena.Reachable l → l.Pairwise Disjoint        (pairwise_disjoint)
-/

namespace Arena

variable {α : Type} [DecidableEq α]

inductive Action (α : Type) where
  | take (r : Finset α)
  | giveBack (r : Finset α)

/-- States are the lists of sets that are out. -/
def arena (reserved : Finset α) : Machine (List (Finset α)) (Action α) where
  init l := l = []
  next l
    | .take r => if Disjoint reserved r ∧ ∀ x ∈ l, Disjoint r x then some (r :: l) else none
    | .giveBack r => if r ∈ l then some (l.erase r) else none

theorem pairwise_disjoint {reserved : Finset α} : ∀ l, (arena reserved).Reachable l →
    l.Pairwise Disjoint := by
  apply Machine.invariant
  · rintro l rfl
    exact .nil
  · rintro l (r | r) l' hl hn <;> simp only [arena, Option.ite_none_right_eq_some] at hn
    · obtain ⟨⟨-, hr⟩, h⟩ := hn
      cases h
      exact hl.cons fun x hx => hr x hx
    · obtain ⟨-, h⟩ := hn
      cases h
      exact hl.sublist List.erase_sublist

theorem disjoint_reserved {reserved : Finset α} : ∀ l, (arena reserved).Reachable l →
    ∀ r ∈ l, Disjoint reserved r := by
  apply Machine.invariant
  · rintro l rfl r hr
    cases hr
  · rintro l (r | r) l' hl hn <;> simp only [arena, Option.ite_none_right_eq_some] at hn
    · obtain ⟨⟨h0, -⟩, h⟩ := hn
      cases h
      exact List.forall_mem_cons.2 ⟨h0, hl⟩
    · obtain ⟨-, h⟩ := hn
      cases h
      exact fun x hx => hl x (List.mem_of_mem_erase hx)

end Arena
