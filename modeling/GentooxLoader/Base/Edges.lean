import Mathlib.Data.List.Basic
import Mathlib.Algebra.Ring.Int.Defs

/-!
# Edges of a level

A detector of edges keeps a level and answers each poll with how the level
moved: 1 up, -1 down, 0 not at all.  `Path a rs b` says that the answers `rs`
take the level from `a` to `b`.

    Path.alternates    the edges of a path are 1, -1, 1, … or -1, 1, -1, …
    Path.rises         from a low level they begin with 1
-/

namespace Edges

/-- The answer when the level goes from `a` to `b`. -/
def edge (a b : Bool) : Int := if a = b then 0 else if b then 1 else -1

@[simp] theorem edge_self (a : Bool) : edge a a = 0 := by simp [edge]

theorem edge_ne_zero {a b : Bool} (h : b = !a) : edge a b = if a then -1 else 1 := by
  subst h
  cases a <;> rfl

/-- The answers `rs` take the level from `a` to `b`. -/
def Path : Bool → List Int → Bool → Prop
  | a, [], b => a = b
  | a, r :: rs, b => ∃ m, r = edge a m ∧ Path m rs b

/-- The answers that are edges. -/
def edges (rs : List Int) : List Int := rs.filter (· ≠ 0)

/-- `n` edges in turn, the first from the level `a`. -/
def turnsFrom (a : Bool) (n : Nat) : List Int :=
  (List.range n).map fun i => (if a then -1 else 1) * (-1) ^ i

theorem turnsFrom_succ (a : Bool) (n : Nat) :
    turnsFrom a (n + 1) = (if a then -1 else 1) :: turnsFrom (!a) n := by
  unfold turnsFrom
  rw [List.range_succ_eq_map, List.map_cons, List.map_map]
  congr 1
  · simp
  · apply List.map_congr_left
    intro i _
    cases a <;> simp [pow_succ]

/-- An edge is followed by one of the other sign. -/
theorem Path.alternates {a b : Bool} {rs : List Int} (h : Path a rs b) :
    edges rs = turnsFrom a (edges rs).length := by
  induction rs generalizing a with
  | nil => rfl
  | cons r rs ih =>
    obtain ⟨m, rfl, hm⟩ := h
    have hi := ih hm
    by_cases ham : m = a
    · subst ham
      rw [show edges (edge m m :: rs) = edges rs by simp [edges]]
      exact hi
    · have hflip : m = !a := Bool.eq_not.2 ham
      have hedge : edge a m ≠ 0 := by
        rw [edge_ne_zero hflip]
        split <;> decide
      rw [show edges (edge a m :: rs) = edge a m :: edges rs by simp [edges, hedge]]
      rw [List.length_cons, turnsFrom_succ, ← hflip, ← hi, edge_ne_zero hflip]

/-- From a low level the edges are 1, -1, 1, … -/
theorem Path.rises {b : Bool} {rs : List Int} (h : Path false rs b) :
    edges rs = (List.range (edges rs).length).map fun i => (-1) ^ i := by
  have halt := h.alternates
  simpa only [turnsFrom, Bool.false_eq_true, if_false, one_mul] using halt

end Edges
