import Mathlib.Data.List.Basic
import Mathlib.Data.List.Induction
import Mathlib.Logic.Function.Basic

/-!
# Cells: an array seen through a pointer

A C array reached through a pointer is a function `Nat → α` from the index to
the cell.  `read`, `write`, `fill` and `copy` are the block operations on such
arrays; single cells are set with Mathlib's `Function.update`.  Each operation
comes with its value at an index (`write_apply`, …), its frame
(`write_of_outside`, …) and how it composes with the others.
-/

namespace Cells

variable {α : Type*}

/-- The `n` cells from index `a` on. -/
def read (m : Nat → α) (a n : Nat) : List α := (List.range n).map fun i => m (a + i)

/-- Store the list `l` from index `a` on. -/
def write (m : Nat → α) (a : Nat) (l : List α) : Nat → α :=
  fun i => if a ≤ i then (l[i - a]?).getD (m i) else m i

/-- Store `v` into the `n` cells from index `a` on. -/
def fill (m : Nat → α) (a : Nat) (v : α) (n : Nat) : Nat → α :=
  fun i => if a ≤ i ∧ i < a + n then v else m i

/-- Copy `n` cells of `src` at `s` to `dst` at `d`. -/
def copy (dst : Nat → α) (d : Nat) (src : Nat → α) (s n : Nat) : Nat → α :=
  write dst d (read src s n)

/-! ## Reading -/

@[simp] theorem length_read (m : Nat → α) (a n : Nat) : (read m a n).length = n := by
  simp [read]

@[simp] theorem read_zero (m : Nat → α) (a : Nat) : read m a 0 = [] := rfl

theorem getElem_read (m : Nat → α) (a n i : Nat) (h : i < (read m a n).length) :
    (read m a n)[i] = m (a + i) := by
  simp [read]

theorem getElem?_read (m : Nat → α) (a n i : Nat) (h : i < n) :
    (read m a n)[i]? = some (m (a + i)) := by
  simp [read, h]

theorem read_succ (m : Nat → α) (a n : Nat) : read m a (n + 1) = m a :: read m (a + 1) n := by
  simp only [read, List.range_succ_eq_map, List.map_cons, List.map_map, Nat.add_zero]
  congr 1
  apply List.map_congr_left
  intro i _
  simp only [Function.comp_apply]
  congr 1
  omega

theorem read_add (m : Nat → α) (a n k : Nat) :
    read m a (n + k) = read m a n ++ read m (a + n) k := by
  induction n generalizing a with
  | zero => simp
  | succ n ih =>
    rw [Nat.succ_add, read_succ, ih, read_succ, List.cons_append]
    congr 3
    omega

theorem read_eq_iff (m m' : Nat → α) (a b n : Nat) :
    read m a n = read m' b n ↔ ∀ i, i < n → m (a + i) = m' (b + i) := by
  simp [read]

theorem read_congr {m m' : Nat → α} {a n : Nat} (h : ∀ i, a ≤ i → i < a + n → m i = m' i) :
    read m a n = read m' a n := by
  rw [read_eq_iff]
  intro i hi
  exact h (a + i) (by omega) (by omega)

theorem take_read (m : Nat → α) (a n k : Nat) : (read m a n).take k = read m a (min k n) := by
  simp [read, ← List.map_take, List.take_range]

/-- A part of a block. -/
theorem read_part {m : Nat → α} {a n s k : Nat} (h : s + k ≤ n) :
    read m (a + s) k = ((read m a n).drop s).take k := by
  obtain ⟨d, rfl⟩ := Nat.exists_eq_add_of_le h
  have hl : (read m a s).length = s := length_read m a s
  rw [read_add, read_add, List.append_assoc, List.drop_left' hl,
    List.take_left' (length_read m (a + s) k)]

theorem read_update_of_outside {m : Nat → α} {a n i : Nat} {v : α} (h : i < a ∨ a + n ≤ i) :
    read (Function.update m i v) a n = read m a n := by
  apply read_congr
  intro j h1 h2
  rw [Function.update_of_ne (by omega)]

/-! ## Writing -/

theorem write_apply (m : Nat → α) (a : Nat) (l : List α) (i : Nat) (h : i < l.length) :
    write m a l (a + i) = l[i] := by
  simp [write, h]

theorem write_of_lt (m : Nat → α) (a : Nat) (l : List α) (i : Nat) (h : i < a) :
    write m a l i = m i := by
  simp [write, Nat.not_le.2 h]

theorem write_of_ge (m : Nat → α) (a : Nat) (l : List α) (i : Nat) (h : a + l.length ≤ i) :
    write m a l i = m i := by
  unfold write
  rw [if_pos (by omega), List.getElem?_eq_none (by omega), Option.getD_none]

/-- A block write leaves every cell outside the block alone. -/
theorem write_of_outside (m : Nat → α) (a : Nat) (l : List α) (i : Nat)
    (h : i < a ∨ a + l.length ≤ i) : write m a l i = m i := by
  rcases h with h | h
  · exact write_of_lt m a l i h
  · exact write_of_ge m a l i h

@[simp] theorem write_nil (m : Nat → α) (a : Nat) : write m a [] = m := by
  funext i
  exact write_of_outside m a [] i (by simp; omega)

theorem write_cons (m : Nat → α) (a : Nat) (x : α) (l : List α) :
    write m a (x :: l) = write (Function.update m a x) (a + 1) l := by
  funext i
  rcases Nat.lt_trichotomy i a with h | rfl | h
  · rw [write_of_lt _ _ _ _ h, write_of_lt _ _ _ _ (by omega), Function.update_of_ne (by omega)]
  · have h0 := write_apply m i (x :: l) 0 (by simp)
    rw [Nat.add_zero] at h0
    rw [h0, write_of_lt _ _ _ _ (Nat.lt_succ_self i), Function.update_self, List.getElem_cons_zero]
  · obtain ⟨k, rfl⟩ : ∃ k, i = a + 1 + k := ⟨i - (a + 1), by omega⟩
    have e1 : a + 1 + k - a = k + 1 := by omega
    have e2 : a + 1 + k - (a + 1) = k := by omega
    simp only [write, if_pos (show a ≤ a + 1 + k by omega), if_pos (show a + 1 ≤ a + 1 + k by omega),
      e1, e2, List.getElem?_cons_succ, Function.update_of_ne (show a + 1 + k ≠ a by omega)]

theorem write_append (m : Nat → α) (a : Nat) (l l' : List α) :
    write m a (l ++ l') = write (write m a l) (a + l.length) l' := by
  induction l generalizing m a with
  | nil => simp
  | cons x l ih =>
    rw [List.cons_append, write_cons, write_cons, ih, List.length_cons]
    congr 1
    omega

theorem read_write (m : Nat → α) (a : Nat) (l : List α) : read (write m a l) a l.length = l := by
  apply List.ext_getElem (by simp)
  intro i h1 h2
  rw [getElem_read, write_apply _ _ _ _ h2]

theorem read_write_of_length {m : Nat → α} {a n : Nat} {l : List α} (h : l.length = n) :
    read (write m a l) a n = l := by
  rw [← h, read_write]

theorem read_write_of_outside (m : Nat → α) (a b n : Nat) (l : List α)
    (h : b + n ≤ a ∨ a + l.length ≤ b) : read (write m a l) b n = read m b n := by
  apply read_congr
  intro i h1 h2
  exact write_of_outside m a l i (by omega)

/-- The same write to two arrays that agree on a block. -/
theorem read_write_congr {m m' : Nat → α} {a n : Nat} (h : read m a n = read m' a n) (e : Nat)
    (l : List α) : read (write m e l) a n = read (write m' e l) a n := by
  refine (read_eq_iff _ _ _ _ _).2 fun i hi => ?_
  unfold write
  rw [(read_eq_iff _ _ _ _ _).1 h i hi]

/-- A part of a block copied is that part of the source. -/
theorem read_copy {dst src : Nat → α} {d s n i k : Nat} (h : i + k ≤ n) :
    read (copy dst d src s n) (d + i) k = read src (s + i) k := by
  rw [read_eq_iff]
  intro j hj
  unfold copy
  rw [Nat.add_assoc, write_apply _ _ _ _ (by rw [length_read]; omega), getElem_read, Nat.add_assoc]

/-- Writing back what is there changes nothing. -/
theorem write_read (m : Nat → α) (a n : Nat) : write m a (read m a n) = m := by
  funext i
  by_cases h : a ≤ i ∧ i < a + n
  · obtain ⟨k, rfl⟩ : ∃ k, i = a + k := ⟨i - a, by omega⟩
    rw [write_apply _ _ _ _ (by simp; omega), getElem_read]
  · exact write_of_outside m a _ i (by simp; omega)

/-- Of two arrays that agree one is written to: they still agree exactly if the
other holds what is written. -/
theorem agree_write_iff {m m' : Nat → α} {a n : Nat} {l : List α} (h : ∀ i, i < n → m' i = m i)
    (hl : a + l.length ≤ n) : (∀ i, i < n → m' i = write m a l i) ↔ read m' a l.length = l := by
  constructor
  · intro hagree
    have hread : read m' a l.length = read (write m a l) a l.length :=
      (read_eq_iff _ _ _ _ _).2 fun i hi => hagree _ (by omega)
    rw [hread, read_write]
  · intro hread i hi
    by_cases hout : i < a ∨ a + l.length ≤ i
    · rw [write_of_outside _ _ _ _ hout, h i hi]
    · obtain ⟨k, rfl⟩ := Nat.exists_eq_add_of_le (Nat.not_lt.1 fun h => hout (.inl h))
      rw [← write_read m' a l.length, hread, write_apply _ _ _ _ (by omega),
        write_apply _ _ _ _ (by omega)]

/-! ## Filling -/

theorem fill_apply (m : Nat → α) (a : Nat) (v : α) (n i : Nat) (h : a ≤ i ∧ i < a + n) :
    fill m a v n i = v := if_pos h

theorem fill_of_outside (m : Nat → α) (a : Nat) (v : α) (n i : Nat) (h : i < a ∨ a + n ≤ i) :
    fill m a v n i = m i := if_neg (by omega)

@[simp] theorem fill_zero (m : Nat → α) (a : Nat) (v : α) : fill m a v 0 = m := by
  funext i
  exact fill_of_outside m a v 0 i (by omega)

theorem fill_eq_write (m : Nat → α) (a : Nat) (v : α) (n : Nat) :
    fill m a v n = write m a (List.replicate n v) := by
  funext i
  by_cases h : a ≤ i ∧ i < a + n
  · obtain ⟨k, rfl⟩ : ∃ k, i = a + k := ⟨i - a, by omega⟩
    rw [fill_apply _ _ _ _ _ h, write_apply _ _ _ _ (by simp; omega), List.getElem_replicate]
  · rw [fill_of_outside _ _ _ _ _ (by omega), write_of_outside _ _ _ _ (by simp; omega)]

theorem fill_succ (m : Nat → α) (a : Nat) (v : α) (n : Nat) :
    fill m a v (n + 1) = fill (Function.update m a v) (a + 1) v n := by
  rw [fill_eq_write, fill_eq_write, List.replicate_succ, write_cons]

/-- Filling a block that was written from a constant block restores it. -/
theorem fill_write (m : Nat → α) (a : Nat) (v : α) (l : List α)
    (h : ∀ i, i < l.length → m (a + i) = v) : fill (write m a l) a v l.length = m := by
  funext i
  by_cases hi : a ≤ i ∧ i < a + l.length
  · rw [fill_apply _ _ _ _ _ hi]
    obtain ⟨k, rfl⟩ : ∃ k, i = a + k := ⟨i - a, by omega⟩
    exact (h k (by omega)).symm
  · rw [fill_of_outside _ _ _ _ _ (by omega), write_of_outside _ _ _ _ (by omega)]

/-! ## Lists in an array -/

/-- The list lies at index `a`. -/
def Holds (m : Nat → α) (a : Nat) (l : List α) : Prop := read m a l.length = l

theorem holds_cons {m : Nat → α} {a : Nat} {x : α} {l : List α} :
    Holds m a (x :: l) ↔ m a = x ∧ Holds m (a + 1) l := by
  unfold Holds
  rw [List.length_cons, read_succ, List.cons.injEq]

theorem holds_append {m : Nat → α} {a : Nat} {l l' : List α} :
    Holds m a (l ++ l') ↔ Holds m a l ∧ Holds m (a + l.length) l' := by
  unfold Holds
  rw [List.length_append, read_add]
  constructor
  · intro h
    exact List.append_inj h (length_read _ _ _)
  · rintro ⟨h, h'⟩
    rw [h, h']

/-- What is written behind a list continues it. -/
theorem Holds.write_behind {m : Nat → α} {a : Nat} {l : List α} (h : Holds m a l) (l' : List α) :
    Holds (write m (a + l.length) l') a (l ++ l') := by
  refine holds_append.2 ⟨?_, read_write _ _ _⟩
  unfold Holds
  rw [read_write_of_outside _ _ _ _ _ (by omega)]
  exact h

theorem Holds.getElem? {m : Nat → α} {a : Nat} {l : List α} (h : Holds m a l) {i : Nat}
    (hi : i < l.length) : l[i]? = some (m (a + i)) := by
  have hread := getElem?_read m a l.length i hi
  rwa [show read m a l.length = l from h] at hread

theorem Holds.mem {m : Nat → α} {a : Nat} {l : List α} (h : Holds m a l) {i : Nat}
    (hi : i < l.length) : m (a + i) ∈ l :=
  List.mem_of_getElem? (h.getElem? hi)

theorem Holds.update {m : Nat → α} {a : Nat} {l : List α} (h : Holds m a l) {i : Nat} {v : α}
    (hi : i < a ∨ a + l.length ≤ i) : Holds (Function.update m i v) a l := by
  unfold Holds
  rw [read_update_of_outside hi]
  exact h

/-! ## Writes at one place -/

/-- What the `p`-th cell behind one place holds after these writes there: what the
last of them that reaches it has put, or else `z`. -/
def overlay (z : α) (ws : List (List α)) (p : Nat) : α := ws.foldl (fun v w => (w[p]?).getD v) z

theorem overlay_concat (z : α) (ws : List (List α)) (w : List α) (p : Nat) :
    overlay z (ws ++ [w]) p = (w[p]?).getD (overlay z ws p) := by
  simp [overlay, List.foldl_append]

theorem overlay_cons (z : α) (w : List α) (ws : List (List α)) (p : Nat) :
    overlay z (w :: ws) p = overlay ((w[p]?).getD z) ws p := rfl

/-- No write reaches the cell. -/
theorem overlay_of_short {z : α} {ws : List (List α)} {p : Nat} (h : ∀ w ∈ ws, w.length ≤ p) :
    overlay z ws p = z := by
  induction ws with
  | nil => rfl
  | cons w ws ih =>
    obtain ⟨hw, hws⟩ := List.forall_mem_cons.1 h
    rw [overlay_cons, List.getElem?_eq_none hw, Option.getD_none, ih hws]

/-- One of the writes reaches the cell. -/
theorem overlay_mem (z : α) {ws : List (List α)} {p : Nat} (h : ∃ w ∈ ws, p < w.length) :
    ∃ w ∈ ws, overlay z ws p ∈ w := by
  induction ws using List.reverseRecOn with
  | nil =>
    obtain ⟨w, hw, -⟩ := h
    cases hw
  | append_singleton ws w ih =>
    rw [overlay_concat]
    by_cases hp : p < w.length
    · refine ⟨w, by simp, ?_⟩
      rw [List.getElem?_eq_getElem hp, Option.getD_some]
      exact List.getElem_mem hp
    · rw [List.getElem?_eq_none (Nat.not_lt.1 hp), Option.getD_none]
      obtain ⟨u, hu, hlong⟩ := h
      rcases List.mem_append.1 hu with hu | hu
      · obtain ⟨v, hv, hmem⟩ := ih ⟨u, hu, hlong⟩
        exact ⟨v, List.mem_append_left _ hv, hmem⟩
      · rw [List.mem_singleton.1 hu] at hlong
        exact absurd hlong hp

end Cells
