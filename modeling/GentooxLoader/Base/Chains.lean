import Mathlib.Data.List.Nodup
import Mathlib.Data.List.GetD
import Mathlib.Logic.Function.Basic

/-!
# Chains: lists linked both ways, and windows on them

A chain is a list of nodes whose links lead from each one to the next and back,
to nothing at both ends.  `IsChain.snoc` is the append at the end that every
program with such lists has; `lastOf` is the walk that looks for the end.

A window shows `v` nodes from `first` on, and moves with a selection that goes
back and forth.

    IsChain.snoc, append         one node more at the end
    lastOf_chain                 the walk to the end, with enough fuel
    ahead_chain                  the walk of k steps that stops at the end
    mem_front                    a node is among k shown exactly when its place is
    Inside.mem_front             a selection in the window is shown
    Inside.back_first, _inner    going back keeps it there
    Inside.forth_last, _inner    going forth does
-/

namespace Chains

variable {α : Type*}

/-- The links of the nodes. -/
structure Links (α : Type*) where
  next : α → Option α
  prev : α → Option α

/-- The nodes of `l` in their order, linked both ways. -/
structure IsChain (L : Links α) (l : List α) : Prop where
  nodup : l.Nodup
  next : ∀ i x, l[i]? = some x → L.next x = l[i + 1]?
  prev : ∀ i x, l[i + 1]? = some x → L.prev x = l[i]?
  front : ∀ x, l[0]? = some x → L.prev x = none

/-! ## The end of a chain -/

/-- Walking on until there is no next node; the last one met. -/
def lastOf (next : α → Option α) : Nat → Option α → Option α → Option (Option α)
  | _, none, current => some current
  | 0, some _, _ => none
  | fuel + 1, some x, _ => lastOf next fuel (next x) (some x)

theorem lastOf_drop {L : Links α} {l : List α} (h : IsChain L l) {fuel i : Nat}
    (hfuel : l.length ≤ fuel + i) (hi : i < l.length) (current : Option α) :
    lastOf L.next fuel l[i]? current = some l.getLast? := by
  induction fuel generalizing i current with
  | zero => omega
  | succ fuel ih =>
    rw [List.getElem?_eq_getElem hi, lastOf, h.next i _ (List.getElem?_eq_getElem hi)]
    by_cases hlast : i + 1 < l.length
    · exact ih (by omega) hlast _
    · rw [List.getElem?_eq_none (by omega), lastOf, List.getLast?_eq_getElem?,
        show l.length - 1 = i by omega, List.getElem?_eq_getElem hi]

theorem lastOf_chain {L : Links α} {l : List α} (h : IsChain L l) {fuel : Nat}
    (hfuel : l.length ≤ fuel) : lastOf L.next fuel l.head? none = some l.getLast? := by
  cases l with
  | nil => cases fuel <;> rfl
  | cons x l =>
    rw [List.head?_eq_getElem?]
    exact lastOf_drop h hfuel (by rw [List.length_cons]; omega) none

theorem isChain_nil (L : Links α) : IsChain L [] where
  nodup := List.nodup_nil
  next _ _ h := by cases h
  prev _ _ h := by cases h
  front _ h := by cases h

/-- A node is linked in behind the last one. -/
theorem IsChain.snoc {L L' : Links α} {l : List α} {y : α} (h : IsChain L l) (hy : y ∉ l)
    (hnext : ∀ x ∈ l, l.getLast? ≠ some x → L'.next x = L.next x)
    (hlast : ∀ x, l.getLast? = some x → L'.next x = some y)
    (hprev : ∀ x ∈ l, L'.prev x = L.prev x) (hynext : L'.next y = none)
    (hyprev : L'.prev y = l.getLast?) : IsChain L' (l ++ [y]) where
  nodup := List.nodup_append.2 ⟨h.nodup, List.nodup_singleton y, fun a ha b hb => by
    rw [List.mem_singleton] at hb
    rintro rfl
    exact hy (hb ▸ ha)⟩
  next i x hx := by
    -- inside the old list, at its end, or the new node
    rcases Nat.lt_trichotomy (i + 1) l.length with hi | hi | hi
    · have hil : i < l.length := by omega
      rw [List.getElem?_append_left hil] at hx
      rw [List.getElem?_append_left hi, hnext x (List.mem_of_getElem? hx), h.next i x hx]
      intro hend
      rw [List.getLast?_eq_getElem?, ← hx] at hend
      have := (List.getElem?_inj (by omega) h.nodup).1 hend
      omega
    · have hil : i < l.length := by omega
      rw [List.getElem?_append_left hil] at hx
      rw [List.getElem?_append_right (by omega), hi, Nat.sub_self, hlast x]
      · rfl
      · rw [List.getLast?_eq_getElem?, show l.length - 1 = i by omega, hx]
    · rw [List.getElem?_append_right (by omega)] at hx
      obtain ⟨hlt, rfl⟩ := List.getElem?_eq_some_iff.1 hx
      rw [List.length_singleton] at hlt
      rw [List.getElem?_eq_none (by rw [List.length_append, List.length_singleton]; omega)]
      simpa using hynext
  prev i x hx := by
    by_cases hi : i + 1 < l.length
    · rw [List.getElem?_append_left hi] at hx
      rw [List.getElem?_append_left (by omega), hprev x (List.mem_of_getElem? hx), h.prev i x hx]
    · rw [List.getElem?_append_right (by omega)] at hx
      obtain ⟨hlt, hxy⟩ := List.getElem?_eq_some_iff.1 hx
      rw [List.length_singleton] at hlt
      have hxy : y = x := by simpa using hxy
      rw [← hxy, hyprev, List.getLast?_eq_getElem?, show l.length - 1 = i by omega,
        List.getElem?_append_left (by omega)]
  front x hx := by
    by_cases hl : 0 < l.length
    · rw [List.getElem?_append_left hl] at hx
      rw [hprev x (List.mem_of_getElem? hx), h.front x hx]
    · obtain rfl : l = [] := List.length_eq_zero_iff.1 (by omega)
      have hxy : y = x := Option.some.inj hx
      rw [← hxy, hyprev]
      rfl

/-- The links after `x` has been put behind `last`. -/
def Links.append [DecidableEq α] (L : Links α) (last : Option α) (x : α) : Links α where
  next := Function.update (match last with
    | none => L.next
    | some c => Function.update L.next c (some x)) x none
  prev := Function.update L.prev x last

theorem IsChain.append [DecidableEq α] {L : Links α} {l : List α} {y : α} (h : IsChain L l)
    (hy : y ∉ l) : IsChain (L.append l.getLast? y) (l ++ [y]) := by
  have hne : ∀ x ∈ l, x ≠ y := fun x hx he => hy (he ▸ hx)
  refine h.snoc hy (fun x hx hend => ?_) (fun x hend => ?_) (fun x hx => ?_)
    (Function.update_self ..) (Function.update_self ..)
  · simp only [Links.append]
    rw [Function.update_of_ne (hne x hx)]
    cases hl : l.getLast? with
    | none => rfl
    | some c =>
      have hxc : x ≠ c := by
        rintro rfl
        exact hend hl
      exact Function.update_of_ne hxc ..
  · simp only [Links.append]
    rw [Function.update_of_ne (hne x (List.mem_of_getLast? hend)), hend]
    exact Function.update_self ..
  · exact Function.update_of_ne (hne x hx) ..

/-! ## Walking along -/

/-- `k` steps along the links, stopping at the end. -/
def ahead (next : α → Option α) : Nat → α → α
  | 0, x => x
  | k + 1, x =>
    match next x with
    | none => x
    | some y => ahead next k y

/-- The first `k` nodes from a link on. -/
def front (next : α → Option α) : Nat → Option α → List α
  | 0, _ => []
  | _ + 1, none => []
  | k + 1, some x => x :: front next k (next x)

section
variable {L : Links α} {l : List α} (h : IsChain L l)
include h

theorem ahead_chain {i : Nat} {x : α} (k : Nat) (hx : l[i]? = some x) :
    l[min (i + k) (l.length - 1)]? = some (ahead L.next k x) := by
  have hi : i < l.length := (List.getElem?_eq_some_iff.1 hx).1
  induction k generalizing i x with
  | zero =>
    rw [Nat.add_zero, Nat.min_eq_left (by omega), hx]
    rfl
  | succ k ih =>
    rw [ahead, h.next i x hx]
    by_cases hlast : i + 1 < l.length
    · rw [List.getElem?_eq_getElem hlast]
      have hk := ih (List.getElem?_eq_getElem hlast) hlast
      rwa [show i + 1 + k = i + (k + 1) by omega] at hk
    · rw [List.getElem?_eq_none (i := i + 1) (by omega), Nat.min_eq_right (by omega),
        show l.length - 1 = i by omega, hx]

theorem front_chain (k i : Nat) : front L.next k l[i]? = (l.drop i).take k := by
  induction k generalizing i with
  | zero => rw [front, List.take_zero]
  | succ k ih =>
    by_cases hi : i < l.length
    · rw [List.getElem?_eq_getElem hi, front, h.next i _ (List.getElem?_eq_getElem hi), ih (i + 1),
        List.drop_eq_getElem_cons hi, List.take_succ_cons]
    · rw [List.getElem?_eq_none (by omega), front, List.drop_of_length_le (by omega), List.take_nil]

/-- A node is among the `k` shown exactly when its place is. -/
theorem mem_front {k i j : Nat} {x : α} (hx : l[j]? = some x) :
    x ∈ front L.next k l[i]? ↔ i ≤ j ∧ j < i + k := by
  rw [front_chain h, List.mem_iff_getElem?]
  constructor
  · rintro ⟨m, hm⟩
    by_cases hmk : m < k
    · rw [List.getElem?_take_of_lt hmk, List.getElem?_drop, ← hx] at hm
      have hlt : i + m < l.length := by
        by_contra hge
        rw [List.getElem?_eq_none (by omega), hx] at hm
        cases hm
      have := (List.getElem?_inj hlt h.nodup).1 hm
      omega
    · rw [List.getElem?_take, if_neg hmk] at hm
      cases hm
  · rintro ⟨hij, hjk⟩
    refine ⟨j - i, ?_⟩
    rw [List.getElem?_take_of_lt (by omega), List.getElem?_drop, show i + (j - i) = j by omega, hx]

end

/-! ## Windows -/

/-- The node shown first and the node selected. -/
structure Window (α : Type*) where
  first : α
  selected : α

/-- The selection is one of the `v` nodes from the first one shown on. -/
def Inside (l : List α) (v : Nat) (w : Window α) : Prop :=
  ∃ f s, l[f]? = some w.first ∧ l[s]? = some w.selected ∧ f ≤ s ∧ s < f + v

section
variable {L : Links α} {l : List α} (h : IsChain L l) {v : Nat} {w : Window α}
include h

theorem Inside.mem_front (hw : Inside l v w) : w.selected ∈ front L.next v (some w.first) := by
  obtain ⟨f, s, hf, hs, hfs, hsv⟩ := hw
  rw [← hf]
  exact (Chains.mem_front h hs).2 ⟨hfs, hsv⟩

/-- Back from the first node shown: it slides with the selection. -/
theorem Inside.back_first (hw : Inside l v w) {p : α} (hp : L.prev w.selected = some p) :
    Inside l v ⟨p, p⟩ := by
  obtain ⟨f, s, hf, hs, hfs, hsv⟩ := hw
  cases s with
  | zero =>
    rw [h.front _ hs] at hp
    cases hp
  | succ j =>
    rw [h.prev j _ hs] at hp
    exact ⟨j, j, hp, hp, Nat.le_refl _, by omega⟩

/-- Back from another node: the window stays. -/
theorem Inside.back_inner (hw : Inside l v w) (hne : w.first ≠ w.selected) {p : α}
    (hp : L.prev w.selected = some p) : Inside l v ⟨w.first, p⟩ := by
  obtain ⟨f, s, hf, hs, hfs, hsv⟩ := hw
  cases s with
  | zero =>
    rw [h.front _ hs] at hp
    cases hp
  | succ j =>
    rw [h.prev j _ hs] at hp
    have hfj : f ≠ j + 1 := by
      rintro rfl
      exact hne (Option.some.inj (hf.symm.trans hs))
    exact ⟨f, j, hf, hp, by omega, by omega⟩

/-- Forth from the last node shown: the window slides. -/
theorem Inside.forth_last (hw : Inside l v w) (hlast : w.selected = ahead L.next (v - 1) w.first)
    {n : α} (hn : L.next w.selected = some n) :
    ∃ g, L.next w.first = some g ∧ Inside l v ⟨g, n⟩ := by
  obtain ⟨f, s, hf, hs, hfs, hsv⟩ := hw
  rw [h.next s _ hs] at hn
  have hlt : s + 1 < l.length := (List.getElem?_eq_some_iff.1 hn).1
  have hend := ahead_chain h (v - 1) hf
  rw [← hlast, ← hs] at hend
  have hplace := (List.getElem?_inj (by omega) h.nodup).1 hend
  refine ⟨l[f + 1], ?_, f + 1, s + 1, List.getElem?_eq_getElem (by omega), hn, by omega, by omega⟩
  rw [h.next f _ hf, List.getElem?_eq_getElem]

/-- Forth from another node: the window stays. -/
theorem Inside.forth_inner (hw : Inside l v w) (hne : w.selected ≠ ahead L.next (v - 1) w.first)
    {n : α} (hn : L.next w.selected = some n) : Inside l v ⟨w.first, n⟩ := by
  obtain ⟨f, s, hf, hs, hfs, hsv⟩ := hw
  rw [h.next s _ hs] at hn
  have hlt : s + 1 < l.length := (List.getElem?_eq_some_iff.1 hn).1
  refine ⟨f, s + 1, hf, hn, by omega, ?_⟩
  by_contra hge
  apply hne
  have hend := ahead_chain h (v - 1) hf
  rw [show min (f + (v - 1)) (l.length - 1) = s by omega, hs] at hend
  exact Option.some.inj hend

end

end Chains
