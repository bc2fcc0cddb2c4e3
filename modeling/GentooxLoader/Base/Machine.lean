import Mathlib.Data.List.Induction
import Mathlib.Logic.Relation

/-!
# Machines: runs, invariants and simulations

A machine has initial states and a partial step function: `next s a = none`
when the action `a` cannot happen in `s`.  Whatever a program does not decide
(an input, a failing read, the order of two connections) is part of the action,
so that a run is a list of actions.

* `Machine.invariant`: what holds at the start and is kept by every step holds
  in every reachable state.
* `Machine.guard`: the same machine with only the steps that meet a condition.
* `Machine.along_iff_along`: two conditions on the steps of a run that agree.
* `Machine.run_iff_along`: a run keeps what its steps keep exactly under a
  condition when all of them meet it (`throughout_iff_along`: so do its states).
* `Machine.Simulation`: every reachable concrete state is related to a
  reachable abstract one (`Simulation.reachable`).

For steps that are given as a relation, `Steps.Always` says that every step of
every run from a state has a property, and `Steps.always_iff` takes it over the
one step that a deterministic relation has there.

A function that runs on fuel has a result with enough of it (`Fuel.Ends`).
-/

structure Machine (σ α : Type) where
  init : σ → Prop
  next : σ → α → Option σ

namespace Machine

variable {σ α τ β : Type}

/-- The state after a list of actions. -/
def run (M : Machine σ α) (s : σ) (as : List α) : Option σ := as.foldlM M.next s

/-- The states some run from an initial state ends in. -/
def Reachable (M : Machine σ α) (s : σ) : Prop := ∃ s₀ as, M.init s₀ ∧ M.run s₀ as = some s

@[simp] theorem run_nil (M : Machine σ α) (s : σ) : M.run s [] = some s := rfl

theorem run_cons (M : Machine σ α) (s : σ) (a : α) (as : List α) :
    M.run s (a :: as) = (M.next s a).bind fun t => M.run t as := rfl

theorem run_append (M : Machine σ α) (s : σ) (as bs : List α) :
    M.run s (as ++ bs) = (M.run s as).bind fun t => M.run t bs := by
  simp [run, List.foldlM_append, Option.bind_eq_bind]

theorem Reachable.of_init {M : Machine σ α} {s : σ} (h : M.init s) : M.Reachable s :=
  ⟨s, [], h, rfl⟩

theorem Reachable.step {M : Machine σ α} {s t : σ} {a : α} (h : M.Reachable s)
    (ht : M.next s a = some t) : M.Reachable t := by
  obtain ⟨s₀, as, h0, hr⟩ := h
  refine ⟨s₀, as ++ [a], h0, ?_⟩
  rw [run_append, hr, Option.bind_some, run_cons, ht]
  rfl

theorem Reachable.run {M : Machine σ α} {s t : σ} {as : List α} (h : M.Reachable s)
    (ht : M.run s as = some t) : M.Reachable t := by
  obtain ⟨s₀, bs, h0, hr⟩ := h
  refine ⟨s₀, bs ++ as, h0, ?_⟩
  rw [run_append, hr, Option.bind_some, ht]

/-- Induction on a run, last step last. -/
theorem Reachable.induction {M : Machine σ α} {I : σ → Prop} (hinit : ∀ s, M.init s → I s)
    (hstep : ∀ s a t, M.Reachable s → I s → M.next s a = some t → I t) {s : σ}
    (h : M.Reachable s) : I s := by
  obtain ⟨s₀, as, h0, hr⟩ := h
  induction as using List.reverseRecOn generalizing s with
  | nil =>
    obtain rfl : s₀ = s := Option.some.inj hr
    exact hinit _ h0
  | append_singleton as a ih =>
    rw [run_append] at hr
    obtain ⟨t, ht, hta⟩ := Option.bind_eq_some_iff.1 hr
    rw [run_cons] at hta
    obtain ⟨u, hu, hus⟩ := Option.bind_eq_some_iff.1 hta
    obtain rfl : u = s := Option.some.inj hus
    exact hstep t a u ⟨s₀, as, h0, ht⟩ (ih ht) hu

/-- What holds at the start and is kept by every step is an invariant. -/
theorem invariant {M : Machine σ α} {I : σ → Prop} (hinit : ∀ s, M.init s → I s)
    (hstep : ∀ s a t, I s → M.next s a = some t → I t) : ∀ s, M.Reachable s → I s :=
  fun _ h => h.induction hinit fun s a t _ hs ht => hstep s a t hs ht

/-! ## Guarded runs -/

/-- Only the steps that meet `G`. -/
def guard (M : Machine σ α) (G : σ → α → Prop) [∀ s a, Decidable (G s a)] : Machine σ α where
  init := M.init
  next s a := if G s a then M.next s a else none

theorem guard_next {M : Machine σ α} {G : σ → α → Prop} [∀ s a, Decidable (G s a)] {s t : σ} {a : α} :
    (M.guard G).next s a = some t ↔ G s a ∧ M.next s a = some t := by
  unfold guard
  by_cases h : G s a <;> simp [h]

theorem Reachable.of_guard {M : Machine σ α} {G : σ → α → Prop} [∀ s a, Decidable (G s a)] {s : σ}
    (h : (M.guard G).Reachable s) : M.Reachable s :=
  h.induction (fun _ h0 => .of_init h0) fun _ _ _ _ hs ht => hs.step (guard_next.1 ht).2

/-- Every step of the run from `s` meets `G`, as far as the run goes. -/
def Along (M : Machine σ α) (G : σ → α → Prop) : σ → List α → Prop
  | _, [] => True
  | s, a :: as => G s a ∧ ∀ t, M.next s a = some t → M.Along G t as

instance decidableAlong {M : Machine σ α} {G : σ → α → Prop} [∀ s a, Decidable (G s a)] :
    ∀ (s : σ) (as : List α), Decidable (M.Along G s as)
  | _, [] => isTrue trivial
  | s, a :: as =>
    match h : M.next s a with
    | none => decidable_of_iff (G s a) (by simp [Along, h])
    | some t =>
      have := decidableAlong (M := M) (G := G) t as
      decidable_of_iff (G s a ∧ M.Along G t as) (by simp [Along, h])

theorem along_congr {M : Machine σ α} {G G' : σ → α → Prop} (h : ∀ s a, G s a ↔ G' s a) {s : σ}
    {as : List α} : M.Along G s as ↔ M.Along G' s as := by
  induction as generalizing s with
  | nil => exact Iff.rfl
  | cons a as ih => exact and_congr (h s a) (forall_congr' fun _ => imp_congr Iff.rfl ih)

/-- What follows from an invariant holds of every step. -/
theorem along_of_invariant {M : Machine σ α} {G : σ → α → Prop} {I : σ → Prop}
    (hI : ∀ s a t, I s → M.next s a = some t → I t) (hG : ∀ s a, I s → G s a) {as : List α} :
    ∀ {s : σ}, I s → M.Along G s as := by
  induction as with
  | nil => exact fun _ => trivial
  | cons a as ih => exact fun hs => ⟨hG _ a hs, fun t ht => ih (hI _ a t hs ht)⟩

theorem Along.of_append {M : Machine σ α} {G : σ → α → Prop} {s t : σ} {as bs : List α}
    (h : M.Along G s (as ++ bs)) (hrun : M.run s as = some t) : M.Along G t bs := by
  induction as generalizing s with
  | nil =>
    obtain rfl : s = t := Option.some.inj hrun
    exact h
  | cons a as ih =>
    rw [run_cons] at hrun
    obtain ⟨u, hu, hrun⟩ := Option.bind_eq_some_iff.1 hrun
    exact ih (h.2 u hu) hrun

/-- Two conditions on the steps of a run that agree as long as they have been met. -/
theorem along_iff_along {M : Machine σ α} {G G' : σ → α → Prop} {I : σ → Prop}
    (hstep : ∀ s a t, I s → M.next s a = some t → (G s a ↔ G' s a) ∧ (G s a → I t)) :
    ∀ {as : List α} {s t : σ}, I s → M.run s as = some t → (M.Along G s as ↔ M.Along G' s as) := by
  intro as
  induction as with
  | nil => exact fun _ _ => Iff.rfl
  | cons a as ih =>
    intro s t hs hrun
    rw [run_cons] at hrun
    obtain ⟨u, hu, hrun⟩ := Option.bind_eq_some_iff.1 hrun
    obtain ⟨hiff, hkeep⟩ := hstep s a u hs hu
    have honly : ∀ v, M.next s a = some v → u = v := fun v hv => Option.some.inj (hu.symm.trans hv)
    constructor
    · rintro ⟨hG, h⟩
      refine ⟨hiff.1 hG, fun v hv => ?_⟩
      obtain rfl := honly v hv
      exact (ih (hkeep hG) hrun).1 (h u hu)
    · rintro ⟨hG, h⟩
      refine ⟨hiff.2 hG, fun v hv => ?_⟩
      obtain rfl := honly v hv
      exact (ih (hkeep (hiff.2 hG)) hrun).2 (h u hu)

/-- If a step keeps `P` exactly when it meets `G`, then so does a run.  The
invariant `I` is there for the step. -/
theorem run_iff_along {M : Machine σ α} {G : σ → α → Prop} {I P : σ → Prop}
    (hI : ∀ s a t, I s → M.next s a = some t → I t)
    (hP : ∀ s a t, I s → M.next s a = some t → (P t ↔ P s ∧ G s a)) :
    ∀ {as : List α} {s t : σ}, I s → M.run s as = some t → (P t ↔ P s ∧ M.Along G s as) := by
  intro as
  induction as with
  | nil =>
    intro s t _ hrun
    obtain rfl : s = t := Option.some.inj hrun
    simp [Along]
  | cons a as ih =>
    intro s t hs hrun
    rw [run_cons] at hrun
    obtain ⟨u, hu, hrun⟩ := Option.bind_eq_some_iff.1 hrun
    rw [ih (hI s a u hs hu) hrun, hP s a u hs hu, and_assoc]
    refine and_congr_right fun _ => and_congr_right fun _ => ⟨fun h v hv => ?_, fun h => h u hu⟩
    obtain rfl : u = v := Option.some.inj (hu.symm.trans hv)
    exact h

/-- Every state of the run from `s` meets `P`, as far as the run goes. -/
def Throughout (M : Machine σ α) (P : σ → Prop) : σ → List α → Prop
  | s, [] => P s
  | s, a :: as => P s ∧ ∀ t, M.next s a = some t → M.Throughout P t as

/-- Where `P` may be lost and come back: a run never loses it exactly when each
of its steps meets the condition under which `P` is kept. -/
theorem throughout_iff_along {M : Machine σ α} {G : σ → α → Prop} {P : σ → Prop}
    (hP : ∀ s a t, P s → M.next s a = some t → (P t ↔ G s a)) :
    ∀ {as : List α} {s t : σ}, P s → M.run s as = some t → (M.Throughout P s as ↔ M.Along G s as) := by
  intro as
  induction as with
  | nil =>
    intro s t hs _
    exact iff_of_true hs trivial
  | cons a as ih =>
    intro s t hs hrun
    rw [run_cons] at hrun
    obtain ⟨u, hu, hrun⟩ := Option.bind_eq_some_iff.1 hrun
    have honly : ∀ v, M.next s a = some v → u = v := fun v hv => Option.some.inj (hu.symm.trans hv)
    constructor
    · rintro ⟨-, h⟩
      have hthroughout : M.Throughout P u as := h u hu
      have hPu : P u := by
        cases as with
        | nil => exact hthroughout
        | cons => exact hthroughout.1
      refine ⟨(hP s a u hs hu).1 hPu, fun v hv => ?_⟩
      obtain rfl := honly v hv
      exact (ih hPu hrun).1 hthroughout
    · rintro ⟨hG, h⟩
      have hPu : P u := (hP s a u hs hu).2 hG
      refine ⟨hs, fun v hv => ?_⟩
      obtain rfl := honly v hv
      exact (ih hPu hrun).2 (h u hu)

/-! ## Simulation -/

/-- `R` relates the states of a concrete and an abstract machine so that each
concrete step is matched by zero or one abstract step.  The abstract state may
be taken as reachable, so that its invariants are there for the step. -/
structure Simulation (M : Machine σ α) (A : Machine τ β) (R : σ → τ → Prop) : Prop where
  init : ∀ s, M.init s → ∃ a, A.init a ∧ R s a
  step : ∀ s x s' a, A.Reachable a → R s a → M.next s x = some s' →
    R s' a ∨ ∃ y a', A.next a y = some a' ∧ R s' a'

theorem Simulation.reachable {M : Machine σ α} {A : Machine τ β} {R : σ → τ → Prop}
    (h : Simulation M A R) {s : σ} (hs : M.Reachable s) : ∃ a, A.Reachable a ∧ R s a := by
  refine hs.induction (I := fun s => ∃ a, A.Reachable a ∧ R s a) ?_ ?_
  · intro s h0
    obtain ⟨a, ha, hR⟩ := h.init s h0
    exact ⟨a, .of_init ha, hR⟩
  · rintro s x s' - ⟨a, ha, hR⟩ hn
    rcases h.step s x s' a ha hR hn with hR' | ⟨y, a', hy, hR'⟩
    · exact ⟨a, ha, hR'⟩
    · exact ⟨a', ha.step hy, hR'⟩

end Machine

namespace Steps

variable {σ α : Type} {step : σ → α → σ → Prop} {G : σ → α → σ → Prop} {s t : σ} {a : α}

/-- Every step of every run from `s` has the property. -/
def Always (step G : σ → α → σ → Prop) (s : σ) : Prop :=
  ∀ t a u, Relation.ReflTransGen (fun t u => ∃ a, step t a u) s t → step t a u → G t a u

theorem always_of_stuck (h : ∀ a t, ¬ step s a t) : Always step G s := by
  intro t a u hst ht
  rcases Relation.ReflTransGen.cases_head hst with rfl | ⟨v, ⟨b, hb⟩, -⟩
  · exact absurd ht (h a u)
  · exact absurd hb (h b v)

/-- From a state with one step, the property is that of the step and of what follows. -/
theorem always_iff (h : step s a t) (hdet : ∀ b u, step s b u → a = b ∧ t = u) :
    Always step G s ↔ G s a t ∧ Always step G t := by
  constructor
  · intro hs
    refine ⟨hs s a t .refl h, fun u b v hu hv => hs u b v (.head ⟨a, h⟩ hu) hv⟩
  · rintro ⟨hG, ht⟩ u b v hu hv
    rcases Relation.ReflTransGen.cases_head hu with rfl | ⟨w, ⟨c, hc⟩, hw⟩
    · obtain ⟨rfl, rfl⟩ := hdet b v hv
      exact hG
    · obtain ⟨-, rfl⟩ := hdet c w hc
      exact ht u b v hw hv

end Steps

namespace Fuel

variable {α : Type} {f g : Nat → α} {r r' : α}

/-- The result with any fuel from some amount on. -/
def Ends (f : Nat → α) (r : α) : Prop := ∃ n, ∀ fuel, n ≤ fuel → f fuel = r

theorem Ends.now (h : ∀ fuel, f (fuel + 1) = r) : Ends f r := by
  refine ⟨1, fun fuel hfuel => ?_⟩
  obtain ⟨k, rfl⟩ := Nat.exists_eq_add_of_le' hfuel
  exact h k

/-- One turn more. -/
theorem Ends.succ (hg : Ends g r) (h : ∀ fuel, f (fuel + 1) = g fuel) : Ends f r := by
  obtain ⟨n, hn⟩ := hg
  refine ⟨n + 1, fun fuel hfuel => ?_⟩
  obtain ⟨k, rfl⟩ := Nat.exists_eq_add_of_le' (Nat.le_of_add_left_le hfuel)
  rw [h]
  exact hn k (Nat.le_of_succ_le_succ hfuel)

theorem Ends.unique (h : Ends f r) (h' : Ends f r') : r = r' := by
  obtain ⟨n, hn⟩ := h
  obtain ⟨n', hn'⟩ := h'
  rw [← hn (max n n') (Nat.le_max_left _ _), hn' (max n n') (Nat.le_max_right _ _)]

end Fuel
