/-!
# Outcomes: what holds if a computation comes back

A computation may end with an error.  `Ensures` is partial correctness: a rule
for each way to put computations together.

    Ensures.bind    one after the other
    Ensures.ite     a choice
    Ensures.of_ok   what a computation that came back ensures
-/

namespace Outcomes

variable {ε α β : Type} {Q : α → Prop}

/-- If it comes back, then with a value that has the property. -/
inductive Ensures (Q : α → Prop) : Except ε α → Prop
  | ok {a : α} (h : Q a) : Ensures Q (.ok a)
  | error {e : ε} : Ensures Q (.error e)

theorem Ensures.of_ok {a : α} (h : Ensures Q (.ok a : Except ε α)) : Q a := by
  cases h with
  | ok h => exact h

theorem Ensures.mono {P : α → Prop} {x : Except ε α} (h : Ensures P x) (hPQ : ∀ a, P a → Q a) :
    Ensures Q x := by
  cases h with
  | ok h => exact .ok (hPQ _ h)
  | error => exact .error

theorem Ensures.bind {R : β → Prop} {x : Except ε α} {f : α → Except ε β} (h : Ensures Q x)
    (hf : ∀ a, Q a → Ensures R (f a)) : Ensures R (x >>= f) := by
  cases h with
  | ok h => exact hf _ h
  | error => exact .error

theorem Ensures.ite {c : Prop} [Decidable c] {x y : Except ε α} (hx : c → Ensures Q x)
    (hy : ¬ c → Ensures Q y) : Ensures Q (if c then x else y) := by
  by_cases h : c
  · rw [if_pos h]
    exact hx h
  · rw [if_neg h]
    exact hy h

end Outcomes
