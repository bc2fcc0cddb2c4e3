import GentooxLoader.Base.Machine

/-!
# Loops: turns, what they keep, and when they end

The body of a `while` loop is a function that either ends the loop with a
result or gives the variables for the next turn; it is partial, as what it
calls may not return.  `loop` runs it on fuel, `forEach` goes over a list.

    loop_rule         what every turn keeps holds where the loop ends
    ends_iff          the loop ends ↔ some turn it comes to ends it
    never_ends_of_comes  turns that always come back to something
    never_ends        so turns that always go on
    last_turn         the turn that ended the loop is its last
    count_turns_le    how many turns of a kind, by what they use up
    ends_of_measure   turns that end and use up something
    Retries           a loop that tries again where it is, a few times
    forEach_append    a list in two parts
    EndsAt.passes_iff a list with nothing to end the loop
-/

namespace Loops

inductive Turn (ν ρ : Type) where
  | done (r : ρ)
  | next (v : ν)

/-- A turn goes on with `I` or ends with `Q`. -/
def Turn.Keeps {ν ρ : Type} (I : ν → Prop) (Q : ρ → Prop) : Turn ν ρ → Prop
  | .done r => Q r
  | .next v => I v

/-- `turn` over and over, as long as it says `next`. -/
def loop {ν ρ : Type} (turn : ν → Option (Turn ν ρ)) : Nat → ν → Option ρ
  | 0, _ => none
  | fuel + 1, v =>
    match turn v with
    | none => none
    | some (.done r) => some r
    | some (.next w) => loop turn fuel w

/-- The loop comes from `v` to `w`. -/
def Comes {ν ρ : Type} (turn : ν → Option (Turn ν ρ)) : ν → ν → Prop :=
  Relation.ReflTransGen fun v w => turn v = some (.next w)

section
variable {ν ρ : Type} {turn : ν → Option (Turn ν ρ)} {v w : ν} {r : ρ}

theorem loop_done (h : turn v = some (.done r)) (fuel : Nat) : loop turn (fuel + 1) v = some r := by
  rw [loop, h]

theorem loop_next (h : turn v = some (.next w)) (fuel : Nat) :
    loop turn (fuel + 1) v = loop turn fuel w := by
  rw [loop, h]

/-! ## Invariants -/

/-- **The invariant rule.**  A turn from `I` goes on with `I` or ends the loop
with `Q`. -/
theorem loop_rule {I : ν → Prop} {Q : ρ → Prop}
    (hturn : ∀ v t, I v → turn v = some t → t.Keeps I Q) :
    ∀ {fuel : Nat} {v : ν} {r : ρ}, I v → loop turn fuel v = some r → Q r := by
  intro fuel
  induction fuel with
  | zero =>
    intro v r _ h
    cases h
  | succ fuel ih =>
    intro v r hv h
    unfold loop at h
    split at h
    · cases h
    · rename_i r' ht
      cases h
      exact hturn v _ hv ht
    · rename_i w ht
      exact ih (hturn v _ hv ht) h

/-! ## Ends -/

theorem Comes.loop (h : Comes turn v w) : ∃ n, ∀ fuel, loop turn (fuel + n) v = loop turn fuel w := by
  induction h using Relation.ReflTransGen.head_induction_on with
  | refl => exact ⟨0, fun _ => rfl⟩
  | head hstep _ ih =>
    obtain ⟨n, hn⟩ := ih
    refine ⟨n + 1, fun fuel => ?_⟩
    rw [← Nat.add_assoc, loop_next hstep, hn]

theorem Comes.ends (h : Comes turn v w) (hw : turn w = some (.done r)) :
    Fuel.Ends (fun fuel => Loops.loop turn fuel v) (some r) := by
  obtain ⟨n, hn⟩ := h.loop
  refine ⟨n + 1, fun fuel hfuel => ?_⟩
  obtain ⟨k, rfl⟩ := Nat.exists_eq_add_of_le' hfuel
  show Loops.loop turn (k + (n + 1)) v = _
  rw [Nat.add_comm n 1, ← Nat.add_assoc, hn, loop_done hw]

theorem ends_iff : (∃ fuel, loop turn fuel v = some r) ↔
    ∃ w, Comes turn v w ∧ turn w = some (.done r) := by
  constructor
  · rintro ⟨fuel, h⟩
    induction fuel generalizing v with
    | zero => cases h
    | succ fuel ih =>
      unfold loop at h
      split at h
      · cases h
      · rename_i r' ht
        cases h
        exact ⟨v, .refl, ht⟩
      · rename_i w ht
        obtain ⟨u, hu, hdone⟩ := ih h
        exact ⟨u, .head ht hu, hdone⟩
  · rintro ⟨w, hw, hdone⟩
    obtain ⟨n, hn⟩ := hw.ends hdone
    exact ⟨n, hn n (Nat.le_refl n)⟩

/-- One run that ends is enough. -/
theorem ends_of_loop {fuel : Nat} (h : loop turn fuel v = some r) :
    Fuel.Ends (fun fuel => loop turn fuel v) (some r) := by
  obtain ⟨w, hw, hdone⟩ := ends_iff.1 ⟨fuel, h⟩
  exact hw.ends hdone

/-- What a loop comes to ends with no more fuel. -/
theorem Comes.loop_le (h : Comes turn v w) {fuel : Nat} (hr : Loops.loop turn fuel v = some r) :
    ∃ fuel' ≤ fuel, Loops.loop turn fuel' w = some r := by
  induction h using Relation.ReflTransGen.head_induction_on generalizing fuel with
  | refl => exact ⟨fuel, Nat.le_refl _, hr⟩
  | head hstep _ ih =>
    cases fuel with
    | zero => cases hr
    | succ fuel =>
      rw [loop_next hstep] at hr
      obtain ⟨fuel', hle, hr'⟩ := ih hr
      exact ⟨fuel', Nat.le_succ_of_le hle, hr'⟩

/-- A loop that always comes on, through one turn or more, has no end. -/
theorem never_ends_of_comes {I : ν → Prop}
    (hcomes : ∀ v, I v → ∃ u w, turn v = some (.next u) ∧ Comes turn u w ∧ I w) (hv : I v)
    (fuel : Nat) : Loops.loop turn fuel v = none := by
  induction fuel using Nat.strongRecOn generalizing v with
  | ind fuel ih =>
    obtain ⟨u, w, hstep, hcome, hw⟩ := hcomes v hv
    cases fuel with
    | zero => rfl
    | succ fuel =>
      rw [loop_next hstep]
      cases hr : Loops.loop turn fuel u with
      | none => rfl
      | some r =>
        obtain ⟨fuel', hle, hr'⟩ := hcome.loop_le hr
        rw [ih fuel' (Nat.lt_succ_of_le hle) hw] at hr'
        cases hr'

theorem never_ends {I : ν → Prop} (hturn : ∀ v, I v → ∃ w, turn v = some (.next w) ∧ I w)
    (hv : I v) (fuel : Nat) : loop turn fuel v = none := by
  refine never_ends_of_comes (fun v hv => ?_) hv fuel
  obtain ⟨w, hw, hI⟩ := hturn v hv
  exact ⟨w, w, hw, .refl, hI⟩

/-- A loop that comes to a loop without an end has none. -/
theorem Comes.never_ends (h : Comes turn v w) (hw : ∀ fuel, Loops.loop turn fuel w = none)
    (fuel : Nat) : Loops.loop turn fuel v = none := by
  cases hr : Loops.loop turn fuel v with
  | none => rfl
  | some r =>
    obtain ⟨u, hu, hdone⟩ := ends_iff.1 ⟨fuel, hr⟩
    obtain ⟨m, hm⟩ := hu.ends hdone
    obtain ⟨n, hn⟩ := h.loop
    have hsome : Loops.loop turn (m + n) v = some r := hm (m + n) (Nat.le_add_right m n)
    rw [hn, hw] at hsome
    cases hsome

end

/-! ## The turns of a run -/

/-- The variables of each turn, the last one included. -/
def turns {ν ρ : Type} (turn : ν → Option (Turn ν ρ)) : Nat → ν → List ν
  | 0, _ => []
  | fuel + 1, v =>
    v :: match turn v with
      | some (.next w) => turns turn fuel w
      | _ => []

section
variable {ν ρ : Type} {turn : ν → Option (Turn ν ρ)} {v w : ν} {r : ρ}

theorem turns_next (h : turn v = some (.next w)) (fuel : Nat) :
    turns turn (fuel + 1) v = v :: turns turn fuel w := by
  rw [turns, h]

theorem turns_done (h : turn v = some (.done r)) (fuel : Nat) : turns turn (fuel + 1) v = [v] := by
  rw [turns, h]

/-- What holds of the variables at the start and is kept holds in the turn that
ended the loop. -/
theorem last_turn {I : ν → Prop} (hturn : ∀ v w, I v → turn v = some (.next w) → I w) :
    ∀ {fuel : Nat} {v : ν}, I v → loop turn fuel v = some r →
      ∃ w, (turns turn fuel v).getLast? = some w ∧ I w ∧ turn w = some (.done r) := by
  intro fuel
  induction fuel with
  | zero =>
    intro v _ h
    cases h
  | succ fuel ih =>
    intro v hv h
    cases ht : turn v with
    | none =>
      rw [loop, ht] at h
      cases h
    | some t =>
      cases t with
      | done r' =>
        rw [loop_done ht] at h
        cases h
        exact ⟨v, by rw [turns_done ht, List.getLast?_singleton], hv, ht⟩
      | next w =>
        rw [loop_next ht] at h
        obtain ⟨u, hu, hI, hdone⟩ := ih (hturn v w hv ht) h
        refine ⟨u, ?_, hI, hdone⟩
        rw [turns_next ht, List.getLast?_cons, hu, Option.getD_some]

/-- **Counting turns.**  `b` is what is left for turns of the kind `p`. -/
theorem count_turns_le {I : ν → Prop} {p : ν → Bool} {b : ν → Nat}
    (hpos : ∀ v, I v → p v = true → 1 ≤ b v)
    (hturn : ∀ v w, I v → turn v = some (.next w) → I w ∧ b w + (if p v then 1 else 0) ≤ b v)
    (fuel : Nat) (hv : I v) : (turns turn fuel v).countP p ≤ b v := by
  induction fuel generalizing v with
  | zero => exact Nat.zero_le _
  | succ fuel ih =>
    have hnow : (if p v then 1 else 0) ≤ b v := by
      split
      · exact hpos v hv ‹_›
      · exact Nat.zero_le _
    rw [turns, List.countP_cons]
    split
    · rename_i w ht
      obtain ⟨hw, hle⟩ := hturn v w hv ht
      exact Nat.le_trans (Nat.add_le_add_right (ih hw) _) hle
    · rw [List.countP_nil, Nat.zero_add]
      exact hnow

/-- More fuel changes nothing. -/
theorem loop_mono {fuel fuel' : Nat} (hle : fuel ≤ fuel') (h : loop turn fuel v = some r) :
    loop turn fuel' v = some r := by
  induction fuel generalizing v fuel' with
  | zero => cases h
  | succ fuel ih =>
    obtain ⟨k, rfl⟩ := Nat.exists_eq_add_of_le' hle
    unfold loop at h ⊢
    split at h
    · cases h
    · exact h
    · exact ih (Nat.le_add_left fuel k) h

end

/-! ## Turns with loops in them -/

section
variable {ν ρ : Type} {turn : Nat → ν → Option (Turn ν ρ)}

/-- With more fuel a turn does the same. -/
def Grows (turn : Nat → ν → Option (Turn ν ρ)) : Prop :=
  ∀ fuel fuel' v t, fuel ≤ fuel' → turn fuel v = some t → turn fuel' v = some t

/-- With fuel enough, the turn at `v` leads to `w`. -/
def Goes (turn : Nat → ν → Option (Turn ν ρ)) (v w : ν) : Prop := ∃ fuel, turn fuel v = some (.next w)

/-- The turns from `v` on end one by one. -/
def TurnsEnd (turn : Nat → ν → Option (Turn ν ρ)) (v : ν) : Prop :=
  ∀ w, Relation.ReflTransGen (Goes turn) v w → ∃ fuel t, turn fuel w = some t

/-- **Termination.**  Each turn ends, and those that go on use up some of `μ`. -/
theorem ends_of_measure (hgrows : Grows turn) {I : ν → Prop} (μ : ν → Nat)
    (hturn : ∀ fuel v w, I v → turn fuel v = some (.next w) → I w ∧ μ w < μ v) {v : ν} (hv : I v)
    (hend : TurnsEnd turn v) : ∃ r, Fuel.Ends (fun fuel => loop (turn fuel) fuel v) (some r) := by
  -- the fuel of the turns and that of the loop grow apart
  have hboth : ∃ r n, ∀ fuel m, n ≤ fuel → n ≤ m → loop (turn fuel) m v = some r := by
    induction hμ : μ v using Nat.strongRecOn generalizing v with
    | ind k ih =>
      obtain ⟨fuel₀, t, ht⟩ := hend v .refl
      cases t with
      | done r =>
        refine ⟨r, fuel₀ + 1, fun fuel m hfuel hm => ?_⟩
        obtain ⟨m, rfl⟩ := Nat.exists_eq_add_of_le' (Nat.le_of_add_left_le hm)
        exact loop_done (hgrows _ _ _ _ (by omega) ht) m
      | next w =>
        obtain ⟨hw, hlt⟩ := hturn fuel₀ v w hv ht
        obtain ⟨r, n, hr⟩ := ih (μ w) (hμ ▸ hlt) hw (fun u hu => hend u (.head ⟨fuel₀, ht⟩ hu)) rfl
        refine ⟨r, fuel₀ + n + 1, fun fuel m hfuel hm => ?_⟩
        obtain ⟨m, rfl⟩ := Nat.exists_eq_add_of_le' (Nat.le_of_add_left_le hm)
        rw [loop_next (hgrows _ _ _ _ (by omega) ht)]
        exact hr fuel m (by omega) (by omega)
  obtain ⟨r, n, hr⟩ := hboth
  exact ⟨r, n, fun fuel hfuel => hr fuel fuel hfuel hfuel⟩

/-- Turns without loops in them. -/
theorem ends_of_total {turn : ν → Option (Turn ν ρ)} (htotal : ∀ v, ∃ t, turn v = some t)
    (μ : ν → Nat) (hturn : ∀ v w, turn v = some (.next w) → μ w < μ v) (v : ν) :
    ∃ r, Fuel.Ends (fun fuel => loop turn fuel v) (some r) := by
  have hgrows : Grows fun _ : Nat => turn := fun _ _ _ _ _ h => h
  exact ends_of_measure hgrows (I := fun _ => True) μ (fun _ v w _ h => ⟨trivial, hturn v w h⟩)
    trivial fun w _ => ⟨0, htotal w⟩

end

/-! ## Trying again -/

/-- A loop over places, with `left v` to go.  A turn tries again where it is, with
`tries v` of the `most` tries left, or moves on. -/
structure Retries {ν ρ : Type} (turn : Nat → ν → Option (Turn ν ρ)) (I : ν → Prop)
    (tried : ν → Bool) (left place tries : ν → Nat) (most : Nat) : Prop where
  le : ∀ v, I v → tries v ≤ most
  pos : ∀ v, I v → tried v = true → 1 ≤ tries v
  next : ∀ fuel v w, I v → turn fuel v = some (.next w) → I w ∧
    (tried v = true ∧ left w = left v ∧ place w = place v ∧ tries w + 1 = tries v ∨
      tried v = false ∧ left w < left v ∧ place v ≤ place w ∧
        (place w = place v → tries w ≤ tries v))

section
variable {ν ρ : Type} {turn : Nat → ν → Option (Turn ν ρ)} {I : ν → Prop} {tried : ν → Bool}
  {left place tries : ν → Nat} {most : Nat} {v : ν}

theorem Retries.ends (h : Retries turn I tried left place tries most) (hgrows : Grows turn)
    (hv : I v) (hend : TurnsEnd turn v) :
    ∃ r, Fuel.Ends (fun fuel => loop (turn fuel) fuel v) (some r) := by
  refine ends_of_measure hgrows (I := I) (fun v => left v * (most + 1) + tries v) ?_ hv hend
  intro fuel v w hI ht
  obtain ⟨hw, ⟨-, hleft, -, htries⟩ | ⟨-, hleft, -, -⟩⟩ := h.next fuel v w hI ht
  · refine ⟨hw, ?_⟩
    rw [hleft]
    omega
  · refine ⟨hw, ?_⟩
    have hle := h.le w hw
    have hmul : (left w + 1) * (most + 1) ≤ left v * (most + 1) := Nat.mul_le_mul_right _ hleft
    rw [Nat.add_mul] at hmul
    omega

/-- No place gets more than the tries there are. -/
theorem Retries.count_le (h : Retries turn I tried left place tries most) {p : ν → Bool} {k : Nat}
    (hp : ∀ v, I v → p v = true → tried v = true ∧ place v = k) (hv : I v) (fuel fuel' : Nat) :
    (turns (turn fuel) fuel' v).countP p ≤ most := by
  -- what is left for place k: nothing once it is passed, all before it is reached
  refine Nat.le_trans (count_turns_le (I := I)
    (b := fun v => if k < place v then 0 else if place v = k then tries v else most)
    ?_ ?_ fuel' hv) ?_
  · intro v hI hpv
    obtain ⟨htry, rfl⟩ := hp v hI hpv
    simp only [Nat.lt_irrefl, if_false, if_true]
    exact h.pos v hI htry
  · intro v w hI ht
    obtain ⟨hw, hcase⟩ := h.next fuel v w hI ht
    refine ⟨hw, ?_⟩
    have hle := h.le w hw
    rcases hcase with ⟨-, -, hplace, htries⟩ | ⟨hno, -, hplace, htries⟩
    · by_cases hpv : p v = true
      · obtain ⟨-, hk⟩ := hp v hI hpv
        rw [if_pos hpv]
        split_ifs <;> omega
      · rw [if_neg hpv]
        split_ifs <;> omega
    · have hpv : ¬ p v = true := by
        intro hpv
        rw [(hp v hI hpv).1] at hno
        cases hno
      rw [if_neg hpv]
      split_ifs <;> omega
  · have hle := h.le v hv
    split_ifs <;> omega

end

/-! ## Loops over a list -/

/-- The elements one after the other, until one of them ends the loop. -/
def forEach {α β ρ : Type} (body : α → β → Turn α ρ) : List β → α → Turn α ρ
  | [], acc => .next acc
  | x :: xs, acc =>
    match body acc x with
    | .done r => .done r
    | .next acc => forEach body xs acc

/-- What follows a turn that goes on. -/
def Turn.andThen {α ρ : Type} (t : Turn α ρ) (f : α → Turn α ρ) : Turn α ρ :=
  match t with
  | .done r => .done r
  | .next acc => f acc

section
variable {α β ρ : Type} {body : α → β → Turn α ρ}

theorem forEach_cons (x : β) (xs : List β) (acc : α) :
    forEach body (x :: xs) acc = (body acc x).andThen (forEach body xs) := by
  unfold forEach Turn.andThen
  cases body acc x <;> rfl

theorem forEach_append (l l' : List β) (acc : α) :
    forEach body (l ++ l') acc = (forEach body l acc).andThen (forEach body l') := by
  induction l generalizing acc with
  | nil => rfl
  | cons x xs ih =>
    rw [List.cons_append, forEach_cons, forEach_cons]
    cases body acc x with
    | done r => rfl
    | next acc => exact ih acc

/-- A loop in a loop is a loop over all the elements. -/
theorem forEach_flatMap {γ : Type} (f : γ → List β) (l : List γ) (acc : α) :
    forEach (fun acc x => forEach body (f x) acc) l acc = forEach body (l.flatMap f) acc := by
  induction l generalizing acc with
  | nil => rfl
  | cons x xs ih =>
    rw [forEach_cons, List.flatMap_cons, forEach_append]
    cases forEach body (f x) acc with
    | done r => rfl
    | next acc => exact ih acc

/-- The loop ends at an element that all before let pass. -/
theorem forEach_done_iff {l : List β} {acc : α} {r : ρ} : forEach body l acc = .done r ↔
    ∃ before x after acc', l = before ++ x :: after ∧ forEach body before acc = .next acc' ∧
      body acc' x = .done r := by
  constructor
  · intro h
    induction l generalizing acc with
    | nil => cases h
    | cons x xs ih =>
      rw [forEach_cons] at h
      cases hx : body acc x with
      | done r' =>
        rw [hx] at h
        cases h
        exact ⟨[], x, xs, acc, rfl, rfl, hx⟩
      | next acc' =>
        rw [hx] at h
        obtain ⟨before, y, after, acc'', rfl, hbefore, hy⟩ := ih h
        refine ⟨x :: before, y, after, acc'', rfl, ?_, hy⟩
        rw [forEach_cons, hx]
        exact hbefore
  · rintro ⟨before, x, after, acc', rfl, hbefore, hx⟩
    rw [forEach_append, hbefore]
    show forEach body (x :: after) acc' = _
    rw [forEach_cons, hx]
    rfl

/-- A part of a list that is let pass is let pass. -/
theorem forEach_prefix {l l' : List β} {acc acc' : α} (h : forEach body (l ++ l') acc = .next acc') :
    ∃ acc'', forEach body l acc = .next acc'' := by
  rw [forEach_append] at h
  cases hl : forEach body l acc with
  | done r =>
    rw [hl] at h
    cases h
  | next acc'' => exact ⟨acc'', rfl⟩

/-- A loop without variables ends at some element. -/
theorem forEach_done_mem {body : Unit → β → Turn Unit ρ} {l : List β} {r : ρ}
    (h : forEach body l () = .done r) : ∃ x ∈ l, body () x = .done r := by
  obtain ⟨before, x, after, acc, rfl, -, hx⟩ := forEach_done_iff.1 h
  exact ⟨x, List.mem_append_right _ List.mem_cons_self, hx⟩

/-- It goes through if every element lets it pass. -/
theorem forEach_next_iff {body : Unit → β → Turn Unit ρ} {l : List β} :
    forEach body l () = .next () ↔ ∀ x ∈ l, body () x = .next () := by
  induction l with
  | nil => exact iff_of_true rfl fun x hx => absurd hx List.not_mem_nil
  | cons x xs ih =>
    rw [forEach_cons, List.forall_mem_cons, ← ih]
    cases hx : body () x with
    | done r => exact iff_of_false (fun h => by cases h) (fun h => by cases h.1)
    | next acc => exact ⟨fun h => ⟨rfl, h⟩, fun h => h.2⟩

/-- The elements with `stops` end the loop, the others change nothing. -/
structure EndsAt (body : α → β → Turn α ρ) (stops : β → Prop) : Prop where
  done : ∀ acc x, stops x → ∃ r, body acc x = .done r
  next : ∀ acc x, ¬ stops x → body acc x = .next acc

theorem EndsAt.passes {stops : β → Prop} (h : EndsAt body stops) {l : List β}
    (hl : ∀ x ∈ l, ¬ stops x) (acc : α) : forEach body l acc = .next acc := by
  induction l with
  | nil => rfl
  | cons x xs ih =>
    rw [forEach_cons, h.next acc x (hl x (List.mem_cons_self ..))]
    exact ih fun y hy => hl y (List.mem_cons_of_mem _ hy)

theorem EndsAt.passes_iff {stops : β → Prop} (h : EndsAt body stops) {l : List β} {acc : α} :
    (∃ acc', forEach body l acc = .next acc') ↔ ∀ x ∈ l, ¬ stops x := by
  refine ⟨?_, fun hl => ⟨acc, h.passes hl acc⟩⟩
  rintro ⟨acc', hacc⟩ x hx hstop
  obtain ⟨before, after, rfl⟩ := List.append_of_mem hx
  rw [forEach_append] at hacc
  cases hbefore : forEach body before acc with
  | done r =>
    rw [hbefore] at hacc
    cases hacc
  | next acc'' =>
    rw [hbefore] at hacc
    obtain ⟨r, hr⟩ := h.done acc'' x hstop
    have hacc : forEach body (x :: after) acc'' = .next acc' := hacc
    rw [forEach_cons, hr] at hacc
    cases hacc

/-- The first element that stops it decides. -/
theorem EndsAt.first {stops : β → Prop} (h : EndsAt body stops) {before after : List β} {x : β}
    (hbefore : ∀ y ∈ before, ¬ stops y) (hx : stops x) (acc : α) :
    forEach body (before ++ x :: after) acc = body acc x := by
  rw [forEach_append, h.passes hbefore]
  show forEach body (x :: after) acc = _
  obtain ⟨r, hr⟩ := h.done acc x hx
  rw [forEach_cons, hr]
  rfl

theorem EndsAt.of_done {stops : β → Prop} (h : EndsAt body stops) {l : List β} {acc : α} {r : ρ}
    (hl : forEach body l acc = .done r) : ∃ before x after, l = before ++ x :: after ∧
      (∀ y ∈ before, ¬ stops y) ∧ stops x ∧ body acc x = .done r := by
  obtain ⟨before, x, after, acc', rfl, hbefore, hx⟩ := forEach_done_iff.1 hl
  have hpass := h.passes_iff.1 ⟨acc', hbefore⟩
  obtain rfl : acc = acc' := by
    rw [h.passes hpass acc] at hbefore
    exact Turn.next.inj hbefore
  refine ⟨before, x, after, rfl, hpass, ?_, hx⟩
  by_contra hstop
  rw [h.next acc x hstop] at hx
  cases hx

end

end Loops
