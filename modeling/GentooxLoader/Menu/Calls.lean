import GentooxLoader.Menu.TextMenu

/-!
# The functions a menu calls (menu/textmenu/TextMenu.c)

`TextMenu` calls what it finds in the three function pointers of the selected item.
Any item can be selected: with the up button the selection goes to the first one,
and from there with the down button to any other.

    turn_calls        a turn calls functions of items of the menu alone
    turns_calls       so does a run
    up_to_first       the way to the first item
    down_to           the way to any other
    mem_textMenu_iff  the calls that can be made
-/

namespace Gentoox.Menu

open Chains

/-! ## Calls -/

section
variable {α φ δ : Type}

def Field.function : Field → TextMenuItem α φ δ → Option φ
  | functionPtr => (·.functionPtr)
  | functionLeftPtr => (·.functionLeftPtr)
  | functionRightPtr => (·.functionRightPtr)

def Field.data : Field → TextMenuItem α φ δ → δ
  | functionPtr => (·.functionDataPtr)
  | functionLeftPtr => (·.functionLeftDataPtr)
  | functionRightPtr => (·.functionRightDataPtr)

theorem Field.function_select (item : TextMenuItem α φ δ) :
    functionPtr.function item = item.functionPtr := rfl

theorem Field.function_left (item : TextMenuItem α φ δ) :
    functionLeftPtr.function item = item.functionLeftPtr := rfl

theorem Field.function_right (item : TextMenuItem α φ δ) :
    functionRightPtr.function item = item.functionRightPtr := rfl

def Field.button : Field → Button
  | functionPtr => .select
  | functionLeftPtr => .left
  | functionRightPtr => .right

/-- The call of a function pointer of an item of `l`. -/
def CallOf (items : α → TextMenuItem α φ δ) (l : List α) (item : α) (field : Field) (f : φ) (d : δ) :
    Prop :=
  item ∈ l ∧ field.function (items item) = some f ∧ field.data (items item) = d

/-- The selection is one of the items of `l`. -/
def Selects (l : List α) (v : Vars α) : Prop := ∃ a ∈ l, v.selectedMenuItem = some a

/-- A turn goes on with a selection in `l`, and calls its functions alone. -/
structure CallsIn (items : α → TextMenuItem α φ δ) (l : List α)
    (p : Outcome α × List (Event α φ δ)) : Prop where
  selects : ∀ v, p.1 = .running v → Selects l v
  calls : ∀ item field f d, Event.call item field f d ∈ p.2 → CallOf items l item field f d

end

variable {α φ δ : Type} [DecidableEq α]

section
variable {menu : TextMenu α} {items : α → TextMenuItem α φ δ} {l : List α}

theorem redraw_calls {v : Vars α} (hv : Selects l v) : CallsIn items l (redraw menu items v) where
  selects := by
    rintro v' ⟨⟩
    exact hv
  calls item field f d h := by
    cases List.mem_singleton.1 h

omit [DecidableEq α] in
theorem silent_calls {out : Outcome α} (h : ∀ v, out = .running v → Selects l v) :
    CallsIn items l (out, []) where
  selects := h
  calls _ _ _ _ hmem := absurd hmem List.not_mem_nil

theorem quitOrRedraw_calls {v : Vars α} (hv : Selects l v) :
    CallsIn items l (quitOrRedraw menu items v) := by
  unfold quitOrRedraw
  split
  · exact silent_calls fun _ h => by cases h
  · exact redraw_calls hv

omit [DecidableEq α] in
theorem CallsIn.call {p : Outcome α × List (Event α φ δ)} (h : CallsIn items l p) {item : α}
    {field : Field} {f : φ} {d : δ} (hcall : CallOf items l item field f d) :
    CallsIn items l (p.1, .call item field f d :: p.2) where
  selects := h.selects
  calls item' field' f' d' hmem := by
    rcases List.mem_cons.1 hmem with he | hmem
    · cases he
      exact hcall
    · exact h.calls item' field' f' d' hmem

theorem pressSelect_calls {v : Vars α} (hv : Selects l v) (after : Globals) :
    CallsIn items l (pressSelect menu items after v) := by
  obtain ⟨a, ha, hselected⟩ := hv
  simp only [pressSelect, hselected]
  cases hf : (items a).functionPtr with
  | none => exact quitOrRedraw_calls ⟨a, ha, rfl⟩
  | some f =>
    have hcall : CallOf items l a .functionPtr f (items a).functionDataPtr := ⟨ha, hf, rfl⟩
    refine CallsIn.call (quitOrRedraw_calls ?_) hcall
    exact ⟨a, ha, rfl⟩

theorem pressSide_calls {v : Vars α} (hv : Selects l v) (field : Field) (after : Globals) :
    CallsIn items l (pressSide menu items field field.function field.data after v) := by
  obtain ⟨a, ha, hselected⟩ := hv
  simp only [pressSide, hselected]
  cases hf : field.function (items a) with
  | none => exact redraw_calls ⟨a, ha, rfl⟩
  | some f =>
    refine CallsIn.call (quitOrRedraw_calls ?_) ⟨ha, hf, rfl⟩
    exact ⟨a, ha, rfl⟩

variable (h : MenuOf menu items l)
include h

theorem pressUp_calls {v : Vars α} (hv : Selects l v) : CallsIn items l (pressUp menu items v) := by
  obtain ⟨a, ha, hselected⟩ := hv
  simp only [pressUp, hselected]
  cases hp : (items a).previousMenuItem with
  | none =>
    refine silent_calls ?_
    rintro v' ⟨⟩
    exact ⟨a, ha, rfl⟩
  | some p =>
    refine redraw_calls ⟨p, ?_, rfl⟩
    obtain ⟨i, hi⟩ := List.mem_iff_getElem?.1 ha
    cases i with
    | zero => cases (h.chain.front _ hi).symm.trans hp
    | succ i => exact List.mem_of_getElem? ((h.chain.prev i _ hi).symm.trans hp)

theorem pressDown_calls {v : Vars α} (hv : Selects l v) :
    CallsIn items l (pressDown menu items v) := by
  obtain ⟨a, ha, hselected⟩ := hv
  simp only [pressDown, hselected]
  cases hn : (items a).nextMenuItem with
  | none =>
    refine silent_calls ?_
    rintro v' ⟨⟩
    exact ⟨a, ha, rfl⟩
  | some n =>
    have hmem : n ∈ l := by
      obtain ⟨i, hi⟩ := List.mem_iff_getElem?.1 ha
      exact List.mem_of_getElem? ((h.chain.next i _ hi).symm.trans hn)
    cases v.firstVisibleMenuItem with
    | none => exact silent_calls fun _ h => by cases h
    | some first => exact redraw_calls ⟨n, hmem, rfl⟩

theorem buttons_calls {v : Vars α} (hv : Selects l v) (t : Turn) :
    CallsIn items l (buttons menu items t v) := by
  unfold buttons
  split
  · exact pressUp_calls h hv
  split
  · exact pressDown_calls h hv
  split
  · exact pressSelect_calls hv t.after
  split
  · exact pressSide_calls hv .functionLeftPtr t.after
  split
  · exact pressSide_calls hv .functionRightPtr t.after
  split
  · exact silent_calls fun _ h => by cases h
  · refine silent_calls ?_
    rintro v' ⟨⟩
    exact hv

omit h in
theorem timer_calls {v : Vars α} (hv : Selects l v) (countStart now : UInt32) :
    CallsIn items l (timer menu items countStart now v) := by
  have hsilent : ∀ w : Vars α, w.selectedMenuItem = v.selectedMenuItem →
      CallsIn items l (.running w, []) := by
    intro w hw
    refine silent_calls ?_
    rintro v' ⟨⟩
    obtain ⟨a, ha, hselected⟩ := hv
    exact ⟨a, ha, hw.trans hselected⟩
  simp only [timer]
  split
  · split
    · exact redraw_calls hv
    · exact hsilent _ rfl
  · exact hsilent _ rfl

/-- A turn keeps the selection in the menu, and calls functions of its items alone. -/
theorem turn_calls {v : Vars α} (hv : Selects l v) (countStart : UInt32) (t : Turn) :
    CallsIn items l (turn menu items countStart t v) := by
  have hbuttons := buttons_calls h hv t
  unfold turn andThen
  cases hout : (buttons menu items t v).1 with
  | running w =>
    have htimer : CallsIn items l (timer menu items countStart t.now w) :=
      timer_calls (hbuttons.selects w hout) countStart t.now
    refine ⟨htimer.selects, fun item field f d hmem => ?_⟩
    rcases List.mem_append.1 hmem with hmem | hmem
    · exact hbuttons.calls item field f d hmem
    · exact htimer.calls item field f d hmem
  | returned => exact ⟨fun _ hr => (by cases hr), hbuttons.calls⟩
  | fault => exact ⟨fun _ hr => (by cases hr), hbuttons.calls⟩

theorem turns_calls {v : Vars α} (hv : Selects l v) (countStart : UInt32) (ts : List Turn) :
    ∀ item field f d, Event.call item field f d ∈ turns menu items countStart ts v →
      CallOf items l item field f d := by
  induction ts generalizing v with
  | nil => exact fun _ _ _ _ hmem => absurd hmem List.not_mem_nil
  | cons t ts ih =>
    intro item field f d hmem
    have hturn := turn_calls h hv countStart t
    simp only [turns] at hmem
    rcases List.mem_append.1 hmem with hmem | hmem
    · exact hturn.calls item field f d hmem
    · cases hout : (turn menu items countStart t v).1 with
      | running v' =>
        rw [hout] at hmem
        exact ih (hturn.selects v' hout) item field f d hmem
      | returned =>
        rw [hout] at hmem
        exact absurd hmem List.not_mem_nil
      | fault =>
        rw [hout] at hmem
        exact absurd hmem List.not_mem_nil

end

/-! ## The way to an item -/

section
variable (menu : TextMenu α) (items : α → TextMenuItem α φ δ)

/-- The state after these turns, where all of them go on. -/
def varsAfter (countStart : UInt32) : List Turn → Vars α → Option (Vars α)
  | [], v => some v
  | t :: ts, v =>
    match (turn menu items countStart t v).1 with
    | .running v => varsAfter countStart ts v
    | _ => none

end

/-- A turn in which a button answers. -/
def press (b : Button) : Turn := ⟨some b, 0, ⟨false, 0, 0, 0⟩⟩

section
variable {menu : TextMenu α} {items : α → TextMenuItem α φ δ} {l : List α} {countStart : UInt32}
  {v v' w : Vars α} {ts ts' : List Turn}

theorem varsAfter_cons {t : Turn} (h : (turn menu items countStart t v).1 = .running w) :
    varsAfter menu items countStart (t :: ts) v = varsAfter menu items countStart ts w := by
  rw [varsAfter, h]

theorem turns_cons {t : Turn} (h : (turn menu items countStart t v).1 = .running w) :
    turns menu items countStart (t :: ts) v =
      (turn menu items countStart t v).2 ++ turns menu items countStart ts w := by
  simp only [turns, h]

/-- What is seen behind the first turns is seen of the run. -/
theorem mem_turns_append (h : varsAfter menu items countStart ts v = some v') {e : Event α φ δ}
    (he : e ∈ turns menu items countStart ts' v') : e ∈ turns menu items countStart (ts ++ ts') v := by
  induction ts generalizing v with
  | nil =>
    obtain rfl : v = v' := Option.some.inj h
    exact he
  | cons t ts ih =>
    cases hout : (turn menu items countStart t v).1 with
    | running w =>
      rw [varsAfter_cons hout] at h
      rw [List.cons_append, turns_cons hout]
      exact List.mem_append_right _ (ih h)
    | returned =>
      rw [varsAfter, hout] at h
      cases h
    | fault =>
      rw [varsAfter, hout] at h
      cases h

theorem varsAfter_append (h : varsAfter menu items countStart ts v = some v') :
    varsAfter menu items countStart (ts ++ ts') v = varsAfter menu items countStart ts' v' := by
  induction ts generalizing v with
  | nil =>
    obtain rfl : v = v' := Option.some.inj h
    rfl
  | cons t ts ih =>
    cases hout : (turn menu items countStart t v).1 with
    | running w =>
      rw [varsAfter_cons hout] at h
      rw [List.cons_append, varsAfter_cons hout, ih h]
    | returned =>
      rw [varsAfter, hout] at h
      cases h
    | fault =>
      rw [varsAfter, hout] at h
      cases h

variable (countStart) in
/-- Without a timeout a turn is what its button does. -/
theorem turn_running {t : Turn} (h : (buttons menu items t v).1 = .running w) (hw : w.temp = 0) :
    (turn menu items countStart t v).1 = .running w := by
  unfold turn andThen
  rw [h]
  simp only [timer]
  rw [if_neg (by rw [hw]; exact fun h => h rfl)]

/-- Item `i` is selected, and the first one is shown first. -/
structure Top (menu : TextMenu α) (l : List α) (i : Nat) (v : Vars α) : Prop where
  selected : v.selectedMenuItem = l[i]?
  first : v.firstVisibleMenuItem = l[0]?
  count : v.visibleCount = menu.count

section
variable (h : MenuOf menu items l)
include h

variable (countStart) in
/-- The up button selects the item before, if there is one. -/
theorem up_step {i : Nat} (hi : i < l.length) (hv : Top menu l i v) :
    ∃ w, (turn menu items countStart (press .up) v).1 = .running w ∧ Top menu l (i - 1) w ∧
      w.temp = 0 := by
  have hselected := hv.selected
  rw [List.getElem?_eq_getElem hi] at hselected
  have hbuttons : buttons menu items (press .up) v = pressUp menu items v := if_pos rfl
  have hpress : ∃ w, (pressUp menu items v).1 = .running w ∧ Top menu l (i - 1) w ∧ w.temp = 0 := by
    simp only [pressUp, hselected]
    cases i with
    | zero =>
      have hnone : (items l[0]).previousMenuItem = none :=
        h.chain.front _ (List.getElem?_eq_getElem hi)
      rw [hnone]
      exact ⟨_, rfl, ⟨(List.getElem?_eq_getElem hi).symm, hv.first, hv.count⟩, rfl⟩
    | succ i =>
      have hil : i < l.length := Nat.lt_of_succ_lt hi
      have hprevious : (items l[i + 1]).previousMenuItem = some l[i] := by
        rw [← List.getElem?_eq_getElem]
        exact h.chain.prev i _ (List.getElem?_eq_getElem hi)
      have hfirst : v.firstVisibleMenuItem ≠ some l[i + 1] := by
        rw [hv.first, ← List.getElem?_eq_getElem hi]
        intro heq
        have hzero := (List.getElem?_inj (by omega) h.chain.nodup).1 heq
        omega
      rw [hprevious]
      simp only [if_neg hfirst]
      exact ⟨_, rfl, ⟨(List.getElem?_eq_getElem _).symm, hv.first, rfl⟩, rfl⟩
  obtain ⟨w, hw, htop, htemp⟩ := hpress
  exact ⟨w, turn_running countStart (by rw [hbuttons, hw]) htemp, htop, htemp⟩

variable (countStart) in
theorem up_to_first {i : Nat} (hi : i < l.length) (hv : Top menu l i v) :
    ∃ w, varsAfter menu items countStart (List.replicate (i + 1) (press .up)) v = some w ∧
      Top menu l 0 w ∧ w.temp = 0 := by
  induction i generalizing v with
  | zero =>
    obtain ⟨w, hw, htop, htemp⟩ := up_step countStart h hi hv
    exact ⟨w, varsAfter_cons hw, htop, htemp⟩
  | succ i ih =>
    obtain ⟨u, hu, htop, -⟩ := up_step countStart h hi hv
    obtain ⟨w, hw, hfirst, htemp⟩ := ih (by omega) htop
    refine ⟨w, ?_, hfirst, htemp⟩
    rw [List.replicate_succ, varsAfter_cons hu, hw]

variable (countStart) in
/-- The down button selects the item behind. -/
theorem down_step {i : Nat} (hi : i + 1 < l.length) (hv : Ready menu l v)
    (hselected : v.selectedMenuItem = l[i]?) :
    ∃ w, (turn menu items countStart (press .down) v).1 = .running w ∧ Ready menu l w ∧
      w.selectedMenuItem = l[i + 1]? ∧ w.temp = 0 := by
  have hil : i < l.length := Nat.lt_of_succ_lt hi
  rw [List.getElem?_eq_getElem hil] at hselected
  obtain ⟨win, hfirst, -, -⟩ := hv.1
  have hbuttons : buttons menu items (press .down) v = pressDown menu items v := by
    unfold buttons
    rw [if_neg (by decide)]
    exact if_pos rfl
  have hnext : (items l[i]).nextMenuItem = some l[i + 1] := by
    rw [← List.getElem?_eq_getElem]
    exact h.chain.next i _ (List.getElem?_eq_getElem _)
  have hpress : ∃ w, (pressDown menu items v).1 = .running w ∧
      w.selectedMenuItem = some l[i + 1] ∧ w.temp = 0 := by
    simp only [pressDown, hselected, hnext, hfirst]
    exact ⟨_, rfl, rfl, rfl⟩
  obtain ⟨w, hw, hsel, htemp⟩ := hpress
  have hturn := turn_running countStart (by rw [hbuttons, hw]) htemp
  refine ⟨w, hturn, (turn_sound h hv countStart (press .down)).ready w hturn, ?_, htemp⟩
  rw [hsel, List.getElem?_eq_getElem hi]

variable (countStart) in
theorem down_to {k : Nat} (hk : k < l.length) (hv : Ready menu l v)
    (hselected : v.selectedMenuItem = l[0]?) (htemp : v.temp = 0) :
    ∃ w, varsAfter menu items countStart (List.replicate k (press .down)) v = some w ∧
      w.selectedMenuItem = l[k]? ∧ Ready menu l w ∧ w.temp = 0 := by
  induction k with
  | zero => exact ⟨v, rfl, hselected, hv, htemp⟩
  | succ k ih =>
    obtain ⟨u, hu, hsel, hready, -⟩ := ih (by omega)
    obtain ⟨w, hw, hready', hsel', htemp'⟩ := down_step countStart h hk hready hsel
    refine ⟨w, ?_, hsel', hready', htemp'⟩
    rw [List.replicate_succ', varsAfter_append hu, varsAfter_cons hw]
    rfl

end

/-- The button of a field calls what is there. -/
theorem press_calls {a : α} {field : Field} {f : φ} (hselected : v.selectedMenuItem = some a)
    (htemp : v.temp = 0) (hf : field.function (items a) = some f) :
    Event.call a field f (field.data (items a)) ∈
      turns menu items countStart [press field.button] v := by
  have hlong : ¬ v.temp > 0x369E99 * 5 := by
    rw [htemp]
    decide
  have hbuttons : Event.call a field f (field.data (items a)) ∈
      (buttons menu items (press field.button) v).2 := by
    unfold buttons press
    cases field with
    | functionPtr =>
      have hcall : (items a).functionPtr = some f := hf
      simp only [Field.button, pressSelect, hselected, hcall, reduceCtorEq, if_false, true_or, if_true,
        Option.some.injEq]
      exact List.mem_cons_self
    | functionLeftPtr =>
      have hcall : (items a).functionLeftPtr = some f := hf
      simp only [Field.button, pressLeft, pressSide, hselected, hcall, reduceCtorEq, if_false, hlong,
        or_false, if_true, Option.some.injEq]
      exact List.mem_cons_self
    | functionRightPtr =>
      have hcall : (items a).functionRightPtr = some f := hf
      simp only [Field.button, pressRight, pressSide, hselected, hcall, reduceCtorEq, if_false, hlong,
        or_false, if_true, Option.some.injEq]
      exact List.mem_cons_self
  simp only [turns, turn, andThen]
  refine List.mem_append_left _ ?_
  cases (buttons menu items (press field.button) v).1 with
  | running u => exact List.mem_append_left _ hbuttons
  | returned => exact hbuttons
  | fault => exact hbuttons

end

/-! ## Top theorem -/

/-- **The calls of a menu.** With the buttons and the time alone exactly the
functions in its items can be had called. -/
theorem mem_textMenu_iff {menu : TextMenu α} {items : α → TextMenuItem α φ δ} {l : List α}
    (h : MenuOf menu items l) (hcount : 0 < menu.count) {selectedItem : Option α} {i : Nat}
    (hi : i < l.length) (hselected : selectedItem = l[i]? ∨ selectedItem = none ∧ i = 0) (item : α)
    (field : Field) (f : φ) (d : δ) :
    (∃ found countStart ts,
        Event.call item field f d ∈ textMenu menu items selectedItem found countStart ts) ↔
      CallOf items l item field f d := by
  have hfirst : menu.firstMenuItem = l[0]? := by rw [h.first, List.head?_eq_getElem?]
  have hstart : (if selectedItem = none then menu.firstMenuItem else selectedItem) = l[i]? := by
    rcases hselected with hs | ⟨hs, rfl⟩
    · rw [if_neg (by rw [hs, List.getElem?_eq_getElem hi]; exact Option.some_ne_none _), hs]
    · rw [if_pos hs, hfirst]
  constructor
  · rintro ⟨found, countStart, ts, hmem⟩
    simp only [textMenu] at hmem
    rcases List.mem_append.1 hmem with hmem | hmem
    · cases List.mem_singleton.1 hmem
    · refine turns_calls h ⟨l[i], List.getElem_mem hi, ?_⟩ countStart ts item field f d hmem
      exact hstart.trans (List.getElem?_eq_getElem hi)
  · rintro ⟨hitem, hf, rfl⟩
    obtain ⟨k, hk, rfl⟩ := List.mem_iff_getElem.1 hitem
    refine ⟨⟨false, 0, 0, 0⟩, 0, List.replicate (i + 1) (press .up) ++
      (List.replicate k (press .down) ++ [press field.button]), ?_⟩
    simp only [textMenu]
    refine List.mem_append_right _ ?_
    -- the state behind the first draw
    generalize hv : (textMenuDraw menu items _).1 = v
    have htop0 : Top menu l i v := by
      rw [← hv]
      exact ⟨hstart, hfirst, rfl⟩
    obtain ⟨u, hu, htop, htemp⟩ := up_to_first 0 h hi htop0
    have hpos : 0 < l.length := by omega
    have hready : Ready menu l u := by
      refine ⟨⟨⟨l[0], l[0]⟩, ?_, ?_, 0, 0, List.getElem?_eq_getElem hpos, List.getElem?_eq_getElem hpos,
        le_refl _, by omega⟩, htop.count⟩
      · rw [htop.first, List.getElem?_eq_getElem hpos]
      · rw [htop.selected, List.getElem?_eq_getElem hpos]
    obtain ⟨w, hw, hsel, -, htemp'⟩ := down_to 0 h hk hready htop.selected htemp
    refine mem_turns_append hu (mem_turns_append hw (press_calls ?_ htemp' hf))
    rw [hsel, List.getElem?_eq_getElem hk]

end Gentoox.Menu
