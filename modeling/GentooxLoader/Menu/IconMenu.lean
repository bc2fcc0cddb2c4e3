import GentooxLoader.Base.Chains
import Mathlib.Data.UInt
import Mathlib.Logic.Function.Basic

/-!
# The icon menu (menu/iconmenu/IconMenu.c)

Icons are a chain too, of which three are shown in bays.  The menu does not
start from its first icon but from `selectedIcon`, which whoever adds an icon may
have set; only where it is NULL the first icon is selected.

    icons_addIcons        AddIcon, any number of times, makes a chain
    draw_window           one draw of a window with the selection in it
    iconTurn_shown        a turn keeps the selection in the window
    iconMenu_shows_iff    the selection is in a bay of every screen ↔ it begins in one
-/

namespace Gentoox.Menu

open Chains

/-! ## Algorithm -/

structure Icon (α φ δ : Type) where
  iconSlot : Nat
  szCaption : List UInt8
  functionPtr : Option φ
  functionDataPtr : δ
  previousIcon : Option α
  nextIcon : Option α

variable {α φ δ : Type} [DecidableEq α]

/-- The icons and the global that points to the first one. -/
structure Icons (α φ δ : Type) where
  firstIcon : Option α
  icon : α → Icon α φ δ

/-- The walk to the last icon needs as much fuel as there are icons. -/
def addIcon (fuel : Nat) (s : Icons α φ δ) (newIcon : α) : Option (Icons α φ δ) :=
  (lastOf (fun a => (s.icon a).nextIcon) fuel s.firstIcon none).map fun
  | none =>
    { firstIcon := some newIcon
      icon := Function.update s.icon newIcon
        { s.icon newIcon with nextIcon := none, previousIcon := none } }
  | some currentIcon =>
    let icon := Function.update s.icon currentIcon
      { s.icon currentIcon with nextIcon := some newIcon }
    { s with
      icon := Function.update icon newIcon
        { icon newIcon with nextIcon := none, previousIcon := some currentIcon } }

def TRANSPARENTNESS : UInt32 := 0x30
def SELECTED : UInt32 := 0xff

/-- One bay: the caption is printed under the selected icon only. -/
structure Bay (α : Type) where
  icon : α
  iconSlot : Nat
  opaqueness : UInt32
  caption : Option (List UInt8)

/-- What `IconMenuDraw` puts on the screen: with less than three icons to show
it stops before the arrows and the text, which tells the time that is left. -/
structure IconScreen (α : Type) where
  bays : List (Bay α)
  leftArrow : Bool
  rightArrow : Bool
  text : Option (Option Int)
  selected : Option α

/-- The globals of the menu. -/
structure IconVars (α : Type) where
  temp : UInt32
  iconTimeRemain : Int
  timedOut : Bool
  selectedIcon : Option α
  firstVisibleIcon : Option α
  lastVisibleIcon : Option α

inductive IconEvent (α φ δ : Type) where
  | draw (screen : IconScreen α)
  | call (icon : α) (function : φ) (data : δ)

inductive Side where
  | right | left
deriving DecidableEq

/-- The clock and the time as a function that was called leaves them. -/
structure IconGlobals where
  temp : UInt32
  iconTimeRemain : Int

/-- What a turn gets: right or left, whether A or START answers, the clock, and
the effect of a call. -/
structure IconTurn where
  side : Option Side
  select : Bool
  now : UInt32
  after : IconGlobals

section
variable (s : Icons α φ δ)

def iconBay (selectedIcon : Option α) (a : α) : Bay α :=
  if some a = selectedIcon then ⟨a, (s.icon a).iconSlot, SELECTED, some (s.icon a).szCaption⟩
  else ⟨a, (s.icon a).iconSlot, TRANSPARENTNESS, none⟩

def iconMenuDraw (v : IconVars α) : IconVars α × List (IconEvent α φ δ) :=
  let firstVisibleIcon := if v.firstVisibleIcon = none then s.firstIcon else v.firstVisibleIcon
  let selectedIcon := if v.selectedIcon = none then s.firstIcon else v.selectedIcon
  let shown := front (fun a => (s.icon a).nextIcon) 3 firstVisibleIcon
  let lastVisibleIcon := if shown = [] then v.lastVisibleIcon else shown.getLast?
  let all := shown.length = 3
  ({ v with
      firstVisibleIcon := firstVisibleIcon
      selectedIcon := selectedIcon
      lastVisibleIcon := lastVisibleIcon },
    [.draw
      { bays := shown.map (iconBay s selectedIcon)
        leftArrow := all ∧ firstVisibleIcon.any fun a => (s.icon a).previousIcon.isSome
        rightArrow := all ∧ lastVisibleIcon.any fun a => (s.icon a).nextIcon.isSome
        text := if all then some (if v.temp ≠ 0 then some v.iconTimeRemain else none) else none
        selected := selectedIcon }])

/-- Right and left: the variables, and whether the menu is to be drawn again;
`none` when a NULL icon is read. -/
def iconMove (side : Option Side) (v : IconVars α) : Option (IconVars α × Bool) :=
  match side with
  | none => some (v, false)
  | some .right =>
    v.selectedIcon.bind fun selected =>
      match (s.icon selected).nextIcon with
      | none => some ({ v with temp := 0 }, false)
      | some next =>
        v.firstVisibleIcon.map fun first =>
          let lastVisibleIcon := ahead (fun a => (s.icon a).nextIcon) 2 first
          ({ v with
              temp := 0
              lastVisibleIcon := some lastVisibleIcon
              firstVisibleIcon :=
                if selected = lastVisibleIcon ∧ (s.icon lastVisibleIcon).nextIcon ≠ none then
                  (s.icon first).nextIcon
                else some first
              selectedIcon := some next }, true)
  | some .left =>
    v.selectedIcon.map fun selected =>
      match (s.icon selected).previousIcon with
      | none => ({ v with temp := 0 }, false)
      | some previous =>
        ({ v with
            temp := 0
            firstVisibleIcon :=
              if some selected = v.firstVisibleIcon then
                match (s.icon selected).previousIcon with
                | none => v.firstVisibleIcon
                | some p => some p
              else v.firstVisibleIcon
            selectedIcon := some previous }, true)

def BOOT_TIMEWAIT : Nat := 5

/-- The time that is left, and whether it has changed. -/
def iconTimer (countStart now : UInt32) (v : IconVars α) : IconVars α × Bool :=
  if v.temp ≠ 0 then
    let temp := now - countStart
    let iconTimeRemain : Int := BOOT_TIMEWAIT - (temp / 0x369E99).toNat
    ({ v with temp := temp, iconTimeRemain := iconTimeRemain }, v.iconTimeRemain ≠ iconTimeRemain)
  else (v, false)

/-- The selected icon's function is called. -/
def iconSelect (after : IconGlobals) (v : IconVars α) :
    Option (IconVars α × List (IconEvent α φ δ)) :=
  let v := { v with timedOut := v.timedOut || v.temp > 0x369E99 * 5 }
  v.selectedIcon.map fun selected =>
    match (s.icon selected).functionPtr with
    | none => (v, [])
    | some f =>
      ({ v with temp := after.temp, iconTimeRemain := after.iconTimeRemain },
        [.call selected f (s.icon selected).functionDataPtr])

/-- The last part of a turn. -/
def iconRedraw (changed : Bool) (v : IconVars α) : IconVars α × List (IconEvent α φ δ) :=
  if changed then iconMenuDraw s v else (v, [])

/-- One turn of the event loop; `none` when a NULL icon is read. -/
def iconTurn (countStart : UInt32) (t : IconTurn) (v : IconVars α) :
    Option (IconVars α × List (IconEvent α φ δ)) :=
  (iconMove s t.side v).bind fun p =>
    let q := iconTimer countStart t.now p.1
    if t.select ∨ q.1.temp > 0x369E99 * 5 then
      (iconSelect s t.after q.1).map fun r =>
        let d := iconRedraw s true r.1
        (d.1, r.2 ++ d.2)
    else some (iconRedraw s (p.2 || q.2) q.1)

/-- What is seen along the turns of the event loop. -/
def iconTurns (countStart : UInt32) : List IconTurn → IconVars α → List (IconEvent α φ δ)
  | [], _ => []
  | t :: ts, v =>
    match iconTurn s countStart t v with
    | none => []
    | some p => p.2 ++ iconTurns countStart ts p.1

/-- `IconMenu` -/
def iconMenu (v : IconVars α) (countStart : UInt32) (ts : List IconTurn) :
    List (IconEvent α φ δ) :=
  let p := iconMenuDraw s v
  p.2 ++ iconTurns s countStart ts p.1

end

/-! ## Chains of icons -/

def iconLinks (s : Icons α φ δ) : Links α where
  next a := (s.icon a).nextIcon
  prev a := (s.icon a).previousIcon

/-- The icons of `l` are the menu's. -/
structure IconsOf (s : Icons α φ δ) (l : List α) : Prop where
  first : s.firstIcon = l.head?
  chain : IsChain (iconLinks s) l

omit [DecidableEq α] in
theorem iconsOf_empty (s : Icons α φ δ) (h : s.firstIcon = none) : IconsOf s [] :=
  ⟨h, isChain_nil _⟩

/-- Storing an icon's links. -/
theorem iconLinks_append (icon : α → Icon α φ δ) (first first' last : Option α) (x : α) :
    iconLinks ⟨first', Function.update (match last with
      | none => icon
      | some c => Function.update icon c { icon c with nextIcon := some x }) x
      { (match last with
        | none => icon
        | some c => Function.update icon c { icon c with nextIcon := some x }) x with
        nextIcon := none, previousIcon := last }⟩ = (iconLinks ⟨first, icon⟩).append last x := by
  cases last with
  | none =>
    simp only [iconLinks, Links.append, Links.mk.injEq]
    constructor <;> funext a <;> by_cases hax : a = x <;> simp [hax]
  | some c =>
    simp only [iconLinks, Links.append, Links.mk.injEq]
    constructor <;> funext a <;> by_cases hax : a = x <;> by_cases hac : a = c <;>
      simp_all [Function.update_apply]

/-- The new icon comes at the end. -/
theorem icons_addIcon {s : Icons α φ δ} {l : List α} (h : IconsOf s l) {x : α} (hx : x ∉ l)
    {fuel : Nat} (hfuel : l.length ≤ fuel) :
    ∃ s', addIcon fuel s x = some s' ∧ IconsOf s' (l ++ [x]) := by
  have hlast := lastOf_chain h.chain hfuel
  have hchain := h.chain.append hx
  rw [← h.first] at hlast
  unfold addIcon
  rw [show lastOf (fun a => (s.icon a).nextIcon) fuel s.firstIcon none = _ from hlast]
  cases hl : l.getLast? with
  | none =>
    obtain rfl : l = [] := List.getLast?_eq_none_iff.1 hl
    refine ⟨_, rfl, rfl, ?_⟩
    rwa [← iconLinks_append s.icon s.firstIcon (some x)] at hchain
  | some c =>
    rw [hl, ← iconLinks_append s.icon s.firstIcon s.firstIcon] at hchain
    refine ⟨_, rfl, ?_, hchain⟩
    show s.firstIcon = _
    rw [h.first, List.head?_append_of_ne_nil _ (List.ne_nil_of_mem (List.mem_of_getLast? hl))]

/-- `AddIcon` for one icon after the other. -/
def addIcons (fuel : Nat) (s : Icons α φ δ) (xs : List α) : Option (Icons α φ δ) :=
  xs.foldlM (addIcon fuel) s

theorem icons_addIcons {s : Icons α φ δ} {l xs : List α} (h : IconsOf s l) (hxs : (l ++ xs).Nodup)
    {fuel : Nat} (hfuel : (l ++ xs).length ≤ fuel) :
    ∃ s', addIcons fuel s xs = some s' ∧ IconsOf s' (l ++ xs) := by
  induction xs generalizing s l with
  | nil => exact ⟨s, rfl, by rwa [List.append_nil]⟩
  | cons x xs ih =>
    have hx : x ∉ l := fun hmem =>
      (List.nodup_append.1 hxs).2.2 x hmem x List.mem_cons_self rfl
    have hlen : l.length ≤ fuel := by
      rw [List.length_append] at hfuel
      omega
    obtain ⟨s1, hadd, h1⟩ := icons_addIcon h hx hlen
    rw [List.append_cons] at hxs hfuel ⊢
    obtain ⟨s2, hadds, h2⟩ := ih h1 hxs hfuel
    refine ⟨s2, ?_, h2⟩
    show (addIcon fuel s x).bind _ = _
    rw [hadd]
    exact hadds

/-! ## Draws and turns -/

/-- The selected icon is in one of the bays. -/
def IconScreen.ShowsSelected (screen : IconScreen α) : Prop :=
  ∃ bay ∈ screen.bays, screen.selected = some bay.icon

/-- The three bays have the selection in them. -/
def IconFramed (l : List α) (v : IconVars α) : Prop :=
  ∃ w : Window α, v.firstVisibleIcon = some w.first ∧ v.selectedIcon = some w.selected ∧ Inside l 3 w

/-- The variables are so again, and the screens all show the selection. -/
def Shown (l : List α) (p : IconVars α × List (IconEvent α φ δ)) : Prop :=
  IconFramed l p.1 ∧ ∀ screen, IconEvent.draw screen ∈ p.2 → screen.ShowsSelected

section
variable {s : Icons α φ δ} {l : List α} (h : IconsOf s l)
include h

omit h in
@[simp] theorem iconBay_icon (selectedIcon : Option α) (a : α) : (iconBay s selectedIcon a).icon = a := by
  unfold iconBay
  split <;> rfl

/-- A draw, of the window that is there once NULL has been replaced. -/
theorem draw_window {v : IconVars α} {w : Window α}
    (hfirst : (if v.firstVisibleIcon = none then s.firstIcon else v.firstVisibleIcon) = some w.first)
    (hselected : (if v.selectedIcon = none then s.firstIcon else v.selectedIcon) = some w.selected)
    (hin : Inside l 3 w) : Shown l (iconMenuDraw s v) := by
  refine ⟨⟨w, hfirst, hselected, hin⟩, fun screen hscreen => ?_⟩
  cases List.mem_singleton.1 hscreen
  refine ⟨iconBay s (some w.selected) w.selected, ?_, ?_⟩
  · show _ ∈ List.map _ _
    rw [hfirst, hselected]
    exact List.mem_map_of_mem (hin.mem_front h.chain)
  · rw [iconBay_icon]
    exact hselected

theorem draw_shown {v : IconVars α} (hv : IconFramed l v) : Shown l (iconMenuDraw s v) := by
  obtain ⟨w, hfirst, hselected, hin⟩ := hv
  refine draw_window h (w := w) ?_ ?_ hin
  · rw [if_neg (by rw [hfirst]; exact Option.some_ne_none _), hfirst]
  · rw [if_neg (by rw [hselected]; exact Option.some_ne_none _), hselected]

theorem iconMove_framed {v : IconVars α} (hv : IconFramed l v) (side : Option Side) :
    ∃ v' changed, iconMove s side v = some (v', changed) ∧ IconFramed l v' := by
  obtain ⟨w, hfirst, hselected, hin⟩ := hv
  unfold iconMove
  cases side with
  | none => exact ⟨v, false, rfl, w, hfirst, hselected, hin⟩
  | some side =>
    cases side with
    | right =>
      simp only [hselected, Option.bind_some]
      cases hn : (s.icon w.selected).nextIcon with
      | none => exact ⟨_, _, rfl, w, hfirst, rfl, hin⟩
      | some n =>
        simp only [hfirst, Option.map_some]
        refine ⟨_, _, rfl, ?_⟩
        by_cases hlast : w.selected = ahead (fun a => (s.icon a).nextIcon) 2 w.first
        · obtain ⟨g, hg, hgin⟩ := hin.forth_last h.chain hlast hn
          refine ⟨⟨g, n⟩, ?_, rfl, hgin⟩
          rw [if_pos ⟨hlast, by rw [← hlast, hn]; exact Option.some_ne_none _⟩]
          exact hg
        · refine ⟨⟨w.first, n⟩, ?_, rfl, hin.forth_inner h.chain hlast hn⟩
          rw [if_neg fun hc => hlast hc.1]
    | left =>
      simp only [hselected, Option.map_some]
      cases hp : (s.icon w.selected).previousIcon with
      | none => exact ⟨_, _, rfl, w, hfirst, rfl, hin⟩
      | some p =>
        refine ⟨_, _, rfl, ?_⟩
        by_cases hws : w.first = w.selected
        · refine ⟨⟨p, p⟩, ?_, rfl, hin.back_first h.chain hp⟩
          rw [if_pos (by rw [hfirst, hws])]
        · refine ⟨⟨w.first, p⟩, ?_, rfl, hin.back_inner h.chain hws hp⟩
          rw [if_neg fun hc => hws (Option.some.inj (hc.trans hfirst)).symm, hfirst]

omit h [DecidableEq α] in
theorem iconTimer_framed {v : IconVars α} (hv : IconFramed l v) (countStart now : UInt32) :
    IconFramed l (iconTimer countStart now v).1 := by
  unfold iconTimer
  split
  · exact hv
  · exact hv

theorem iconRedraw_shown {v : IconVars α} (hv : IconFramed l v) (changed : Bool) :
    Shown l (iconRedraw s changed v) := by
  unfold iconRedraw
  split
  · exact draw_shown h hv
  · exact ⟨hv, fun _ hs => absurd hs List.not_mem_nil⟩

omit h [DecidableEq α] in
theorem iconSelect_framed {v : IconVars α} (hv : IconFramed l v) (after : IconGlobals) :
    ∃ v' es, iconSelect s after v = some (v', es) ∧ IconFramed l v' ∧
      ∀ screen, IconEvent.draw screen ∉ es := by
  obtain ⟨w, hfirst, hselected, hin⟩ := hv
  simp only [iconSelect, hselected, Option.map_some]
  cases (s.icon w.selected).functionPtr with
  | none => exact ⟨_, _, rfl, ⟨w, hfirst, rfl, hin⟩, fun _ hs => absurd hs List.not_mem_nil⟩
  | some f =>
    refine ⟨_, _, rfl, ⟨w, hfirst, rfl, hin⟩, fun _ hs => ?_⟩
    cases List.mem_singleton.1 hs

theorem iconTurn_shown {v : IconVars α} (hv : IconFramed l v) (countStart : UInt32) (t : IconTurn) :
    ∃ p, iconTurn s countStart t v = some p ∧ Shown l p := by
  obtain ⟨v1, changed, hmove, h1⟩ := iconMove_framed h hv t.side
  have h2 := iconTimer_framed h1 countStart t.now
  simp only [iconTurn, hmove, Option.bind_some]
  split
  · obtain ⟨v3, es, hselect, h3, hes⟩ := iconSelect_framed (s := s) h2 t.after
    rw [hselect]
    have h4 := iconRedraw_shown h h3 true
    refine ⟨_, rfl, h4.1, fun screen hs => ?_⟩
    exact h4.2 screen ((List.mem_append.1 hs).resolve_left (hes screen))
  · exact ⟨_, rfl, iconRedraw_shown h h2 _⟩

/-! ## Runs -/

theorem iconTurns_show {v : IconVars α} (hv : IconFramed l v) (countStart : UInt32)
    (ts : List IconTurn) :
    ∀ screen, IconEvent.draw screen ∈ iconTurns s countStart ts v → screen.ShowsSelected := by
  induction ts generalizing v with
  | nil => exact fun _ hs => absurd hs List.not_mem_nil
  | cons t ts ih =>
    obtain ⟨p, hturn, hp, hshows⟩ := iconTurn_shown h hv countStart t
    intro screen hs
    simp only [iconTurns, hturn] at hs
    rcases List.mem_append.1 hs with hs | hs
    · exact hshows screen hs
    · exact ih hp screen hs

end

/-! ## Top theorem -/

/-- **The icon menu.** Whatever is pressed, for however long: the selected icon is
in a bay of every screen exactly when it begins as one of the first three. -/
theorem iconMenu_shows_iff {s : Icons α φ δ} {l : List α} (h : IconsOf s l)
    {selectedIcon : Option α} {i : Nat} (hi : i < l.length)
    (hselected : selectedIcon = l[i]? ∨ selectedIcon = none ∧ i = 0) :
    (∀ temp iconTimeRemain timedOut countStart ts screen,
      IconEvent.draw screen ∈
        iconMenu s ⟨temp, iconTimeRemain, timedOut, selectedIcon, none, none⟩ countStart ts →
      screen.ShowsSelected) ↔ i < 3 := by
  have hfirst : s.firstIcon = l[0]? := by rw [h.first, List.head?_eq_getElem?]
  have hstart : (if selectedIcon = none then s.firstIcon else selectedIcon) = some l[i] := by
    rw [← List.getElem?_eq_getElem hi]
    rcases hselected with hs | ⟨hs, rfl⟩
    · rw [if_neg (by rw [hs, List.getElem?_eq_getElem hi]; exact Option.some_ne_none _), hs]
    · rw [if_pos hs, hfirst]
  constructor
  · intro hall
    obtain ⟨bay, hbay, hsel⟩ := hall 1 0 false 0 [] _ (List.mem_append_left _ List.mem_cons_self)
    obtain ⟨x, hx, rfl⟩ := List.mem_map.1 hbay
    have hix : l[i]? = some x := by
      rw [List.getElem?_eq_getElem hi, ← hstart]
      rw [iconBay_icon] at hsel
      exact hsel
    have hx : x ∈ front (iconLinks s).next 3 l[0]? := hfirst ▸ hx
    have hmem := (mem_front h.chain hix).1 hx
    omega
  · intro hlt temp iconTimeRemain timedOut countStart ts screen hs
    have hdraw := draw_window h (v := ⟨temp, iconTimeRemain, timedOut, selectedIcon, none, none⟩)
      (w := ⟨l[0], l[i]⟩) (by rw [if_pos rfl, hfirst, List.getElem?_eq_getElem]) hstart
      ⟨0, i, List.getElem?_eq_getElem _, List.getElem?_eq_getElem hi, Nat.zero_le _, by omega⟩
    rcases List.mem_append.1 hs with hs | hs
    · exact hdraw.2 screen hs
    · exact iconTurns_show h hdraw.1 countStart ts screen hs

/-- Five icons that have nothing in them but their places. -/
def five : Option (Icons Nat Unit Unit) :=
  addIcons 5 ⟨none, fun _ => ⟨0, [], none, (), none, none⟩⟩ (List.range 5)

theorem iconMenu_shows_iff_five : ∃ s, five = some s ∧
    ((∀ temp iconTimeRemain timedOut countStart ts screen,
      IconEvent.draw screen ∈
        iconMenu s ⟨temp, iconTimeRemain, timedOut, some 2, none, none⟩ countStart ts →
      screen.ShowsSelected) ↔ 2 < 3) := by
  have hnodup : ([] ++ List.range 5).Nodup := by decide
  have hfuel : ([] ++ List.range 5).length ≤ 5 := by decide
  obtain ⟨s, hs, h⟩ := icons_addIcons
    (iconsOf_empty (⟨none, fun _ => ⟨0, [], none, (), none, none⟩⟩ : Icons Nat Unit Unit) rfl)
    hnodup hfuel
  exact ⟨s, hs, iconMenu_shows_iff h (by decide) (.inl (by decide))⟩

end Gentoox.Menu
