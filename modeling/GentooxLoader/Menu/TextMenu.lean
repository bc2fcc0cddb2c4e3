import GentooxLoader.Base.Chains
import Mathlib.Data.UInt
import Mathlib.Logic.Function.Basic

/-!
# Text menus (menu/textmenu/TextMenu.c)

A menu is a chain of items.  `TextMenu` draws `visibleCount` of them from the
first visible one on and moves that one with the selection.  Items are known by
their addresses `α`; a function pointer is a `φ`, what it is called with a `δ`.

What a turn of the event loop gets from outside is in a `Turn`: the button that
answers, the clock, and what a function that is called leaves in the globals.
What the loop does that can be seen are the screens it draws and its calls.

    menu_addItems         TextMenuAddItem, any number of times, makes a menu
    redraw_sound          one draw of a window with the selection in it
    turn_sound            a turn keeps the selection in the window
    textMenu_shows_iff    the selection is on every screen ↔ it begins in the window
-/

namespace Gentoox.Menu

open Chains

/-! ## Algorithm -/

structure TextMenuItem (α φ δ : Type) where
  szCaption : List UInt8
  functionPtr : Option φ
  functionDataPtr : δ
  functionLeftPtr : Option φ
  functionRightPtr : Option φ
  functionLeftDataPtr : δ
  functionRightDataPtr : δ
  previousMenuItem : Option α
  nextMenuItem : Option α

structure TextMenu (α : Type) where
  szCaption : List UInt8
  firstMenuItem : Option α
  timeout : UInt32
  longTitle : Bool
  visibleCount : Int

variable {α φ δ : Type} [DecidableEq α]

/-- The walk to the last item needs as much fuel as there are items. -/
def textMenuAddItem (fuel : Nat) (menu : TextMenu α) (items : α → TextMenuItem α φ δ)
    (newMenuItem : α) : Option (TextMenu α × (α → TextMenuItem α φ δ)) :=
  (lastOf (fun a => (items a).nextMenuItem) fuel menu.firstMenuItem none).map fun
  | none =>
    ({ menu with firstMenuItem := some newMenuItem },
      Function.update items newMenuItem
        { items newMenuItem with nextMenuItem := none, previousMenuItem := none })
  | some currentMenuItem =>
    let items := Function.update items currentMenuItem
      { items currentMenuItem with nextMenuItem := some newMenuItem }
    (menu, Function.update items newMenuItem
      { items newMenuItem with nextMenuItem := none, previousMenuItem := some currentMenuItem })

/-- A title of more than 20 characters goes over several lines. -/
def breakTitle (charsSinceNewline : Nat) : List UInt8 → List UInt8
  | [] => []
  | c :: cs =>
    if charsSinceNewline + 1 ≥ 21 then 0x0a :: 0x0a :: c :: breakTitle 1 cs
    else c :: breakTitle (charsSinceNewline + 1) cs

structure Row (α : Type) where
  item : α
  caption : List UInt8
  attr : UInt32

/-- What `TextMenuDraw` puts on the screen, and the selection it was told. -/
structure Screen (α : Type) where
  title : List UInt8
  remaining : Option Int
  rows : List (Row α)
  selected : Option α

/-- The globals and the local variables of the event loop. -/
structure Vars (α : Type) where
  temp : UInt32
  timeRemain : Int
  visibleCount : Int
  breakOutOfMenu : Bool
  firstVisibleMenuItem : Option α
  selectedMenuItem : Option α

def TextMenu.count (menu : TextMenu α) : Int :=
  if menu.visibleCount = 0 then 8 else menu.visibleCount

def menuRow (items : α → TextMenuItem α φ δ) (selectedItem : Option α) (item : α) : Row α :=
  ⟨item, (items item).szCaption, if some item = selectedItem then 0xffef37 else 0xffffff⟩

inductive Field where
  | functionPtr | functionLeftPtr | functionRightPtr
deriving DecidableEq

inductive Event (α φ δ : Type) where
  | draw (screen : Screen α)
  | call (item : α) (field : Field) (function : φ) (data : δ)

/-- `TextMenuDraw` sets the global `visibleCount` anew. -/
def textMenuDraw (menu : TextMenu α) (items : α → TextMenuItem α φ δ) (v : Vars α) :
    Vars α × List (Event α φ δ) :=
  let screen : Screen α :=
    { title := if menu.longTitle then breakTitle 0 menu.szCaption else menu.szCaption
      remaining := if v.temp ≠ 0 then some v.timeRemain else none
      rows := (front (fun a => (items a).nextMenuItem) menu.count.toNat v.firstVisibleMenuItem).map
        (menuRow items v.selectedMenuItem)
      selected := v.selectedMenuItem }
  ({ v with visibleCount := menu.count }, [.draw screen])

/-- A and START do the same, so do B and BACK. -/
inductive Button where
  | up | down | select | left | right | leave
deriving DecidableEq

/-- The globals of the menus as something else leaves them. -/
structure Globals where
  breakOutOfMenu : Bool
  temp : UInt32
  timeRemain : Int
  visibleCount : Int

/-- The first button that answers, the clock, and the effect of a call. -/
structure Turn where
  button : Option Button
  now : UInt32
  after : Globals

inductive Outcome (α : Type) where
  | running (v : Vars α)
  | returned
  /-- A NULL item is read. -/
  | fault

def MENU_TIMEWAIT : Nat := 5

section
variable (menu : TextMenu α) (items : α → TextMenuItem α φ δ)

/-- The end of a turn: the time that is left is drawn when it has changed. -/
def timer (countStart now : UInt32) (v : Vars α) : Outcome α × List (Event α φ δ) :=
  if v.temp ≠ 0 then
    let temp := now - countStart
    let timeRemain : Int := MENU_TIMEWAIT - (temp / 0x369E99).toNat
    let v' := { v with temp := temp, timeRemain := timeRemain }
    if v.timeRemain ≠ timeRemain then
      let p := textMenuDraw menu items v'
      (.running p.1, p.2)
    else (.running v', [])
  else (.running v, [])

/-- A turn goes on to its end unless the menu was left. -/
def andThen (p : Outcome α × List (Event α φ δ)) (f : Vars α → Outcome α × List (Event α φ δ)) :
    Outcome α × List (Event α φ δ) :=
  match p.1 with
  | .running v => ((f v).1, p.2 ++ (f v).2)
  | out => (out, p.2)

def redraw (v : Vars α) : Outcome α × List (Event α φ δ) :=
  let p := textMenuDraw menu items v
  (.running p.1, p.2)

def pressUp (v : Vars α) : Outcome α × List (Event α φ δ) :=
  let v := { v with temp := 0 }
  match v.selectedMenuItem with
  | none => (.fault, [])
  | some selected =>
    match (items selected).previousMenuItem with
    | none => (.running v, [])
    | some previous =>
      redraw menu items
        { v with
          firstVisibleMenuItem :=
            if v.firstVisibleMenuItem = some selected then some previous
            else v.firstVisibleMenuItem
          selectedMenuItem := some previous }

def pressDown (v : Vars α) : Outcome α × List (Event α φ δ) :=
  let v := { v with temp := 0 }
  match v.selectedMenuItem with
  | none => (.fault, [])
  | some selected =>
    match (items selected).nextMenuItem with
    | none => (.running v, [])
    | some next =>
      match v.firstVisibleMenuItem with
      | none => (.fault, [])
      | some first =>
        let lastVisibleMenuItem :=
          ahead (fun a => (items a).nextMenuItem) (v.visibleCount - 1).toNat first
        redraw menu items
          { v with
            firstVisibleMenuItem :=
              if selected = lastVisibleMenuItem then (items first).nextMenuItem else some first
            selectedMenuItem := some next }

/-- The globals as a function that was called leaves them. -/
def Vars.leftBy (v : Vars α) (after : Globals) : Vars α :=
  { v with
    temp := after.temp
    timeRemain := after.timeRemain
    visibleCount := after.visibleCount
    breakOutOfMenu := after.breakOutOfMenu }

/-- The 'quit the menu' flag is looked at, and taken down. -/
def quitOrRedraw (v : Vars α) : Outcome α × List (Event α φ δ) :=
  if v.breakOutOfMenu then (.returned, []) else redraw menu items v

def pressSelect (after : Globals) (v : Vars α) : Outcome α × List (Event α φ δ) :=
  let v := { v with temp := 0 }
  match v.selectedMenuItem with
  | none => (.fault, [])
  | some selected =>
    match (items selected).functionPtr with
    | none => quitOrRedraw menu items v
    | some f =>
      let p := quitOrRedraw menu items (v.leftBy after)
      (p.1, .call selected .functionPtr f (items selected).functionDataPtr :: p.2)

/-- Left and right look at the flag only behind a call. -/
def pressSide (field : Field) (function : TextMenuItem α φ δ → Option φ)
    (data : TextMenuItem α φ δ → δ) (after : Globals) (v : Vars α) :
    Outcome α × List (Event α φ δ) :=
  let v := { v with temp := 0 }
  match v.selectedMenuItem with
  | none => (.fault, [])
  | some selected =>
    match function (items selected) with
    | none => redraw menu items v
    | some f =>
      let p := quitOrRedraw menu items (v.leftBy after)
      (p.1, .call selected field f (data (items selected)) :: p.2)

def pressLeft : Globals → Vars α → Outcome α × List (Event α φ δ) :=
  pressSide menu items .functionLeftPtr (·.functionLeftPtr) (·.functionLeftDataPtr)

def pressRight : Globals → Vars α → Outcome α × List (Event α φ δ) :=
  pressSide menu items .functionRightPtr (·.functionRightPtr) (·.functionRightDataPtr)

/-- What a turn does about the buttons; the time is up after `MENU_TIMEWAIT` seconds. -/
def buttons (t : Turn) (v : Vars α) : Outcome α × List (Event α φ δ) :=
  if t.button = some .up then pressUp menu items v
  else if t.button = some .down then pressDown menu items v
  else if t.button = some .select ∨ v.temp > 0x369E99 * 5 then pressSelect menu items t.after v
  else if t.button = some .left then pressLeft menu items t.after v
  else if t.button = some .right then pressRight menu items t.after v
  else if t.button = some .leave then (.returned, [])
  else (.running v, [])

/-- One turn of the event loop. -/
def turn (countStart : UInt32) (t : Turn) (v : Vars α) : Outcome α × List (Event α φ δ) :=
  andThen (buttons menu items t v) (timer menu items countStart t.now)

/-- What is seen of the event loop along its turns. -/
def turns (countStart : UInt32) : List Turn → Vars α → List (Event α φ δ)
  | [], _ => []
  | t :: ts, v =>
    let p := turn menu items countStart t v
    p.2 ++ match p.1 with
      | .running v => turns countStart ts v
      | _ => []

/-- `TextMenu`; `found` are the globals as it finds them. -/
def textMenu (selectedItem : Option α) (found : Globals) (countStart : UInt32) (ts : List Turn) :
    List (Event α φ δ) :=
  let v : Vars α :=
    { temp := menu.timeout
      timeRemain := found.timeRemain
      visibleCount := found.visibleCount
      breakOutOfMenu := found.breakOutOfMenu
      firstVisibleMenuItem := menu.firstMenuItem
      selectedMenuItem := if selectedItem = none then menu.firstMenuItem else selectedItem }
  let p := textMenuDraw menu items v
  p.2 ++ turns menu items countStart ts p.1

end

/-! ## Menus -/

def links (items : α → TextMenuItem α φ δ) : Links α where
  next a := (items a).nextMenuItem
  prev a := (items a).previousMenuItem

/-- The items of `l` are what the menu consists of. -/
structure MenuOf (menu : TextMenu α) (items : α → TextMenuItem α φ δ) (l : List α) : Prop where
  first : menu.firstMenuItem = l.head?
  chain : IsChain (links items) l

omit [DecidableEq α] in
theorem menuOf_empty (menu : TextMenu α) (items : α → TextMenuItem α φ δ)
    (h : menu.firstMenuItem = none) : MenuOf menu items [] :=
  ⟨h, isChain_nil _⟩

/-- Storing an item's links. -/
theorem links_append (items : α → TextMenuItem α φ δ) (last : Option α) (x : α) :
    links (Function.update (match last with
      | none => items
      | some c => Function.update items c { items c with nextMenuItem := some x }) x
      { (match last with
        | none => items
        | some c => Function.update items c { items c with nextMenuItem := some x }) x with
        nextMenuItem := none, previousMenuItem := last }) = (links items).append last x := by
  cases last with
  | none =>
    simp only [links, Links.append, Links.mk.injEq]
    constructor <;> funext a <;> by_cases hax : a = x <;> simp [hax]
  | some c =>
    simp only [links, Links.append, Links.mk.injEq]
    constructor <;> funext a <;> by_cases hax : a = x <;> by_cases hac : a = c <;>
      simp_all [Function.update_apply]

/-- The new item comes at the end. -/
theorem menu_addItem {menu : TextMenu α} {items : α → TextMenuItem α φ δ} {l : List α}
    (h : MenuOf menu items l) {x : α} (hx : x ∉ l) {fuel : Nat} (hfuel : l.length ≤ fuel) :
    ∃ menu' items', textMenuAddItem fuel menu items x = some (menu', items') ∧
      MenuOf menu' items' (l ++ [x]) ∧ menu'.visibleCount = menu.visibleCount := by
  have hlast := lastOf_chain h.chain hfuel
  have hchain := h.chain.append hx
  rw [← h.first] at hlast
  rw [← links_append] at hchain
  unfold textMenuAddItem
  rw [show lastOf (fun a => (items a).nextMenuItem) fuel menu.firstMenuItem none = _ from hlast]
  cases hl : l.getLast? with
  | none =>
    obtain rfl : l = [] := List.getLast?_eq_none_iff.1 hl
    exact ⟨_, _, rfl, ⟨rfl, hchain⟩, rfl⟩
  | some c =>
    rw [hl] at hchain
    refine ⟨_, _, rfl, ⟨?_, hchain⟩, rfl⟩
    rw [h.first, List.head?_append_of_ne_nil _ (List.ne_nil_of_mem (List.mem_of_getLast? hl))]

/-- `TextMenuAddItem` for one item after the other. -/
def addItems (fuel : Nat) (menu : TextMenu α) (items : α → TextMenuItem α φ δ) (xs : List α) :
    Option (TextMenu α × (α → TextMenuItem α φ δ)) :=
  xs.foldlM (fun p x => textMenuAddItem fuel p.1 p.2 x) (menu, items)

theorem menu_addItems {menu : TextMenu α} {items : α → TextMenuItem α φ δ} {l xs : List α}
    (h : MenuOf menu items l) (hxs : (l ++ xs).Nodup) {fuel : Nat} (hfuel : (l ++ xs).length ≤ fuel) :
    ∃ menu' items', addItems fuel menu items xs = some (menu', items') ∧
      MenuOf menu' items' (l ++ xs) ∧ menu'.visibleCount = menu.visibleCount := by
  induction xs generalizing menu items l with
  | nil => exact ⟨menu, items, rfl, by rwa [List.append_nil], rfl⟩
  | cons x xs ih =>
    have hx : x ∉ l := fun hmem =>
      (List.nodup_append.1 hxs).2.2 x hmem x List.mem_cons_self rfl
    have hlen : l.length ≤ fuel := by
      rw [List.length_append] at hfuel
      omega
    obtain ⟨menu1, items1, hadd, h1, hcount⟩ := menu_addItem h hx hlen
    rw [List.append_cons] at hxs hfuel ⊢
    obtain ⟨menu2, items2, hadds, h2, hcount2⟩ := ih h1 hxs hfuel
    refine ⟨menu2, items2, ?_, h2, hcount2.trans hcount⟩
    show (textMenuAddItem fuel menu items x).bind _ = _
    rw [hadd]
    exact hadds

/-! ## Draws -/

/-- The item that is selected is among those drawn. -/
def Screen.ShowsSelected (s : Screen α) : Prop := ∃ r ∈ s.rows, s.selected = some r.item

/-- The window the menu shows has the selection in it. -/
def Framed (menu : TextMenu α) (l : List α) (v : Vars α) : Prop :=
  ∃ w : Window α, v.firstVisibleMenuItem = some w.first ∧ v.selectedMenuItem = some w.selected ∧
    Inside l menu.count.toNat w

/-- The same, and the global is this menu's, as after every draw. -/
def Ready (menu : TextMenu α) (l : List α) (v : Vars α) : Prop :=
  Framed menu l v ∧ v.visibleCount = menu.count

/-- The loop goes on in such a state or returns, and all its screens show the selection. -/
structure Sound (menu : TextMenu α) (l : List α) (p : Outcome α × List (Event α φ δ)) : Prop where
  ready : ∀ v, p.1 = .running v → Ready menu l v
  safe : p.1 ≠ .fault
  shows : ∀ s, Event.draw s ∈ p.2 → s.ShowsSelected

section
variable {menu : TextMenu α} {items : α → TextMenuItem α φ δ} {l : List α} (h : MenuOf menu items l)
include h

theorem redraw_sound {v : Vars α} (hv : Framed menu l v) : Sound menu l (redraw menu items v) := by
  refine ⟨?_, fun hf => (by cases hf), ?_⟩
  · rintro v' hv'
    cases hv'
    exact ⟨hv, rfl⟩
  · intro s hs
    obtain ⟨w, hfirst, hselected, hin⟩ := hv
    cases List.mem_singleton.1 hs
    refine ⟨menuRow items v.selectedMenuItem w.selected, List.mem_map_of_mem ?_, hselected⟩
    rw [hfirst]
    exact hin.mem_front h.chain

omit h [DecidableEq α] in
theorem running_sound {v : Vars α} (hv : Ready menu l v) :
    Sound (φ := φ) (δ := δ) menu l (.running v, []) where
  ready := by
    rintro v' hv'
    cases hv'
    exact hv
  safe hf := by cases hf
  shows _ hs := absurd hs List.not_mem_nil

theorem pressUp_sound {v : Vars α} (hv : Ready menu l v) : Sound menu l (pressUp menu items v) := by
  obtain ⟨⟨w, hfirst, hselected, hin⟩, hcount⟩ := hv
  simp only [pressUp, hselected]
  cases hp : (items w.selected).previousMenuItem with
  | none => exact running_sound ⟨⟨w, hfirst, rfl, hin⟩, hcount⟩
  | some p =>
    apply redraw_sound h
    simp only [hfirst, Option.some.injEq]
    by_cases hws : w.first = w.selected
    · rw [if_pos hws]
      exact ⟨⟨p, p⟩, rfl, rfl, hin.back_first h.chain hp⟩
    · rw [if_neg hws]
      exact ⟨⟨w.first, p⟩, rfl, rfl, hin.back_inner h.chain hws hp⟩

theorem pressDown_sound {v : Vars α} (hv : Ready menu l v) :
    Sound menu l (pressDown menu items v) := by
  obtain ⟨⟨w, hfirst, hselected, hin⟩, hcount⟩ := hv
  simp only [pressDown, hselected]
  cases hn : (items w.selected).nextMenuItem with
  | none => exact running_sound ⟨⟨w, hfirst, rfl, hin⟩, hcount⟩
  | some n =>
    simp only [hfirst]
    apply redraw_sound h
    have hv : (v.visibleCount - 1).toNat = menu.count.toNat - 1 := by
      rw [hcount]
      omega
    rw [hv]
    by_cases hlast : w.selected = ahead (fun a => (items a).nextMenuItem) (menu.count.toNat - 1) w.first
    · rw [if_pos hlast]
      obtain ⟨g, hg, hgin⟩ := hin.forth_last h.chain hlast hn
      exact ⟨⟨g, n⟩, hg, rfl, hgin⟩
    · rw [if_neg hlast]
      exact ⟨⟨w.first, n⟩, rfl, rfl, hin.forth_inner h.chain hlast hn⟩

theorem quitOrRedraw_sound {v : Vars α} (hv : Framed menu l v) :
    Sound menu l (quitOrRedraw menu items v) := by
  unfold quitOrRedraw
  split
  · exact ⟨fun _ hr => (by cases hr), fun hf => (by cases hf), fun _ hs => absurd hs List.not_mem_nil⟩
  · exact redraw_sound h hv

omit h [DecidableEq α] in
/-- A call draws nothing itself. -/
theorem Sound.call {p : Outcome α × List (Event α φ δ)} (hp : Sound menu l p) (item : α)
    (field : Field) (f : φ) (d : δ) : Sound menu l (p.1, .call item field f d :: p.2) where
  ready := hp.ready
  safe := hp.safe
  shows s hs := hp.shows s ((List.mem_cons.1 hs).resolve_left fun he => by cases he)

theorem pressSelect_sound {v : Vars α} (hv : Ready menu l v) (after : Globals) :
    Sound menu l (pressSelect menu items after v) := by
  obtain ⟨⟨w, hfirst, hselected, hin⟩, hcount⟩ := hv
  simp only [pressSelect, hselected]
  cases (items w.selected).functionPtr with
  | none => exact quitOrRedraw_sound h ⟨w, hfirst, rfl, hin⟩
  | some f =>
    refine Sound.call (quitOrRedraw_sound h ?_) ..
    exact ⟨w, hfirst, rfl, hin⟩

theorem pressSide_sound {v : Vars α} (hv : Ready menu l v) (field : Field)
    (function : TextMenuItem α φ δ → Option φ) (data : TextMenuItem α φ δ → δ) (after : Globals) :
    Sound menu l (pressSide menu items field function data after v) := by
  obtain ⟨⟨w, hfirst, hselected, hin⟩, hcount⟩ := hv
  simp only [pressSide, hselected]
  cases function (items w.selected) with
  | none => exact redraw_sound h ⟨w, hfirst, rfl, hin⟩
  | some f =>
    refine Sound.call (quitOrRedraw_sound h ?_) ..
    exact ⟨w, hfirst, rfl, hin⟩

theorem timer_sound {v : Vars α} (hv : Ready menu l v) (countStart now : UInt32) :
    Sound menu l (timer menu items countStart now v) := by
  simp only [timer]
  split
  · split
    · exact redraw_sound h hv.1
    · exact running_sound hv
  · exact running_sound hv

omit h [DecidableEq α] in
theorem Sound.andThen {p : Outcome α × List (Event α φ δ)} (hp : Sound menu l p)
    {f : Vars α → Outcome α × List (Event α φ δ)} (hf : ∀ v, Ready menu l v → Sound menu l (f v)) :
    Sound menu l (andThen p f) := by
  unfold Menu.andThen
  cases hout : p.1 with
  | running v =>
    have hv := hf v (hp.ready v hout)
    refine ⟨hv.ready, hv.safe, fun s hs => ?_⟩
    rcases List.mem_append.1 hs with hs | hs
    · exact hp.shows s hs
    · exact hv.shows s hs
  | returned => exact ⟨fun _ hr => (by cases hr), fun hr => (by cases hr), hp.shows⟩
  | fault => exact absurd hout hp.safe

theorem buttons_sound {v : Vars α} (hv : Ready menu l v) (t : Turn) :
    Sound menu l (buttons menu items t v) := by
  unfold buttons
  split
  · exact pressUp_sound h hv
  split
  · exact pressDown_sound h hv
  split
  · exact pressSelect_sound h hv t.after
  split
  · exact pressSide_sound h hv ..
  split
  · exact pressSide_sound h hv ..
  split
  · exact ⟨fun _ hr => (by cases hr), fun hr => (by cases hr), fun _ hs => absurd hs List.not_mem_nil⟩
  · exact running_sound hv

/-- A turn keeps the selection in the window. -/
theorem turn_sound {v : Vars α} (hv : Ready menu l v) (countStart : UInt32) (t : Turn) :
    Sound menu l (turn menu items countStart t v) :=
  (buttons_sound h hv t).andThen fun _ hv' => timer_sound h hv' countStart t.now

/-! ## Runs -/

theorem turns_show {v : Vars α} (hv : Ready menu l v) (countStart : UInt32) (ts : List Turn) :
    ∀ s, Event.draw s ∈ turns menu items countStart ts v → s.ShowsSelected := by
  induction ts generalizing v with
  | nil => exact fun _ hs => absurd hs List.not_mem_nil
  | cons t ts ih =>
    intro s hs
    have hturn := turn_sound h hv countStart t
    simp only [turns] at hs
    rcases List.mem_append.1 hs with hs | hs
    · exact hturn.shows s hs
    · cases hout : (turn menu items countStart t v).1 with
      | running v' =>
        rw [hout] at hs
        exact ih (hturn.ready v' hout) s hs
      | returned =>
        rw [hout] at hs
        exact absurd hs List.not_mem_nil
      | fault => exact absurd hout hturn.safe

end

/-! ## Top theorem -/

/-- **Text menus.** Whatever buttons are pressed, for however long: the selected
item is on every screen exactly when it begins as one of the first `visibleCount`
items. -/
theorem textMenu_shows_iff {menu : TextMenu α} {items : α → TextMenuItem α φ δ} {l : List α}
    (h : MenuOf menu items l) {selectedItem : Option α} {i : Nat} (hi : i < l.length)
    (hselected : selectedItem = l[i]? ∨ selectedItem = none ∧ i = 0) :
    (∀ found countStart ts s, Event.draw s ∈ textMenu menu items selectedItem found countStart ts →
      s.ShowsSelected) ↔ (i : Int) < menu.count := by
  have hfirst : menu.firstMenuItem = l[0]? := by rw [h.first, List.head?_eq_getElem?]
  have hstart : (if selectedItem = none then menu.firstMenuItem else selectedItem) = some l[i] := by
    rw [← List.getElem?_eq_getElem hi]
    rcases hselected with hs | ⟨hs, rfl⟩
    · rw [if_neg (by rw [hs, List.getElem?_eq_getElem hi]; exact Option.some_ne_none _), hs]
    · rw [if_pos hs, hfirst]
  constructor
  · intro hall
    obtain ⟨r, hr, hrsel⟩ := hall ⟨false, 0, 0, 0⟩ 0 [] _ (List.mem_append_left _ List.mem_cons_self)
    obtain ⟨x, hx, rfl⟩ := List.mem_map.1 hr
    have hix : l[i]? = some x := by
      rw [List.getElem?_eq_getElem hi, ← hstart]
      exact hrsel
    have hx : x ∈ front (links items).next menu.count.toNat l[0]? := hfirst ▸ hx
    have hmem := (mem_front h.chain hix).1 hx
    omega
  · intro hlt found countStart ts s hs
    have hframed : ∀ v : Vars α, v.firstVisibleMenuItem = menu.firstMenuItem →
        v.selectedMenuItem = some l[i] → Framed menu l v := by
      intro v hvf hvs
      refine ⟨⟨l[0], l[i]⟩, ?_, hvs, 0, i, List.getElem?_eq_getElem _, List.getElem?_eq_getElem hi,
        Nat.zero_le _, by omega⟩
      rw [hvf, hfirst, List.getElem?_eq_getElem]
    have hdraw := fun v hvf hvs => redraw_sound h (v := v) (hframed v hvf hvs)
    simp only [textMenu] at hs
    rcases List.mem_append.1 hs with hs | hs
    · exact (hdraw _ rfl hstart).shows s hs
    · exact turns_show h ((hdraw _ rfl hstart).ready _ rfl) countStart ts s hs

/-- A menu of nine items. -/
def nine : Option (TextMenu Nat × (Nat → TextMenuItem Nat Unit Unit)) :=
  addItems 9 ⟨[], none, 0, false, 0⟩ (fun _ => ⟨[], some (), (), none, none, (), (), none, none⟩)
    (List.range 9)

theorem textMenu_shows_iff_nine : ∃ menu items, nine = some (menu, items) ∧
    ((∀ found countStart ts s, Event.draw s ∈ textMenu menu items (some 3) found countStart ts →
      s.ShowsSelected) ↔ ((3 : Nat) : Int) < menu.count) := by
  have hnodup : ([] ++ List.range 9).Nodup := by decide
  have hfuel : ([] ++ List.range 9).length ≤ 9 := by decide
  obtain ⟨menu, items, hnine, h, -⟩ := menu_addItems
    (menuOf_empty (⟨[], none, 0, false, 0⟩ : TextMenu Nat)
      (fun _ => (⟨[], some (), (), none, none, (), (), none, none⟩ : TextMenuItem Nat Unit Unit)) rfl)
    hnodup hfuel
  exact ⟨menu, items, hnine, textMenu_shows_iff h (by decide) (.inl (by decide))⟩

/-- The ninth item is selected, and the first screen ends with the eighth. -/
theorem nine_not_shown : ∃ menu items, nine = some (menu, items) ∧
    ∃ s, Event.draw s ∈ textMenu menu items (some 8) ⟨false, 0, 0, 0⟩ 0 [] ∧
      s.selected = some 8 ∧ s.rows.map Row.item = List.range 8 ∧ ¬ s.ShowsSelected := by
  have hrows : ∀ rows : List (Row Nat), rows.map Row.item = List.range 8 →
      ¬ ∃ r ∈ rows, some 8 = some r.item := by
    rintro rows hmap ⟨r, hr, hsel⟩
    have hmem : r.item ∈ List.range 8 := hmap ▸ List.mem_map_of_mem hr
    rw [← Option.some.inj hsel] at hmem
    exact absurd hmem (by decide)
  exact ⟨_, _, rfl, _, List.mem_cons_self, rfl, by decide, hrows _ (by decide)⟩

end Gentoox.Menu
