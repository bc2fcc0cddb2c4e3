import GentooxLoader.Config.Entries
import GentooxLoader.Heap.Small
import GentooxLoader.Menu.Calls

/-!
# The boot menu (menu/actions/MenuActions.c)

`DrawBootMenu` makes a menu item for each entry of a configuration.  It asks `malloc`
for the four bytes of a pointer, and clears four bytes.  The block is larger than
that, and so the item fits; but its left and right functions are what the memory
happened to hold.

    bootItem_outside          a new item is stored into up to its left function
    linkItem_menuOf           `TextMenuAddItem` in memory puts an item behind the others
    Made.turn                 a turn of the loop: one more item
    addEntries_made           the loop: the items are in the free clusters, in order
    Made.calls_iff            only what was stored is called ↔ the other words were 0
    drawBootMenu_calls_iff    the same of `DrawBootMenu`, where there is room
-/

namespace Gentoox.Menu

open Lib Chains
open Config (ConfigEntry Chained offsetTitle)
open Heap (Allocator freeClusters inCluster pointer toNat_pointer)

/-! ## Algorithm -/

/-- A pointer in memory, where 0 is NULL. -/
def pointerAt (ram : Nat → UInt8) (a : Nat) : Option UInt32 :=
  if longAt ram a = 0 then none else some (longAt ram a)

/-- The structures are packed. -/
def offsetFunction : Nat := 201
def offsetFunctionData : Nat := 205
def offsetLeft : Nat := 209
def offsetRight : Nat := 213
def offsetLeftData : Nat := 217
def offsetRightData : Nat := 221
def offsetPrevious : Nat := 225
def offsetNext : Nat := 229

def offsetFirst : Nat := 201
def offsetTimeout : Nat := 205
def offsetLongTitle : Nat := 209
def offsetVisible : Nat := 213

/-- `sizeof(TEXTMENU)` -/
def menuSize : UInt32 := 217

/-- `sizeof(TEXTMENUITEM*)` -/
def pointerSize : UInt32 := 4

/-- The item at an address, whatever the memory holds there. -/
def itemAt (ram : Nat → UInt8) (item : UInt32) : TextMenuItem UInt32 UInt32 UInt32 where
  szCaption := cstr (Cells.read ram item.toNat 201)
  functionPtr := pointerAt ram (item.toNat + offsetFunction)
  functionDataPtr := longAt ram (item.toNat + offsetFunctionData)
  functionLeftPtr := pointerAt ram (item.toNat + offsetLeft)
  functionRightPtr := pointerAt ram (item.toNat + offsetRight)
  functionLeftDataPtr := longAt ram (item.toNat + offsetLeftData)
  functionRightDataPtr := longAt ram (item.toNat + offsetRightData)
  previousMenuItem := pointerAt ram (item.toNat + offsetPrevious)
  nextMenuItem := pointerAt ram (item.toNat + offsetNext)

def menuAt (ram : Nat → UInt8) (menu : UInt32) : TextMenu UInt32 where
  szCaption := cstr (Cells.read ram menu.toNat 201)
  firstMenuItem := pointerAt ram (menu.toNat + offsetFirst)
  timeout := longAt ram (menu.toNat + offsetTimeout)
  longTitle := longAt ram (menu.toNat + offsetLongTitle) ≠ 0
  visibleCount := signed (longAt ram (menu.toNat + offsetVisible))

/-- Where the pointer to a new item goes. -/
def linkAt (menu : UInt32) (currentMenuItem : Option UInt32) : Nat :=
  match currentMenuItem with
  | none => menu.toNat + offsetFirst
  | some c => c.toNat + offsetNext

/-- The stores of `TextMenuAddItem`. -/
def linkItem (ram : Nat → UInt8) (menu newMenuItem : UInt32) (currentMenuItem : Option UInt32) :
    Nat → UInt8 :=
  let ram := Cells.write ram (linkAt menu currentMenuItem) (le32 newMenuItem)
  let ram := Cells.write ram (newMenuItem.toNat + offsetNext) (le32 0)
  Cells.write ram (newMenuItem.toNat + offsetPrevious) (le32 (currentMenuItem.getD 0))

/-- `TextMenuAddItem` in memory. -/
def addItemAt (fuel : Nat) (ram : Nat → UInt8) (menu newMenuItem : UInt32) :
    Option (Nat → UInt8) :=
  (lastOf (fun a => (itemAt ram a).nextMenuItem) fuel (menuAt ram menu).firstMenuItem none).map
    (linkItem ram menu newMenuItem)

/-- `strncpy` fills up with zeros. -/
def strncpy (src : List UInt8) (count : Nat) : List UInt8 :=
  src.take count ++ List.replicate (count - src.length) 0

section
variable (entries : List ConfigEntry) (addr : Nat → UInt32) (bootMenuEntry : UInt32)

/-- The stores of a turn into the new item; an array for a title is never NULL. -/
def bootItem (e : ConfigEntry) (entry : UInt32) (ram : Nat → UInt8) (menuPtr : UInt32) :
    Nat → UInt8 :=
  let ram := Cells.fill ram menuPtr.toNat 0 4
  let ram := Cells.write ram menuPtr.toNat (strncpy (cstr (Cells.read e.bytes offsetTitle 50)) 50)
  let ram := Cells.write ram (menuPtr.toNat + offsetFunction) (le32 bootMenuEntry)
  Cells.write ram (menuPtr.toNat + offsetFunctionData) (le32 entry)

structure Making where
  heap : Allocator
  defaultMenuItem : Option UInt32

/-- The loop over the entries, from entry `i` on. -/
def addEntries (menu : UInt32) : Nat → Option Nat → Making → Option Making
  | _, none, s => some s
  | 0, some _, _ => none
  | fuel + 1, some i, s => do
    let e := entries.getD i default
    let (menuPtr, heap) ← s.heap.block pointerSize
    let ram := bootItem bootMenuEntry e (addr i) heap.ram menuPtr
    let ram ← addItemAt entries.length ram menu menuPtr
    let defaultMenuItem := if e.isDefault ≠ 0 then some menuPtr else s.defaultMenuItem
    addEntries menu fuel e.nextConfigEntry ⟨{ heap with ram := ram }, defaultMenuItem⟩

/-- The first entry from `i` on that is marked. -/
def firstDefault : Nat → Option Nat → Option (Option Nat)
  | _, none => some none
  | 0, some _ => none
  | fuel + 1, some i =>
    let e := entries.getD i default
    if e.isDefault ≠ 0 then some (some i) else firstDefault fuel e.nextConfigEntry

/-- An entry is booted at once, or `TextMenu` runs on a menu. -/
inductive Drawn where
  | boots (entry : Nat)
  | runs (ram : Nat → UInt8) (menu : UInt32) (selectedItem : Option UInt32)

/-- Where a block for the menu or an item is refused, the code goes on at 0x100, which is no
block of the heap; here there is no result then. -/
def drawBootMenu (timedOut : Bool) (heap : Allocator) : Option Drawn :=
  if (entries.getD 0 default).nextConfigEntry = none then some (.boots 0)
  else if timedOut then
    (firstDefault entries entries.length (some 0)).map fun found => .boots (found.getD 0)
  else do
    let (menu, heap) ← heap.block menuSize
    let ram := Cells.fill heap.ram menu.toNat 0 menuSize.toNat
    let ram := Cells.write ram menu.toNat (chars "Boot menu".toList ++ [0])
    let s ← addEntries entries addr bootMenuEntry menu entries.length (some 0)
      ⟨{ heap with ram := ram }, none⟩
    return .runs s.heap.ram menu s.defaultMenuItem

end

/-! ## The words of a new item -/

@[simp] theorem length_strncpy (src : List UInt8) (count : Nat) : (strncpy src count).length = count := by
  unfold strncpy
  rw [List.length_append, List.length_take, List.length_replicate]
  omega

section
variable (bootMenuEntry : UInt32) (e : ConfigEntry) (entry : UInt32) (ram : Nat → UInt8)
  (menuPtr : UInt32)

/-- What `DrawBootMenu` stores in an item ends before its left function. -/
theorem bootItem_outside {i : Nat} (hi : i < menuPtr.toNat ∨ menuPtr.toNat + offsetLeft ≤ i) :
    bootItem bootMenuEntry e entry ram menuPtr i = ram i := by
  unfold offsetLeft at hi
  unfold bootItem offsetFunction offsetFunctionData
  rw [Cells.write_of_outside _ _ (le32 _) i (by rw [length_le32]; omega),
    Cells.write_of_outside _ _ (le32 _) i (by rw [length_le32]; omega),
    Cells.write_of_outside _ _ (strncpy _ _) i (by rw [length_strncpy]; omega),
    Cells.fill_of_outside _ _ _ _ i (by omega)]

theorem bootItem_data : longAt (bootItem bootMenuEntry e entry ram menuPtr)
    (menuPtr.toNat + offsetFunctionData) = entry := longAt_write _ _ _

theorem bootItem_function : longAt (bootItem bootMenuEntry e entry ram menuPtr)
    (menuPtr.toNat + offsetFunction) = bootMenuEntry := by
  unfold bootItem
  rw [longAt_write_of_outside _ (by unfold offsetFunction offsetFunctionData; omega), longAt_write]

end

/-! ## Linking an item in -/

/-- Neither item reaches into the other. -/
def Apart (a b : UInt32) : Prop := a.toNat + 233 ≤ b.toNat ∨ b.toNat + 233 ≤ a.toNat

theorem Apart.symm {a b : UInt32} (h : Apart a b) : Apart b a := Or.symm h

instance : Std.Symm Apart := ⟨fun _ _ => Apart.symm⟩

section
variable {ram : Nat → UInt8} {menu x : UInt32} {l : List UInt32}
  (hsep : (menu :: (l ++ [x])).Pairwise Apart)
include hsep

theorem apart_menu {a : UInt32} (ha : a ∈ l ++ [x]) : Apart menu a :=
  (List.pairwise_cons.1 hsep).1 a ha

theorem apart_new {a : UInt32} (ha : a ∈ l) : Apart a x :=
  (List.pairwise_append.1 (List.pairwise_cons.1 hsep).2).2.2 a ha x (List.mem_singleton_self x)

theorem apart_items {a b : UInt32} (ha : a ∈ l) (hb : b ∈ l) (hab : a ≠ b) : Apart a b :=
  (List.pairwise_append.1 (List.pairwise_cons.1 hsep).2).1.forall ha hb hab

omit hsep in
variable (menu l) in
/-- The link is in the menu or in the last item. -/
theorem linkAt_cases : linkAt menu l.getLast? = menu.toNat + offsetFirst ∧ l = [] ∨
    ∃ c ∈ l, l.getLast? = some c ∧ linkAt menu l.getLast? = c.toNat + offsetNext := by
  cases hl : l.getLast? with
  | none => exact .inl ⟨rfl, List.getLast?_eq_none_iff.1 hl⟩
  | some c => exact .inr ⟨c, List.mem_of_getLast? hl, rfl, rfl⟩

end

/-! ## What linking changes -/

theorem linkItem_next (ram : Nat → UInt8) (menu x : UInt32) (last : Option UInt32) :
    longAt (linkItem ram menu x last) (x.toNat + offsetNext) = 0 := by
  unfold linkItem
  rw [longAt_write_of_outside _ (by rw [length_le32]; unfold offsetNext offsetPrevious; omega),
    longAt_write]

theorem linkItem_previous (ram : Nat → UInt8) (menu x : UInt32) (last : Option UInt32) :
    longAt (linkItem ram menu x last) (x.toNat + offsetPrevious) = last.getD 0 :=
  longAt_write _ _ _

section
variable {ram : Nat → UInt8} {menu x : UInt32} {l : List UInt32}
  (hsep : (menu :: (l ++ [x])).Pairwise Apart)
include hsep

/-- The place of the link is not in the new item. -/
theorem linkAt_apart : linkAt menu l.getLast? + 4 ≤ x.toNat ∨
    x.toNat + 233 ≤ linkAt menu l.getLast? := by
  rcases linkAt_cases menu l with ⟨hat, rfl⟩ | ⟨c, hc, -, hat⟩
  · have hapart := apart_menu hsep (List.mem_singleton_self x)
    unfold Apart at hapart
    unfold offsetFirst at hat
    omega
  · have hapart := apart_new hsep hc
    unfold Apart at hapart
    unfold offsetNext at hat
    omega

variable (ram) in
theorem linkItem_link : longAt (linkItem ram menu x l.getLast?) (linkAt menu l.getLast?) = x := by
  have hat := linkAt_apart hsep
  unfold linkItem offsetNext offsetPrevious
  rw [longAt_write_of_outside _ (by rw [length_le32]; omega),
    longAt_write_of_outside _ (by rw [length_le32]; omega), longAt_write]

omit hsep in
/-- Other words stay. -/
theorem longAt_linkItem {a : Nat} (hlink : a + 4 ≤ linkAt menu l.getLast? ∨
    linkAt menu l.getLast? + 4 ≤ a) (hx : a + 4 ≤ x.toNat + offsetPrevious ∨ x.toNat + 233 ≤ a) :
    longAt (linkItem ram menu x l.getLast?) a = longAt ram a := by
  unfold offsetPrevious at hx
  unfold linkItem offsetNext offsetPrevious
  rw [longAt_write_of_outside _ (by rw [length_le32]; omega),
    longAt_write_of_outside _ (by rw [length_le32]; omega),
    longAt_write_of_outside _ (by rw [length_le32]; omega)]

/-- The words of an item in front of its links. -/
theorem linkItem_item {a : UInt32} (ha : a ∈ l ++ [x]) {o : Nat} (ho : o + 4 ≤ offsetPrevious) :
    longAt (linkItem ram menu x l.getLast?) (a.toNat + o) = longAt ram (a.toNat + o) := by
  have hmenu := apart_menu hsep ha
  have hat := linkAt_apart hsep
  unfold Apart at hmenu
  unfold offsetPrevious at ho
  apply longAt_linkItem
  · rcases List.mem_append.1 ha with hal | hax
    · rcases linkAt_cases menu l with ⟨-, rfl⟩ | ⟨c, hc, -, hlink⟩
      · cases hal
      · rw [hlink]
        unfold offsetNext
        by_cases hac : a = c
        · rw [hac]
          omega
        · have hapart := apart_items hsep hal hc hac
          unfold Apart at hapart
          omega
    · rw [List.mem_singleton.1 hax]
      omega
  · rcases List.mem_append.1 ha with hal | hax
    · have hapart := apart_new hsep hal
      unfold Apart at hapart
      unfold offsetPrevious
      omega
    · rw [List.mem_singleton.1 hax]
      unfold offsetPrevious
      omega

/-- The links of an item that is not the last one. -/
theorem linkItem_links {a : UInt32} (ha : a ∈ l) {o : Nat} (ho : o + 4 ≤ 233)
    (hlast : l.getLast? ≠ some a ∨ o + 4 ≤ offsetNext) :
    longAt (linkItem ram menu x l.getLast?) (a.toNat + o) = longAt ram (a.toNat + o) := by
  have hmenu := apart_menu hsep (List.mem_append_left [x] ha)
  have hnew := apart_new hsep ha
  unfold Apart at hmenu hnew
  apply longAt_linkItem
  · rcases linkAt_cases menu l with ⟨-, rfl⟩ | ⟨c, hc, hend, hlink⟩
    · cases ha
    · rw [hlink]
      unfold offsetNext at hlast ⊢
      by_cases hac : a = c
      · have hbefore := hlast.resolve_left fun hne => hne (hac ▸ hend)
        rw [hac]
        omega
      · have hapart := apart_items hsep ha hc hac
        unfold Apart at hapart
        omega
  · unfold offsetPrevious
    omega

omit hsep in
/-- A byte in none of the items and not in the menu. -/
theorem linkItem_outside {i : Nat} (hmenu : i < menu.toNat ∨ menu.toNat + 217 ≤ i)
    (hitems : ∀ a ∈ l ++ [x], i < a.toNat ∨ a.toNat + 233 ≤ i) :
    linkItem ram menu x l.getLast? i = ram i := by
  have hx := hitems x (List.mem_append_right l (List.mem_singleton_self x))
  have hlink : i < linkAt menu l.getLast? ∨ linkAt menu l.getLast? + 4 ≤ i := by
    rcases linkAt_cases menu l with ⟨hat, -⟩ | ⟨c, hc, -, hat⟩
    · rw [hat]
      unfold offsetFirst
      omega
    · have hin := hitems c (List.mem_append_left [x] hc)
      rw [hat]
      unfold offsetNext
      omega
  unfold linkItem offsetNext offsetPrevious
  rw [Cells.write_of_outside _ _ (le32 _) i (by rw [length_le32]; omega),
    Cells.write_of_outside _ _ (le32 _) i (by rw [length_le32]; omega),
    Cells.write_of_outside _ _ (le32 _) i (by rw [length_le32]; omega)]

end

/-! ## `TextMenuAddItem` in memory -/

theorem pointerAt_of_zero {ram : Nat → UInt8} {a : Nat} (h : longAt ram a = 0) :
    pointerAt ram a = none := if_pos h

theorem pointerAt_of_ne {ram : Nat → UInt8} {a : Nat} {x : UInt32} (h : longAt ram a = x)
    (hx : x ≠ 0) : pointerAt ram a = some x := by
  unfold pointerAt
  rw [h, if_neg hx]

theorem pointerAt_congr {ram ram' : Nat → UInt8} {a : Nat} (h : longAt ram' a = longAt ram a) :
    pointerAt ram' a = pointerAt ram a := by
  unfold pointerAt
  rw [h]

theorem menuAt_first (ram : Nat → UInt8) (menu : UInt32) :
    (menuAt ram menu).firstMenuItem = pointerAt ram (menu.toNat + offsetFirst) := rfl

theorem links_next (ram : Nat → UInt8) (a : UInt32) :
    (links (itemAt ram)).next a = pointerAt ram (a.toNat + offsetNext) := rfl

theorem links_prev (ram : Nat → UInt8) (a : UInt32) :
    (links (itemAt ram)).prev a = pointerAt ram (a.toNat + offsetPrevious) := rfl

theorem itemAt_left (ram : Nat → UInt8) (a : UInt32) :
    (itemAt ram a).functionLeftPtr = pointerAt ram (a.toNat + offsetLeft) := rfl

theorem itemAt_right (ram : Nat → UInt8) (a : UInt32) :
    (itemAt ram a).functionRightPtr = pointerAt ram (a.toNat + offsetRight) := rfl

section
variable {ram ram' : Nat → UInt8} {menu x : UInt32} {l : List UInt32}

/-- A menu is one of the same items where the same links are stored. -/
theorem MenuOf.congr (h : MenuOf (menuAt ram menu) (itemAt ram) l)
    (hmenu : longAt ram' (menu.toNat + offsetFirst) = longAt ram (menu.toNat + offsetFirst))
    (hnext : ∀ a ∈ l, longAt ram' (a.toNat + offsetNext) = longAt ram (a.toNat + offsetNext))
    (hprevious : ∀ a ∈ l,
      longAt ram' (a.toNat + offsetPrevious) = longAt ram (a.toNat + offsetPrevious)) :
    MenuOf (menuAt ram' menu) (itemAt ram') l where
  first := (pointerAt_congr hmenu).trans h.first
  chain :=
    { nodup := h.chain.nodup
      next := fun i a ha =>
        (pointerAt_congr (hnext a (List.mem_of_getElem? ha))).trans (h.chain.next i a ha)
      prev := fun i a ha =>
        (pointerAt_congr (hprevious a (List.mem_of_getElem? ha))).trans (h.chain.prev i a ha)
      front := fun a ha =>
        (pointerAt_congr (hprevious a (List.mem_of_getElem? ha))).trans (h.chain.front a ha) }

variable (hsep : (menu :: (l ++ [x])).Pairwise Apart) (hpos : ∀ a ∈ l ++ [x], a ≠ 0)
include hsep hpos

theorem linkItem_menuOf (h : MenuOf (menuAt ram menu) (itemAt ram) l) (hx : x ∉ l) :
    MenuOf (menuAt (linkItem ram menu x l.getLast?) menu)
      (itemAt (linkItem ram menu x l.getLast?)) (l ++ [x]) where
  first := by
    have hx0 := hpos x (List.mem_append_right l (List.mem_singleton_self x))
    rcases linkAt_cases menu l with ⟨hat, rfl⟩ | ⟨c, hc, hend, hat⟩
    · have hlink := linkItem_link ram hsep
      rw [hat] at hlink
      rw [menuAt_first]
      exact pointerAt_of_ne hlink hx0
    · have hmenu := apart_menu hsep (List.mem_append_left [x] hc)
      have hnew := apart_menu hsep (List.mem_append_right l (List.mem_singleton_self x))
      unfold Apart at hmenu hnew
      have hword : longAt (linkItem ram menu x l.getLast?) (menu.toNat + offsetFirst) =
          longAt ram (menu.toNat + offsetFirst) := by
        apply longAt_linkItem
        · rw [hat]
          unfold offsetFirst offsetNext
          omega
        · unfold offsetFirst offsetPrevious
          omega
      rw [List.head?_append_of_ne_nil _ (List.ne_nil_of_mem hc), ← h.first, menuAt_first, menuAt_first]
      exact pointerAt_congr hword
  chain := by
    refine h.chain.snoc hx (fun a ha hend => ?_) (fun a hend => ?_) (fun a ha => ?_) ?_ ?_
    · rw [links_next, links_next]
      exact pointerAt_congr (linkItem_links hsep ha (by unfold offsetNext; omega) (.inl hend))
    · have hlink := linkItem_link ram hsep
      have hat : linkAt menu l.getLast? = a.toNat + offsetNext := by rw [hend]; rfl
      rw [hat] at hlink
      rw [links_next]
      exact pointerAt_of_ne hlink (hpos x (List.mem_append_right l (List.mem_singleton_self x)))
    · rw [links_prev, links_prev]
      refine pointerAt_congr (linkItem_links hsep ha ?_ (.inr ?_))
      · unfold offsetPrevious
        omega
      · unfold offsetPrevious offsetNext
        omega
    · rw [links_next]
      exact pointerAt_of_zero (linkItem_next ram menu x _)
    · have hword := linkItem_previous ram menu x l.getLast?
      rw [links_prev]
      cases hend : l.getLast? with
      | none =>
        rw [hend] at hword
        exact pointerAt_of_zero hword
      | some c =>
        rw [hend] at hword
        exact pointerAt_of_ne hword (hpos c (List.mem_append_left [x] (List.mem_of_getLast? hend)))

omit hsep hpos in
variable (x) in
/-- The walk finds the last item. -/
theorem addItemAt_eq (h : MenuOf (menuAt ram menu) (itemAt ram) l) {fuel : Nat}
    (hfuel : l.length ≤ fuel) : addItemAt fuel ram menu x = some (linkItem ram menu x l.getLast?) := by
  have hlast := lastOf_chain h.chain hfuel
  rw [← h.first] at hlast
  unfold addItemAt
  rw [show lastOf (fun a => (itemAt ram a).nextMenuItem) fuel (menuAt ram menu).firstMenuItem none = _
    from hlast]
  rfl

end

/-! ## The menu as it is made -/

theorem pointer_far {c d k : Nat} (hc : c < 0x400) (hd : d < 0x400) (hcd : c ≠ d) (hk : k < 0x3f00) :
    (pointer d).toNat + k + 8 < (pointer c).toNat ∨
      (pointer c).toNat + 233 ≤ (pointer d).toNat + k := by
  rw [toNat_pointer hc, toNat_pointer hd]
  unfold inCluster
  omega

theorem pointer_apart {c d : Nat} (hc : c < 0x400) (hd : d < 0x400) (hcd : c ≠ d) :
    Apart (pointer c) (pointer d) := by
  unfold Apart
  rw [toNat_pointer hc, toNat_pointer hd]
  unfold inCluster
  omega

theorem pointer_ne_zero {c : Nat} (hc : c < 0x400) : pointer c ≠ 0 := by
  intro hzero
  have hnat := toNat_pointer hc
  rw [hzero] at hnat
  change 0 = 0x02A00100 + c * 0x4000 at hnat
  omega

theorem pointer_inj {c d : Nat} (hc : c < 0x400) (hd : d < 0x400) (h : pointer c = pointer d) :
    c = d := by
  have hnat := congrArg UInt32.toNat h
  rw [toNat_pointer hc, toNat_pointer hd] at hnat
  unfold inCluster at hnat
  omega

theorem pairwise_apart {cs : List Nat} (hnodup : cs.Nodup) (hlt : ∀ c ∈ cs, c < 0x400) :
    (cs.map pointer).Pairwise Apart :=
  List.pairwise_map.2 (hnodup.imp_of_mem fun hc hd hcd => pointer_apart (hlt _ hc) (hlt _ hd) hcd)

/-- The menu is at cluster `m`, its items are at the clusters `cs`; `heap` is the heap
before the call. -/
structure Made (entries : List ConfigEntry) (addr : Nat → UInt32) (bootMenuEntry : UInt32)
    (heap : Allocator) (m : Nat) (cs : List Nat) (s : Making) : Prop where
  menuOf : MenuOf (menuAt s.heap.ram (pointer m)) (itemAt s.heap.ram) (cs.map pointer)
  visible : longAt s.heap.ram ((pointer m).toNat + offsetVisible) = 0
  function : ∀ c ∈ cs, longAt s.heap.ram ((pointer c).toNat + offsetFunction) = bootMenuEntry
  data : ∀ c ∈ cs, ∃ i < entries.length,
    longAt s.heap.ram ((pointer c).toNat + offsetFunctionData) = addr i
  left : ∀ c ∈ cs, longAt s.heap.ram ((pointer c).toNat + offsetLeft) =
    longAt heap.ram ((pointer c).toNat + offsetLeft)
  right : ∀ c ∈ cs, longAt s.heap.ram ((pointer c).toNat + offsetRight) =
    longAt heap.ram ((pointer c).toNat + offsetRight)
  selected : ∀ a, s.defaultMenuItem = some a → a ∈ cs.map pointer
  free : m :: (cs ++ freeClusters s.heap.table) = freeClusters heap.table
  prior : ∀ c ∈ freeClusters s.heap.table, ∀ k < 0x3f00,
    s.heap.ram ((pointer c).toNat + k) = heap.ram ((pointer c).toNat + k)

section
variable {entries : List ConfigEntry} {addr : Nat → UInt32} {bootMenuEntry : UInt32}
  {heap h' : Allocator} {m c i : Nat} {cs rest : List Nat} {s : Making}

theorem Made.lt (h : Made entries addr bootMenuEntry heap m cs s) {d : Nat}
    (hd : d ∈ m :: (cs ++ freeClusters s.heap.table)) : d < 0x400 :=
  Heap.lt_of_mem_freeClusters (h.free ▸ hd)

theorem Made.nodup (h : Made entries addr bootMenuEntry heap m cs s) :
    (m :: (cs ++ freeClusters s.heap.table)).Nodup :=
  h.free ▸ Heap.freeClusters_nodup heap.table

/-- The new item does not touch the blocks before. -/
theorem bootItem_far (e : ConfigEntry) (entry : UInt32) (hfresh : Heap.Fresh s.heap c rest h')
    {d k : Nat} (hc : c < 0x400) (hd : d < 0x400) (hcd : c ≠ d) (hk : k < 0x3f00) :
    bootItem bootMenuEntry e entry h'.ram (pointer c) ((pointer d).toNat + k) =
      s.heap.ram ((pointer d).toNat + k) := by
  have hfar := pointer_far hc hd hcd hk
  rw [bootItem_outside _ _ _ _ _ (by unfold offsetLeft; omega), hfresh.ram]
  rw [← toNat_pointer hc]
  omega

theorem longAt_bootItem_far (e : ConfigEntry) (entry : UInt32)
    (hfresh : Heap.Fresh s.heap c rest h') {d o : Nat} (hc : c < 0x400) (hd : d < 0x400)
    (hcd : c ≠ d) (ho : o + 4 ≤ 0x3f00) :
    longAt (bootItem bootMenuEntry e entry h'.ram (pointer c)) ((pointer d).toNat + o) =
      longAt s.heap.ram ((pointer d).toNat + o) := by
  refine longAt_congr fun k hk => ?_
  rw [Nat.add_assoc]
  exact bootItem_far e entry hfresh hc hd hcd (by omega)

/-- Nor does it store anything in its own left and right functions. -/
theorem longAt_bootItem_side (e : ConfigEntry) (entry : UInt32)
    (hfresh : Heap.Fresh s.heap c rest h') {o : Nat} (hc : c < 0x400) (ho : offsetLeft ≤ o) :
    longAt (bootItem bootMenuEntry e entry h'.ram (pointer c)) ((pointer c).toNat + o) =
      longAt s.heap.ram ((pointer c).toNat + o) := by
  refine longAt_congr fun k hk => ?_
  rw [bootItem_outside _ _ _ _ _ (by omega), hfresh.ram]
  rw [← toNat_pointer hc]
  omega

end

section
variable {entries : List ConfigEntry} {addr : Nat → UInt32} {bootMenuEntry : UInt32}
  {heap h' : Allocator} {m c i : Nat} {cs rest : List Nat} {s : Making}
  (h : Made entries addr bootMenuEntry heap m cs s) (hfree : freeClusters s.heap.table = c :: rest)
include h hfree

theorem Made.new_lt : c < 0x400 :=
  h.lt (List.mem_cons_of_mem m (List.mem_append_right cs (hfree ▸ List.mem_cons_self)))

theorem Made.new_ne {d : Nat} (hd : d ∈ m :: cs) : c ≠ d := by
  have hnodup := h.nodup
  rw [hfree, ← List.cons_append] at hnodup
  exact fun he => (List.nodup_append.1 hnodup).2.2 d hd c List.mem_cons_self he.symm

omit hfree in
theorem Made.old_lt {d : Nat} (hd : d ∈ m :: cs) : d < 0x400 := by
  refine h.lt ?_
  rw [← List.cons_append]
  exact List.mem_append_left _ hd

theorem Made.rest_ne {d : Nat} (hd : d ∈ rest) : c ≠ d ∧ d ∉ m :: cs ∧ d < 0x400 := by
  have hmem : d ∈ freeClusters s.heap.table := hfree ▸ List.mem_cons_of_mem c hd
  have hnodup := h.nodup
  rw [hfree, ← List.cons_append] at hnodup
  obtain ⟨-, hfrees, hdisjoint⟩ := List.nodup_append.1 hnodup
  refine ⟨?_, ?_, h.lt (List.mem_cons_of_mem m (List.mem_append_right cs hmem))⟩
  · rintro rfl
    exact (List.nodup_cons.1 hfrees).1 hd
  · exact fun hold => hdisjoint d hold d (List.mem_cons_of_mem c hd) rfl

theorem Made.apart : (pointer m :: (cs.map pointer ++ [pointer c])).Pairwise Apart := by
  have hnodup := h.nodup
  rw [hfree, List.append_cons, ← List.cons_append] at hnodup
  have hpairs := pairwise_apart (List.nodup_append.1 hnodup).1 fun d hd => h.lt (by
    rw [hfree, List.append_cons, ← List.cons_append]
    exact List.mem_append_left rest hd)
  rw [List.map_cons, List.map_append] at hpairs
  exact hpairs

theorem Made.pointers_ne_zero {a : UInt32} (ha : a ∈ cs.map pointer ++ [pointer c]) : a ≠ 0 := by
  rcases List.mem_append.1 ha with ha | ha
  · obtain ⟨d, hd, rfl⟩ := List.mem_map.1 ha
    exact pointer_ne_zero (h.old_lt (List.mem_cons_of_mem m hd))
  · rw [List.mem_singleton.1 ha]
    exact pointer_ne_zero (h.new_lt hfree)

theorem Made.new_not_mem : pointer c ∉ cs.map pointer := by
  intro hmem
  obtain ⟨d, hd, hdc⟩ := List.mem_map.1 hmem
  have hd' := List.mem_cons_of_mem m hd
  exact h.new_ne hfree hd' (pointer_inj (h.new_lt hfree) (h.old_lt hd') hdc.symm)

/-- The stores into the new item leave the menu what it is. -/
theorem Made.menuOf_bootItem (e : ConfigEntry) (entry : UInt32)
    (hfresh : Heap.Fresh s.heap c rest h') :
    MenuOf (menuAt (bootItem bootMenuEntry e entry h'.ram (pointer c)) (pointer m))
      (itemAt (bootItem bootMenuEntry e entry h'.ram (pointer c))) (cs.map pointer) := by
  have hfar : ∀ d ∈ m :: cs, ∀ o, o + 4 ≤ 0x3f00 →
      longAt (bootItem bootMenuEntry e entry h'.ram (pointer c)) ((pointer d).toNat + o) =
        longAt s.heap.ram ((pointer d).toNat + o) := fun d hd o ho =>
    longAt_bootItem_far e entry hfresh (h.new_lt hfree) (h.old_lt hd) (h.new_ne hfree hd) ho
  refine h.menuOf.congr (hfar m List.mem_cons_self _ (by decide)) ?_ ?_
  · rintro a ha
    obtain ⟨d, hd, rfl⟩ := List.mem_map.1 ha
    exact hfar d (List.mem_cons_of_mem m hd) _ (by decide)
  · rintro a ha
    obtain ⟨d, hd, rfl⟩ := List.mem_map.1 ha
    exact hfar d (List.mem_cons_of_mem m hd) _ (by decide)

section
variable {e : ConfigEntry} {entry : UInt32} (hfresh : Heap.Fresh s.heap c rest h')
  {ram : Nat → UInt8} (hram : ram = linkItem (bootItem bootMenuEntry e entry h'.ram (pointer c))
    (pointer m) (pointer c) (cs.map pointer).getLast?)
include hfresh hram

omit hfresh in
/-- In front of its links an item has after a turn what was stored before linking. -/
theorem Made.word {d o : Nat} (hd : d ∈ cs ++ [c]) (ho : o + 4 ≤ offsetPrevious) :
    longAt ram ((pointer d).toNat + o) =
      longAt (bootItem bootMenuEntry e entry h'.ram (pointer c)) ((pointer d).toNat + o) := by
  rw [hram]
  refine linkItem_item (h.apart hfree) ?_ ho
  have hmem := List.mem_map_of_mem (f := pointer) hd
  rwa [List.map_append] at hmem

/-- So an item that was there keeps such a word. -/
theorem Made.word_old {d o : Nat} (hd : d ∈ cs) (ho : o + 4 ≤ offsetPrevious) :
    longAt ram ((pointer d).toNat + o) = longAt s.heap.ram ((pointer d).toNat + o) := by
  have hd' := List.mem_cons_of_mem m hd
  rw [h.word hfree hram (List.mem_append_left [c] hd) ho]
  refine longAt_bootItem_far e entry hfresh (h.new_lt hfree) (h.old_lt hd') (h.new_ne hfree hd') ?_
  unfold offsetPrevious at ho
  omega

/-- And the new one has from its left function on what the memory held before the call. -/
theorem Made.word_new {o : Nat} (hleft : offsetLeft ≤ o) (ho : o + 4 ≤ offsetPrevious) :
    longAt ram ((pointer c).toNat + o) = longAt heap.ram ((pointer c).toNat + o) := by
  have hnew : c ∈ cs ++ [c] := List.mem_append_right cs (List.mem_singleton_self c)
  rw [h.word hfree hram hnew ho, longAt_bootItem_side e entry hfresh (h.new_lt hfree) hleft]
  refine longAt_congr fun k hk => ?_
  rw [Nat.add_assoc]
  unfold offsetPrevious at ho
  exact h.prior c (hfree ▸ List.mem_cons_self) (o + k) (by omega)

/-- The menu keeps its count: only its first item is ever stored. -/
theorem Made.word_visible : longAt ram ((pointer m).toNat + offsetVisible) = 0 := by
  have hsep := h.apart hfree
  have hnew := apart_menu hsep (List.mem_append_right _ (List.mem_singleton_self (pointer c)))
  have hm := List.mem_cons_self (a := m) (l := cs)
  have hfar : longAt (bootItem bootMenuEntry e entry h'.ram (pointer c))
      ((pointer m).toNat + offsetVisible) = longAt s.heap.ram ((pointer m).toNat + offsetVisible) :=
    longAt_bootItem_far e entry hfresh (h.new_lt hfree) (h.old_lt hm) (h.new_ne hfree hm) (by decide)
  unfold Apart at hnew
  rw [hram]
  refine (longAt_linkItem ?_ ?_).trans (hfar.trans h.visible)
  · rcases linkAt_cases (pointer m) (cs.map pointer) with ⟨hat, -⟩ | ⟨a, ha, -, hat⟩
    · rw [hat]
      unfold offsetFirst offsetVisible
      omega
    · have hitem := apart_menu hsep (List.mem_append_left [pointer c] ha)
      unfold Apart at hitem
      rw [hat]
      unfold offsetNext offsetVisible
      omega
  · unfold offsetVisible offsetPrevious
    omega

/-- What is free is as it was before the call. -/
theorem Made.byte_free {d k : Nat} (hd : d ∈ rest) (hk : k < 0x3f00) :
    ram ((pointer d).toNat + k) = heap.ram ((pointer d).toNat + k) := by
  have hc := h.new_lt hfree
  obtain ⟨hcd, hout, hd'⟩ := h.rest_ne hfree hd
  have hfar : ∀ b ∈ m :: (cs ++ [c]), (pointer d).toNat + k < (pointer b).toNat ∨
      (pointer b).toNat + 233 ≤ (pointer d).toNat + k := by
    intro b hb
    rw [← List.cons_append] at hb
    have hfar : b < 0x400 ∧ b ≠ d := by
      rcases List.mem_append.1 hb with hold | hnew
      · exact ⟨h.old_lt hold, fun he => hout (he ▸ hold)⟩
      · rw [List.mem_singleton.1 hnew]
        exact ⟨hc, hcd⟩
    exact (pointer_far hfar.1 hd' hfar.2 hk).imp_left (fun hlt => by omega)
  rw [hram]
  refine (linkItem_outside ?_ ?_).trans ?_
  · exact (hfar m List.mem_cons_self).imp_right fun hle => by omega
  · intro a ha
    have hmap : a ∈ (cs ++ [c]).map pointer := by
      rw [List.map_append]
      exact ha
    obtain ⟨b, hb, rfl⟩ := List.mem_map.1 hmap
    exact hfar b (List.mem_cons_of_mem m hb)
  · rw [bootItem_far e entry hfresh hc hd' hcd hk]
    exact h.prior d (hfree ▸ List.mem_cons_of_mem c hd) k hk

end

/-- The turn for entry `i`. -/
theorem Made.turn (e : ConfigEntry) (hi : i < entries.length) (hfresh : Heap.Fresh s.heap c rest h')
    {ram : Nat → UInt8} (hram : ram = linkItem (bootItem bootMenuEntry e (addr i) h'.ram (pointer c))
      (pointer m) (pointer c) (cs.map pointer).getLast?) :
    Made entries addr bootMenuEntry heap m (cs ++ [c])
      ⟨{ h' with ram := ram }, if e.isDefault ≠ 0 then some (pointer c) else s.defaultMenuItem⟩ := by
  have hmap : (cs ++ [c]).map pointer = cs.map pointer ++ [pointer c] := List.map_append
  have hnew : c ∈ cs ++ [c] := List.mem_append_right cs (List.mem_singleton_self c)
  have hconcat : ∀ {P : Nat → Prop}, (∀ d ∈ cs, P d) → P c → ∀ d ∈ cs ++ [c], P d := fun hcs hc =>
    List.forall_mem_append.2 ⟨hcs, List.forall_mem_singleton.2 hc⟩
  refine ⟨?_, h.word_visible hfree hfresh hram, ?_, ?_, ?_, ?_, ?_, ?_, ?_⟩
  · rw [hmap, hram]
    exact linkItem_menuOf (h.apart hfree) (fun a ha => h.pointers_ne_zero hfree ha)
      (h.menuOf_bootItem hfree e (addr i) hfresh) (h.new_not_mem hfree)
  · refine hconcat (fun d hd => ?_) ?_
    · exact (h.word_old hfree hfresh hram hd (by decide)).trans (h.function d hd)
    · exact (h.word hfree hram hnew (by decide)).trans (bootItem_function ..)
  · refine hconcat (fun d hd => ?_) ⟨i, hi, ?_⟩
    · obtain ⟨j, hj, hdata⟩ := h.data d hd
      exact ⟨j, hj, (h.word_old hfree hfresh hram hd (by decide)).trans hdata⟩
    · exact (h.word hfree hram hnew (by decide)).trans (bootItem_data ..)
  · refine hconcat (fun d hd => ?_) (h.word_new hfree hfresh hram (le_refl _) (by decide))
    exact (h.word_old hfree hfresh hram hd (by decide)).trans (h.left d hd)
  · refine hconcat (fun d hd => ?_) (h.word_new hfree hfresh hram (by decide) (by decide))
    exact (h.word_old hfree hfresh hram hd (by decide)).trans (h.right d hd)
  · intro a ha
    rw [hmap]
    by_cases hdefault : e.isDefault ≠ 0
    · simp only [if_pos hdefault, Option.some.injEq] at ha
      exact List.mem_append_right _ (List.mem_singleton.2 ha.symm)
    · simp only [if_neg hdefault] at ha
      exact List.mem_append_left _ (h.selected a ha)
  · show m :: ((cs ++ [c]) ++ freeClusters h'.table) = _
    rw [hfresh.free, List.append_assoc, ← h.free, hfree]
    rfl
  · intro d hd k hk
    exact h.byte_free hfree hfresh hram (hfresh.free ▸ hd) hk

end

/-! ## The whole menu -/

theorem longAt_of_zeros {ram : Nat → UInt8} {a : Nat} (h : ∀ i < 4, ram (a + i) = 0) :
    longAt ram a = 0 := by
  have hcongr : longAt ram a = longAt (fun _ => 0) 0 := longAt_congr h
  exact hcongr

section
variable {entries : List ConfigEntry} (addr : Nat → UInt32) (bootMenuEntry : UInt32)
  {heap h' : Allocator} {m : Nat} {cs rest : List Nat} {s : Making}

variable (entries) in
/-- The menu is cleared as a whole. -/
theorem made_empty (hfree : freeClusters heap.table = m :: rest) (hfresh : Heap.Fresh heap m rest h')
    {ram : Nat → UInt8} (caption : List UInt8) (hcaption : caption.length ≤ 201)
    (hram : ram = Cells.write (Cells.fill h'.ram (pointer m).toNat 0 menuSize.toNat)
      (pointer m).toNat caption) :
    Made entries addr bootMenuEntry heap m [] ⟨{ h' with ram := ram }, none⟩ := by
  have hsize : menuSize.toNat = 217 := rfl
  have hzero : ∀ o, 201 ≤ o → o + 4 ≤ 217 → longAt ram ((pointer m).toNat + o) = 0 := by
    intro o h1 h2
    refine longAt_of_zeros fun k hk => ?_
    rw [hram, Cells.write_of_outside _ _ _ _ (by omega), Cells.fill_apply _ _ _ _ _ (by omega)]
  have hm : m < 0x400 := Heap.lt_of_mem_freeClusters (hfree ▸ List.mem_cons_self)
  have hnodup := Heap.freeClusters_nodup heap.table
  rw [hfree, List.nodup_cons] at hnodup
  refine ⟨menuOf_empty _ _ (pointerAt_of_zero (hzero _ (le_refl _) (by decide))),
    hzero _ (by decide) (by decide), ?_, ?_, ?_, ?_, ?_, ?_, ?_⟩
  · exact fun _ hc => absurd hc List.not_mem_nil
  · exact fun _ hc => absurd hc List.not_mem_nil
  · exact fun _ hc => absurd hc List.not_mem_nil
  · exact fun _ hc => absurd hc List.not_mem_nil
  · exact fun _ ha => by cases ha
  · show m :: ([] ++ freeClusters h'.table) = _
    rw [hfresh.free, hfree]
    rfl
  · intro c hc k hk
    have hrest : c ∈ rest := hfresh.free ▸ hc
    have hc' : c < 0x400 := Heap.lt_of_mem_freeClusters (hfree ▸ List.mem_cons_of_mem m hrest)
    have hmc : m ≠ c := fun he => hnodup.1 (he ▸ hrest)
    have hfar := pointer_far hm hc' hmc hk
    show ram _ = _
    rw [hram, Cells.write_of_outside _ _ _ _ (by omega), Cells.fill_of_outside _ _ _ _ _ (by omega),
      hfresh.ram]
    rw [← toNat_pointer hm]
    omega

variable {addr bootMenuEntry}
variable (hchained : Chained entries)
include hchained

/-- A turn of the loop: the item is in the first free cluster. -/
theorem addEntries_turn {fuel : Nat} {c : Nat} (hlen : cs.length + (fuel + 1) = entries.length)
    (h : Made entries addr bootMenuEntry heap m cs s) (hfree : freeClusters s.heap.table = c :: rest) :
    ∃ s', addEntries entries addr bootMenuEntry (pointer m) (fuel + 1)
        (if cs.length < entries.length then some cs.length else none) s =
        addEntries entries addr bootMenuEntry (pointer m) fuel
          (if (cs ++ [c]).length < entries.length then some (cs ++ [c]).length else none) s' ∧
      Made entries addr bootMenuEntry heap m (cs ++ [c]) s' ∧ freeClusters s'.heap.table = rest := by
  have hi : cs.length < entries.length := by omega
  obtain ⟨h', hblock, hfresh⟩ := Heap.block_some pointerSize (by decide) hfree
  have hmenu := h.menuOf_bootItem hfree (entries.getD cs.length default) (addr cs.length) hfresh
  have hfuel : (cs.map pointer).length ≤ entries.length := by
    rw [List.length_map]
    omega
  have hadd := addItemAt_eq (pointer c) hmenu hfuel
  refine ⟨_, ?_, h.turn hfree (entries.getD cs.length default) hi hfresh rfl, hfresh.free⟩
  rw [if_pos hi, addEntries, List.length_append, List.length_singleton]
  simp only [hblock, hadd, Option.bind_eq_bind, Option.bind_some, hchained cs.length hi]

/-- The loop: each item is in the next free cluster. -/
theorem addEntries_made {fuel : Nat} (hlen : cs.length + fuel = entries.length)
    (h : Made entries addr bootMenuEntry heap m cs s)
    (hroom : fuel ≤ (freeClusters s.heap.table).length) :
    ∃ s', addEntries entries addr bootMenuEntry (pointer m) fuel
        (if cs.length < entries.length then some cs.length else none) s = some s' ∧
      Made entries addr bootMenuEntry heap m (cs ++ (freeClusters s.heap.table).take fuel) s' := by
  induction fuel generalizing cs s with
  | zero =>
    rw [if_neg (by omega), addEntries, List.take_zero, List.append_nil]
    exact ⟨s, rfl, h⟩
  | succ fuel ih =>
    cases hfree : freeClusters s.heap.table with
    | nil =>
      rw [hfree] at hroom
      exact absurd hroom (Nat.not_succ_le_zero fuel)
    | cons c rest =>
      obtain ⟨u, hturn, hu, hrest⟩ := addEntries_turn hchained hlen h hfree
      rw [hfree, List.length_cons] at hroom
      have hlen' : (cs ++ [c]).length + fuel = entries.length := by
        rw [List.length_append, List.length_singleton]
        omega
      obtain ⟨s', hloop, hmade⟩ := ih hlen' hu (by rw [hrest]; omega)
      refine ⟨s', hturn.trans hloop, ?_⟩
      rw [hrest] at hmade
      rw [List.take_succ_cons, List.append_cons]
      exact hmade

/-- Without a cluster for an item there is no result. -/
theorem addEntries_none {fuel : Nat} (hlen : cs.length + fuel = entries.length)
    (h : Made entries addr bootMenuEntry heap m cs s)
    (hroom : (freeClusters s.heap.table).length < fuel) :
    addEntries entries addr bootMenuEntry (pointer m) fuel
      (if cs.length < entries.length then some cs.length else none) s = none := by
  induction fuel generalizing cs s with
  | zero => exact absurd hroom (Nat.not_lt_zero _)
  | succ fuel ih =>
    cases hfree : freeClusters s.heap.table with
    | nil =>
      rw [if_pos (by omega), addEntries, Heap.block_none (by decide) hfree]
      rfl
    | cons c rest =>
      obtain ⟨u, hturn, hu, hrest⟩ := addEntries_turn hchained hlen h hfree
      rw [hfree, List.length_cons] at hroom
      have hlen' : (cs ++ [c]).length + fuel = entries.length := by
        rw [List.length_append, List.length_singleton]
        omega
      rw [hturn]
      exact ih hlen' hu (by rw [hrest]; omega)

omit hchained in
/-- The search for a marked entry ends. -/
theorem firstDefault_some (hchained : Chained entries) {fuel i : Nat} (hi : i + fuel = entries.length) :
    ∃ r, firstDefault entries fuel (if i < entries.length then some i else none) = some r := by
  induction fuel generalizing i with
  | zero =>
    rw [if_neg (by omega), firstDefault]
    exact ⟨none, rfl⟩
  | succ fuel ih =>
    have hilt : i < entries.length := by omega
    rw [if_pos hilt, firstDefault]
    by_cases hdefault : (entries.getD i default).isDefault ≠ 0
    · exact ⟨some i, if_pos hdefault⟩
    · obtain ⟨r, hr⟩ := ih (i := i + 1) (by omega)
      refine ⟨r, ?_⟩
      simp only [if_neg hdefault, hchained i hilt]
      exact hr

end

/-! ## Top theorem -/

/-- The function and the data of every call are what `DrawBootMenu` stored. -/
def CallsStored (entries : List ConfigEntry) (addr : Nat → UInt32) (bootMenuEntry : UInt32)
    (drawn : Option Drawn) : Prop :=
  ∃ d, drawn = some d ∧ ∀ ram menu selectedItem, d = .runs ram menu selectedItem →
    ∀ found countStart ts item field f data,
      Event.call item field f data ∈
          textMenu (menuAt ram menu) (itemAt ram) selectedItem found countStart ts →
        field = .functionPtr ∧ f = bootMenuEntry ∧ ∃ i < entries.length, data = addr i

/-- The clusters that the items of a menu come to be in, behind the one for the menu. -/
def itemClusters (heap : Allocator) (n : Nat) : List Nat := ((freeClusters heap.table).drop 1).take n

/-- There are blocks for the menu and `n` items, and in those of the items the memory
already has NULL where the left and the right function are. -/
def LeftClear (heap : Allocator) (n : Nat) : Prop :=
  n < (freeClusters heap.table).length ∧ ∀ c ∈ itemClusters heap n,
    (itemAt heap.ram (pointer c)).functionLeftPtr = none ∧
      (itemAt heap.ram (pointer c)).functionRightPtr = none

section
variable {entries : List ConfigEntry} {addr : Nat → UInt32} {bootMenuEntry : UInt32}
  {heap : Allocator} {m : Nat} {cs : List Nat} {s : Making}

theorem pointerAt_eq_some {ram : Nat → UInt8} {a : Nat} {x : UInt32} (h : pointerAt ram a = some x) :
    longAt ram a = x := by
  unfold pointerAt at h
  split at h
  · cases h
  · exact Option.some.inj h

theorem Made.count_pos (h : Made entries addr bootMenuEntry heap m cs s) :
    0 < (menuAt s.heap.ram (pointer m)).count := by
  have hvisible : (menuAt s.heap.ram (pointer m)).visibleCount = 0 := by
    show signed (longAt s.heap.ram ((pointer m).toNat + offsetVisible)) = 0
    rw [h.visible]
    simp [signed]
  unfold TextMenu.count
  rw [if_pos hvisible]
  decide

/-- The default item is one of the menu, or there is none. -/
theorem Made.selected_at (h : Made entries addr bootMenuEntry heap m cs s) (hpos : cs ≠ []) :
    ∃ i < (cs.map pointer).length,
      s.defaultMenuItem = (cs.map pointer)[i]? ∨ s.defaultMenuItem = none ∧ i = 0 := by
  cases hdefault : s.defaultMenuItem with
  | none =>
    refine ⟨0, ?_, .inr ⟨rfl, rfl⟩⟩
    rw [List.length_map]
    exact List.length_pos_iff.2 hpos
  | some a =>
    obtain ⟨i, hi⟩ := List.mem_iff_getElem?.1 (h.selected a hdefault)
    exact ⟨i, (List.getElem?_eq_some_iff.1 hi).1, .inl hi.symm⟩

/-- The menu that was made calls nothing else ↔ its items have no left and right function. -/
theorem Made.calls_iff (h : Made entries addr bootMenuEntry heap m cs s) (hpos : cs ≠ []) :
    (∀ found countStart ts item field f data,
      Event.call item field f data ∈ textMenu (menuAt s.heap.ram (pointer m)) (itemAt s.heap.ram)
          s.defaultMenuItem found countStart ts →
        field = .functionPtr ∧ f = bootMenuEntry ∧ ∃ i < entries.length, data = addr i) ↔
    ∀ c ∈ cs, (itemAt heap.ram (pointer c)).functionLeftPtr = none ∧
      (itemAt heap.ram (pointer c)).functionRightPtr = none := by
  obtain ⟨i, hi, hselected⟩ := h.selected_at hpos
  have hcalls := mem_textMenu_iff h.menuOf h.count_pos hi hselected
  have hleft : ∀ c ∈ cs, (itemAt s.heap.ram (pointer c)).functionLeftPtr =
      (itemAt heap.ram (pointer c)).functionLeftPtr := fun c hc => pointerAt_congr (h.left c hc)
  have hright : ∀ c ∈ cs, (itemAt s.heap.ram (pointer c)).functionRightPtr =
      (itemAt heap.ram (pointer c)).functionRightPtr := fun c hc => pointerAt_congr (h.right c hc)
  constructor
  · intro hstored c hc
    have hmem : pointer c ∈ cs.map pointer := List.mem_map_of_mem hc
    have hnone : ∀ field : Field, field ≠ .functionPtr →
        field.function (itemAt s.heap.ram (pointer c)) = none := by
      intro field hfield
      cases hf : field.function (itemAt s.heap.ram (pointer c)) with
      | none => rfl
      | some f =>
        obtain ⟨found, countStart, ts, hcall⟩ := (hcalls (pointer c) field f _).2 ⟨hmem, hf, rfl⟩
        exact absurd (hstored found countStart ts _ _ _ _ hcall).1 hfield
    have hl := hnone .functionLeftPtr (by decide)
    have hr := hnone .functionRightPtr (by decide)
    rw [Field.function_left] at hl
    rw [Field.function_right] at hr
    exact ⟨(hleft c hc).symm.trans hl, (hright c hc).symm.trans hr⟩
  · intro hclear found countStart ts item field f data hcall
    obtain ⟨hmem, hf, hdata⟩ := (hcalls item field f data).1 ⟨found, countStart, ts, hcall⟩
    obtain ⟨c, hc, rfl⟩ := List.mem_map.1 hmem
    cases field with
    | functionPtr =>
      rw [Field.function_select] at hf
      have hword : longAt s.heap.ram ((pointer c).toNat + offsetFunction) = f := pointerAt_eq_some hf
      obtain ⟨j, hj, hj'⟩ := h.data c hc
      exact ⟨rfl, hword.symm.trans (h.function c hc), j, hj, hdata.symm.trans hj'⟩
    | functionLeftPtr =>
      rw [Field.function_left, hleft c hc, (hclear c hc).1] at hf
      cases hf
    | functionRightPtr =>
      rw [Field.function_right, hright c hc, (hclear c hc).2] at hf
      cases hf

variable (addr bootMenuEntry heap)
variable (hchained : Chained entries) (hseveral : 2 ≤ entries.length)
include hchained hseveral

theorem several_next : (entries.getD 0 default).nextConfigEntry ≠ none := by
  rw [hchained 0 (by omega), if_pos (by omega)]
  exact Option.some_ne_none _

theorem drawBootMenu_timedOut :
    CallsStored entries addr bootMenuEntry (drawBootMenu entries addr bootMenuEntry true heap) := by
  obtain ⟨r, hr⟩ := firstDefault_some hchained (i := 0) (Nat.zero_add entries.length)
  rw [if_pos (by omega)] at hr
  refine ⟨.boots (r.getD 0), ?_, fun _ _ _ h => by cases h⟩
  rw [drawBootMenu, if_neg (several_next hchained hseveral), if_pos rfl, hr]
  rfl

theorem drawBootMenu_none (hroom : (freeClusters heap.table).length ≤ entries.length) :
    drawBootMenu entries addr bootMenuEntry false heap = none := by
  rw [drawBootMenu, if_neg (several_next hchained hseveral), if_neg Bool.false_ne_true]
  cases hfree : freeClusters heap.table with
  | nil =>
    rw [Heap.block_none (by decide) hfree]
    rfl
  | cons m rest =>
    obtain ⟨h', hblock, hfresh⟩ := Heap.block_some menuSize (by decide) hfree
    have hempty := made_empty entries addr bootMenuEntry hfree hfresh
      (chars "Boot menu".toList ++ [0]) (by decide) rfl
    have hloop := addEntries_none hchained (Nat.zero_add entries.length) hempty (by
      show (freeClusters h'.table).length < _
      rw [hfree, List.length_cons] at hroom
      rw [hfresh.free]
      omega)
    rw [List.length_nil, if_pos (by omega)] at hloop
    simp only [hblock, Option.bind_eq_bind, Option.bind_some, hloop, Option.bind_none]

/-- The menu, its items in the free clusters behind its own. -/
theorem drawBootMenu_made (hroom : entries.length < (freeClusters heap.table).length) :
    ∃ m s, drawBootMenu entries addr bootMenuEntry false heap =
        some (.runs s.heap.ram (pointer m) s.defaultMenuItem) ∧
      Made entries addr bootMenuEntry heap m (itemClusters heap entries.length) s := by
  rw [drawBootMenu, if_neg (several_next hchained hseveral), if_neg Bool.false_ne_true, itemClusters]
  cases hfree : freeClusters heap.table with
  | nil =>
    rw [hfree] at hroom
    exact absurd hroom (Nat.not_lt_zero _)
  | cons m rest =>
    obtain ⟨h', hblock, hfresh⟩ := Heap.block_some menuSize (by decide) hfree
    have hempty := made_empty entries addr bootMenuEntry hfree hfresh
      (chars "Boot menu".toList ++ [0]) (by decide) rfl
    obtain ⟨s, hloop, hmade⟩ := addEntries_made hchained (Nat.zero_add entries.length) hempty (by
      show _ ≤ (freeClusters h'.table).length
      rw [hfree, List.length_cons] at hroom
      rw [hfresh.free]
      omega)
    change Made _ _ _ _ _ ((freeClusters h'.table).take entries.length) s at hmade
    rw [List.length_nil, if_pos (by omega)] at hloop
    rw [hfresh.free] at hmade
    refine ⟨m, s, ?_, hmade⟩
    simp only [hblock, Option.bind_eq_bind, Option.bind_some, hloop]
    rfl

theorem drawBootMenu_clear_iff :
    CallsStored entries addr bootMenuEntry (drawBootMenu entries addr bootMenuEntry false heap) ↔
      LeftClear heap entries.length := by
  unfold LeftClear
  by_cases hroom : entries.length < (freeClusters heap.table).length
  · obtain ⟨m, s, hdrawn, hmade⟩ := drawBootMenu_made addr bootMenuEntry heap hchained hseveral hroom
    have hpos : itemClusters heap entries.length ≠ [] := by
      refine List.ne_nil_of_length_pos ?_
      unfold itemClusters
      rw [List.length_take, List.length_drop]
      omega
    rw [and_iff_right hroom, ← hmade.calls_iff hpos, hdrawn]
    constructor
    · rintro ⟨d, hd, hcalls⟩
      exact hcalls _ _ _ (Option.some.inj hd).symm
    · intro hcalls
      refine ⟨_, rfl, ?_⟩
      rintro ram menu selectedItem hruns
      cases hruns
      exact hcalls
  · refine iff_of_false ?_ fun h => hroom h.1
    rintro ⟨d, hd, -⟩
    rw [drawBootMenu_none addr bootMenuEntry heap hchained hseveral (by omega)] at hd
    cases hd

/-- **The calls of a boot menu.** `TextMenu` calls nothing but the functions that
`DrawBootMenu` stored exactly if there is a block for every item, and each of
these happens to hold NULL for the left and the right function; or nobody is there,
and no menu is shown. -/
theorem drawBootMenu_calls_iff (timedOut : Bool) :
    CallsStored entries addr bootMenuEntry (drawBootMenu entries addr bootMenuEntry timedOut heap) ↔
      timedOut = true ∨ LeftClear heap entries.length := by
  cases timedOut with
  | true => exact iff_of_true (drawBootMenu_timedOut addr bootMenuEntry heap hchained hseveral) (.inl rfl)
  | false =>
    rw [or_iff_right Bool.false_ne_true]
    exact drawBootMenu_clear_iff addr bootMenuEntry heap hchained hseveral

end

/-- Two entries, and a heap that is new. -/
def twoEntries : List ConfigEntry := [{ (default : ConfigEntry) with nextConfigEntry := some 1 }, default]

theorem twoEntries_chained : Chained twoEntries := by
  intro i hi
  change i < 2 at hi
  obtain rfl | rfl : i = 0 ∨ i = 1 := by omega
  · rfl
  · rfl

def newHeap (ram : Nat → UInt8) : Allocator :=
  ⟨Heap.memoryManagementInitialization ram memoryManagerStart, ram, rfl⟩

theorem newHeap_ram (ram : Nat → UInt8) : (newHeap ram).ram = ram := rfl

theorem freeClusters_newHeap (ram : Nat → UInt8) :
    freeClusters (newHeap ram).table = List.range' 1 0x3ff := Heap.freeClusters_new ram _

theorem itemClusters_newHeap (ram : Nat → UInt8) : itemClusters (newHeap ram) 2 = [2, 3] := by
  unfold itemClusters
  rw [freeClusters_newHeap]
  rfl

/-- Over memory that is clear. -/
theorem drawBootMenu_calls_iff_clear : CallsStored twoEntries (fun _ => 0x02A10100) 0x00101000
    (drawBootMenu twoEntries (fun _ => 0x02A10100) 0x00101000 false (newHeap fun _ => 0)) := by
  refine (drawBootMenu_calls_iff _ _ _ twoEntries_chained (le_refl 2) false).2 (.inr ⟨?_, ?_⟩)
  · rw [freeClusters_newHeap, List.length_range']
    decide
  · have hnone : ∀ a, pointerAt (fun _ => 0) a = none := fun _ =>
      pointerAt_of_zero (longAt_of_zeros fun _ _ => rfl)
    intro c _
    rw [newHeap_ram, itemAt_left, itemAt_right]
    exact ⟨hnone _, hnone _⟩

/-- Where the first item comes to be there is a 1 for its left function: the left
button calls what is at 1. -/
theorem left_called_unset :
    ¬ CallsStored twoEntries (fun _ => 0x02A10100) 0x00101000
      (drawBootMenu twoEntries (fun _ => 0x02A10100) 0x00101000 false
        (newHeap (Cells.write (fun _ => 0) ((pointer 2).toNat + offsetLeft) (le32 1)))) := by
  rw [drawBootMenu_clear_iff _ _ _ twoEntries_chained (le_refl 2)]
  have hset := pointerAt_of_ne (longAt_write (fun _ => 0) ((pointer 2).toNat + offsetLeft) 1)
    (by decide)
  generalize Cells.write (fun _ => 0) ((pointer 2).toNat + offsetLeft) (le32 1) = ram at hset ⊢
  rintro ⟨-, hclear⟩
  have hmem : 2 ∈ itemClusters (newHeap ram) twoEntries.length := by
    show 2 ∈ itemClusters (newHeap ram) 2
    rw [itemClusters_newHeap]
    exact List.mem_cons_self
  have hnone := (hclear 2 hmem).1
  rw [newHeap_ram, itemAt_left, hset] at hnone
  cases hnone

end Gentoox.Menu
