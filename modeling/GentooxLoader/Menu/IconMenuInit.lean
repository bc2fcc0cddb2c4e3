import GentooxLoader.Lib.Strings
import GentooxLoader.Menu.IconMenu

/-!
# Which icons there are (menu/iconmenu/IconMenuInit.c)

The icons come in this order: one for each CD drive, one for a FATX disk with a
configuration, one for each bootable partition with one, and three that are
always there.  A FATX icon and every partition's icon in turn make themselves
the selected one.

The k-th icon lies at `alloc k`.  What a drive has in a sector and what is found
when a configuration is looked for comes with the hardware.

    newIcon_added             the icons so far are a chain, and the selected one is one of them
    iconMenuInit_icons        the same of the whole menu, with whatever hardware
    iconMenuInit_not_shown    a disk with two bootable partitions, and a CD drive
-/

namespace Gentoox.Menu

open Chains Lib

/-! ## Algorithm -/

inductive IconFunction where
  | bootFromCD | drawBootMenu | advancedMenu | bootFromNet
deriving DecidableEq

/-- What `functionDataPtr` points to; `κ` are the configurations. -/
inductive IconData (κ : Type) where
  | drive (i : Nat)
  | config (entry : κ)
  | textMenu
  | ipMenu
  | null

/-- A drive, and the bytes of its sectors as a read leaves them in a cleared buffer. -/
structure HddInfo where
  driveExists : Bool
  atapi : Bool
  sector : Nat → Nat → UInt8

structure Hardware (κ : Type) where
  tsaHarddiskInfo : Nat → HddInfo
  loadConfigFatX : Option κ
  loadConfigNative : Nat → Nat → Option κ

def ICON_WIDTH : Nat := 64

variable {α κ : Type} [DecidableEq α]

/-- The icons, the one selected, and how many have been allocated. -/
structure Init (α κ : Type) where
  icons : Icons α IconFunction (IconData κ)
  selectedIcon : Option α
  count : Nat

/-- Everything but the links of an icon is filled in. -/
def Icons.fill {φ δ : Type} (s : Icons α φ δ) (iconPtr : α) (slot : Nat) (caption : List UInt8)
    (function : φ) (data : δ) : Icons α φ δ :=
  { s with
    icon := Function.update s.icon iconPtr
      { s.icon iconPtr with
        iconSlot := slot
        szCaption := caption
        functionPtr := some function
        functionDataPtr := data } }

section
variable (alloc : Nat → α)

/-- An icon is allocated, filled in and added. -/
def newIcon (slot : Nat) (caption : List UInt8) (function : IconFunction) (data : IconData κ)
    (s : Init α κ) : Option (Init α κ) :=
  (addIcon s.count (s.icons.fill (alloc s.count) slot caption function data) (alloc s.count)).map
    fun icons => { s with icons := icons, count := s.count + 1 }

/-- The same for an icon that is to be the default. -/
def newDefaultIcon (slot : Nat) (caption : List UInt8) (entry : κ) (s : Init α κ) :
    Option (Init α κ) :=
  (newIcon alloc slot caption .drawBootMenu (.config entry) s).map fun s' =>
    { s' with selectedIcon := some (alloc s.count) }

variable (hw : Hardware κ)

def initCDIcon (i : Nat) (s : Init α κ) : Option (Init α κ) :=
  if (hw.tsaHarddiskInfo i).atapi then
    newIcon alloc (ICON_WIDTH * 2) (chars ['C', 'D', '/', 'D', 'V', 'D']) .bootFromCD (.drive i) s
  else some s

def isDisk (i : Nat) : Bool := (hw.tsaHarddiskInfo i).driveExists && !(hw.tsaHarddiskInfo i).atapi

/-- `strncmp("BRFR", ba, 4)` is 0. -/
def hasFatX (ba : Nat → UInt8) : Bool :=
  ba 0 == 0x42 && ba 1 == 0x52 && ba 2 == 0x46 && ba 3 == 0x52

def initFatXIcons (s : Init α κ) : Option (Init α κ) :=
  if isDisk hw 0 && hasFatX ((hw.tsaHarddiskInfo 0).sector 3) then
    match hw.loadConfigFatX with
    | none => some s
    | some entry =>
      newDefaultIcon alloc (ICON_WIDTH * 4) (chars [' ', ' ', ' ', 'F', 'a', 't', 'X']) entry s
  else some s

/-- One primary partition. -/
def initPartition (driveId n : Nat) (s : Init α κ) : Option (Init α κ) :=
  if (hw.tsaHarddiskInfo driveId).sector 0 (0x1be + 16 * n) &&& 0x80 ≠ 0 then
    match hw.loadConfigNative driveId n with
    | none => some s
    | some entry =>
      newDefaultIcon alloc ICON_WIDTH (chars [' ', ' ', 'N', 'a', 't', 'i', 'v', 'e']) entry s
  else some s

def hasMBR (ba : Nat → UInt8) : Bool := ba 0x1fe == 0x55 && ba 0x1ff == 0xaa

/-- A disk without an MBR ends the function. -/
def initNativeDrives : List Nat → Init α κ → Option (Init α κ)
  | [], s => some s
  | driveId :: ds, s =>
    if isDisk hw driveId then
      if hasMBR ((hw.tsaHarddiskInfo driveId).sector 0) then
        ([0, 1, 2, 3].foldlM (fun s n => initPartition alloc hw driveId n s) s).bind
          (initNativeDrives ds)
      else some s
    else initNativeDrives ds s

def initNativeIcons : Init α κ → Option (Init α κ) := initNativeDrives alloc hw [0, 1]

def initWebBootIcons : Init α κ → Option (Init α κ) :=
  newIcon alloc (ICON_WIDTH * 3) (chars ['W', 'e', 'b', ' ', 'B', 'o', 'o', 't']) .advancedMenu .ipMenu

def initNetBootIcons : Init α κ → Option (Init α κ) :=
  newIcon alloc (ICON_WIDTH * 3) (chars ['N', 'e', 't', ' ', 'B', 'o', 'o', 't']) .bootFromNet .null

/-- `icon` is what the memory for the icons has in it. -/
def iconMenuInit (icon : α → Icon α IconFunction (IconData κ)) : Option (Init α κ) := do
  let s ← initCDIcon alloc hw 0 ⟨⟨none, icon⟩, none, 0⟩
  let s ← initCDIcon alloc hw 1 s
  let s ← initFatXIcons alloc hw s
  let s ← initNativeIcons alloc hw s
  let s ← initWebBootIcons alloc s
  let s ← initNetBootIcons alloc s
  newIcon alloc 0 (chars ['A', 'd', 'v', 'a', 'n', 'c', 'e', 'd']) .advancedMenu .textMenu s

end

/-! ## The chain -/

/-- The addresses of the first `n` icons. -/
def addresses (alloc : Nat → α) (n : Nat) : List α := (List.range n).map alloc

/-- The icons so far are a chain; the selected one, if any, is one of them. -/
structure Added (alloc : Nat → α) (s : Init α κ) : Prop where
  icons : IconsOf s.icons (addresses alloc s.count)
  selected : ∀ a, s.selectedIcon = some a → ∃ i < s.count, a = alloc i

/-- Filling in an icon leaves the links. -/
theorem iconLinks_fill {φ δ : Type} (s : Icons α φ δ) (iconPtr : α) (slot : Nat)
    (caption : List UInt8) (function : φ) (data : δ) :
    iconLinks (s.fill iconPtr slot caption function data) = iconLinks s := by
  simp only [iconLinks, Icons.fill, Links.mk.injEq]
  constructor <;> funext a <;> by_cases ha : a = iconPtr <;> simp [ha]

omit [DecidableEq α] in
@[simp] theorem length_addresses (alloc : Nat → α) (n : Nat) : (addresses alloc n).length = n := by
  unfold addresses
  rw [List.length_map, List.length_range]

omit [DecidableEq α] in
theorem addresses_succ (alloc : Nat → α) (n : Nat) :
    addresses alloc (n + 1) = addresses alloc n ++ [alloc n] := by
  unfold addresses
  rw [List.range_succ, List.map_append, List.map_singleton]

/-- What a step of the initialisation leads to: the same, with no icon lost. -/
def Grown (alloc : Nat → α) (s : Init α κ) (r : Option (Init α κ)) : Prop :=
  ∃ s', r = some s' ∧ Added alloc s' ∧ s.count ≤ s'.count

omit [DecidableEq α] in
theorem Grown.bind {alloc : Nat → α} {s : Init α κ} {r : Option (Init α κ)} (h : Grown alloc s r)
    {f : Init α κ → Option (Init α κ)} (hf : ∀ s', Added alloc s' → Grown alloc s' (f s')) :
    Grown alloc s (r.bind f) := by
  obtain ⟨s1, rfl, h1, hle1⟩ := h
  obtain ⟨s2, hs2, h2, hle2⟩ := hf s1 h1
  exact ⟨s2, hs2, h2, by omega⟩

omit [DecidableEq α] in
theorem Added.grown {alloc : Nat → α} {s : Init α κ} (h : Added alloc s) : Grown alloc s (some s) :=
  ⟨s, rfl, h, Nat.le_refl _⟩

section
variable {alloc : Nat → α} (hinj : Function.Injective alloc)
include hinj

theorem newIcon_added {s : Init α κ} (h : Added alloc s) (slot : Nat) (caption : List UInt8)
    (function : IconFunction) (data : IconData κ) :
    ∃ s', newIcon alloc slot caption function data s = some s' ∧ Added alloc s' ∧
      s'.count = s.count + 1 := by
  have hnew : alloc s.count ∉ addresses alloc s.count := by
    unfold addresses
    rw [List.mem_map]
    rintro ⟨i, hi, he⟩
    have := hinj he
    have := List.mem_range.1 hi
    omega
  obtain ⟨icons, hadd, hicons⟩ := icons_addIcon
    (s := s.icons.fill (alloc s.count) slot caption function data)
    ⟨h.icons.first, by rw [iconLinks_fill]; exact h.icons.chain⟩ hnew (length_addresses alloc s.count).le
  unfold newIcon
  rw [hadd]
  refine ⟨_, rfl, ⟨?_, fun a ha => ?_⟩, rfl⟩
  · show IconsOf icons (addresses alloc (s.count + 1))
    rwa [addresses_succ]
  · obtain ⟨i, hi, rfl⟩ := h.selected a ha
    exact ⟨i, Nat.lt_succ_of_lt hi, rfl⟩

theorem newIcon_grown {s : Init α κ} (h : Added alloc s) (slot : Nat) (caption : List UInt8)
    (function : IconFunction) (data : IconData κ) :
    Grown alloc s (newIcon alloc slot caption function data s) := by
  obtain ⟨s', hs', h', hcount⟩ := newIcon_added hinj h slot caption function data
  exact ⟨s', hs', h', by omega⟩

theorem newDefaultIcon_grown {s : Init α κ} (h : Added alloc s) (slot : Nat) (caption : List UInt8)
    (entry : κ) : Grown alloc s (newDefaultIcon alloc slot caption entry s) := by
  obtain ⟨s', hs', h', hcount⟩ :=
    newIcon_added hinj h slot caption .drawBootMenu (.config entry)
  unfold newDefaultIcon
  rw [hs']
  refine ⟨_, rfl, ⟨h'.icons, fun a ha => ⟨s.count, ?_, (Option.some.inj ha).symm⟩⟩, ?_⟩
  · show s.count < s'.count
    omega
  · show s.count ≤ s'.count
    omega

variable (hw : Hardware κ)

theorem initCDIcon_grown (i : Nat) {s : Init α κ} (h : Added alloc s) :
    Grown alloc s (initCDIcon alloc hw i s) := by
  unfold initCDIcon
  split
  · exact newIcon_grown hinj h ..
  · exact h.grown

theorem initFatXIcons_grown {s : Init α κ} (h : Added alloc s) :
    Grown alloc s (initFatXIcons alloc hw s) := by
  unfold initFatXIcons
  split
  · cases hw.loadConfigFatX with
    | none => exact h.grown
    | some entry => exact newDefaultIcon_grown hinj h ..
  · exact h.grown

theorem initPartition_grown (driveId n : Nat) {s : Init α κ} (h : Added alloc s) :
    Grown alloc s (initPartition alloc hw driveId n s) := by
  unfold initPartition
  split
  · cases hw.loadConfigNative driveId n with
    | none => exact h.grown
    | some entry => exact newDefaultIcon_grown hinj h ..
  · exact h.grown

theorem initPartitions_grown (driveId : Nat) (ns : List Nat) {s : Init α κ} (h : Added alloc s) :
    Grown alloc s (ns.foldlM (fun s n => initPartition alloc hw driveId n s) s) := by
  induction ns generalizing s with
  | nil => exact h.grown
  | cons n ns ih => exact (initPartition_grown hinj hw driveId n h).bind fun s' h' => ih h'

theorem initNativeDrives_grown (ds : List Nat) {s : Init α κ} (h : Added alloc s) :
    Grown alloc s (initNativeDrives alloc hw ds s) := by
  induction ds generalizing s with
  | nil => exact h.grown
  | cons driveId ds ih =>
    unfold initNativeDrives
    split
    · split
      · exact (initPartitions_grown hinj hw driveId _ h).bind fun s' h' => ih h'
      · exact h.grown
    · exact ih h

/-- With whatever hardware the icons are a chain of at least three, and the
default is one of them. -/
theorem iconMenuInit_icons (icon : α → Icon α IconFunction (IconData κ)) :
    ∃ s, iconMenuInit alloc hw icon = some s ∧ Added alloc s ∧ 3 ≤ s.count := by
  have h0 : Added alloc (⟨⟨none, icon⟩, none, 0⟩ : Init α κ) :=
    ⟨iconsOf_empty _ rfl, fun a ha => by cases ha⟩
  have hdrives : Grown alloc (⟨⟨none, icon⟩, none, 0⟩ : Init α κ)
      ((((initCDIcon alloc hw 0 ⟨⟨none, icon⟩, none, 0⟩).bind (initCDIcon alloc hw 1)).bind
        (initFatXIcons alloc hw)).bind (initNativeIcons alloc hw)) :=
    (((initCDIcon_grown hinj hw 0 h0).bind fun _ h => initCDIcon_grown hinj hw 1 h).bind
      fun _ h => initFatXIcons_grown hinj hw h).bind fun _ h => initNativeDrives_grown hinj hw _ h
  obtain ⟨s1, hs1, h1, -⟩ := hdrives
  obtain ⟨s2, hs2, h2, hc2⟩ := newIcon_added hinj h1 (ICON_WIDTH * 3)
    (chars ['W', 'e', 'b', ' ', 'B', 'o', 'o', 't']) .advancedMenu .ipMenu
  obtain ⟨s3, hs3, h3, hc3⟩ := newIcon_added hinj h2 (ICON_WIDTH * 3)
    (chars ['N', 'e', 't', ' ', 'B', 'o', 'o', 't']) .bootFromNet .null
  obtain ⟨s4, hs4, h4, hc4⟩ := newIcon_added hinj h3 0
    (chars ['A', 'd', 'v', 'a', 'n', 'c', 'e', 'd']) .advancedMenu .textMenu
  refine ⟨s4, ?_, h4, by omega⟩
  have hall : iconMenuInit alloc hw icon =
      (((((((initCDIcon alloc hw 0 ⟨⟨none, icon⟩, none, 0⟩).bind (initCDIcon alloc hw 1)).bind
        (initFatXIcons alloc hw)).bind (initNativeIcons alloc hw)).bind
        (initWebBootIcons alloc)).bind (initNetBootIcons alloc)).bind
        (newIcon alloc 0 (chars ['A', 'd', 'v', 'a', 'n', 'c', 'e', 'd']) .advancedMenu .textMenu)) := by
    unfold iconMenuInit
    simp only [Option.bind_eq_bind, Option.bind_assoc]
  rw [hall, hs1, Option.bind_some]
  show (((newIcon _ _ _ _ _ s1).bind _).bind _) = _
  rw [hs2, Option.bind_some]
  show ((newIcon _ _ _ _ _ s2).bind _) = _
  rw [hs3, Option.bind_some, hs4]

end

/-! ## A disk and a CD drive -/

/-- Sector 3 of a FATX disk; an MBR with two partitions that are flagged bootable. -/
def diskSector (block i : Nat) : UInt8 :=
  if block = 3 then (if i = 0 then 0x42 else if i = 1 then 0x52 else if i = 2 then 0x46
    else if i = 3 then 0x52 else 0)
  else if i = 0x1fe then 0x55 else if i = 0x1ff then 0xaa
  else if i = 0x1be then 0x80 else if i = 0x1ce then 0x80 else 0

/-- A disk with a FATX configuration and two of native partitions, and a CD drive. -/
def diskAndCD : Hardware Unit where
  tsaHarddiskInfo i := if i = 0 then ⟨true, false, diskSector⟩ else ⟨true, true, fun _ _ => 0⟩
  loadConfigFatX := some ()
  loadConfigNative _ _ := some ()

def blankIcon : Icon Nat IconFunction (IconData Unit) := ⟨0, [], none, .null, none, none⟩

/-- The second partition's icon is the fourth of the menu and selected; the first
screen has three others. -/
theorem iconMenuInit_not_shown : ∃ s, iconMenuInit id diskAndCD (fun _ => blankIcon) = some s ∧
    ∃ screen, IconEvent.draw screen ∈ iconMenu s.icons ⟨1, 0, false, s.selectedIcon, none, none⟩ 0 [] ∧
      screen.selected = some 3 ∧ screen.bays.map Bay.icon = [0, 1, 2] ∧ ¬ screen.ShowsSelected := by
  have hbays : ∀ bays : List (Bay Nat), bays.map Bay.icon = [0, 1, 2] →
      ¬ ∃ bay ∈ bays, some 3 = some bay.icon := by
    rintro bays hmap ⟨bay, hbay, hsel⟩
    have hmem : bay.icon ∈ [0, 1, 2] := hmap ▸ List.mem_map_of_mem hbay
    rw [← Option.some.inj hsel] at hmem
    exact absurd hmem (by decide)
  exact ⟨_, rfl, _, List.mem_cons_self, rfl, rfl, hbays _ rfl⟩

end Gentoox.Menu
