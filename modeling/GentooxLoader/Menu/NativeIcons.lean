import GentooxLoader.Menu.IconMenuInit

/-!
# The icons of the native partitions (menu/iconmenu/IconMenuInit.c)

Each disk with an MBR has an icon for each partition that is flagged bootable
and has a configuration.  The function ends at a disk without an MBR, so what
the second disk adds depends on the first one's sector 0.

    newIcon_adds               an icon more, the others' captions and functions unchanged
    initPartitions_adds        what the partitions of one disk add
    initNativeDrives_adds      the disks up to the first that has no MBR
    initNativeIcons_adds_iff   both disks' icons are added ↔ the first one does not end it early
-/

namespace Gentoox.Menu

open Chains Lib

variable {α κ : Type} [DecidableEq α]

/-! ## What an icon is apart from its links -/

structure IconBody (φ δ : Type) where
  iconSlot : Nat
  szCaption : List UInt8
  functionPtr : Option φ
  functionDataPtr : δ

def Icon.body {φ δ : Type} (icon : Icon α φ δ) : IconBody φ δ :=
  ⟨icon.iconSlot, icon.szCaption, icon.functionPtr, icon.functionDataPtr⟩

/-- The icons so far, in the order in which they were allocated. -/
def Init.bodies (alloc : Nat → α) (s : Init α κ) : List (IconBody IconFunction (IconData κ)) :=
  (addresses alloc s.count).map fun a => (s.icons.icon a).body

/-- The icon of a native partition. -/
def nativeIcon (entry : κ) : IconBody IconFunction (IconData κ) :=
  ⟨ICON_WIDTH, chars [' ', ' ', 'N', 'a', 't', 'i', 'v', 'e'], some .drawBootMenu, .config entry⟩

/-- A partition that is flagged bootable, and the configuration found on it. -/
def bootable (hw : Hardware κ) (driveId n : Nat) : Option κ :=
  if (hw.tsaHarddiskInfo driveId).sector 0 (0x1be + 16 * n) &&& 0x80 ≠ 0 then
    hw.loadConfigNative driveId n
  else none

/-- What a drive has to add, whatever the other one is. -/
def nativeIcons (hw : Hardware κ) (driveId : Nat) : List (IconBody IconFunction (IconData κ)) :=
  if isDisk hw driveId && hasMBR ((hw.tsaHarddiskInfo driveId).sector 0) then
    ([0, 1, 2, 3].filterMap (bootable hw driveId)).map nativeIcon
  else []

/-- A drive at which the function returns. -/
def endsHere (hw : Hardware κ) (driveId : Nat) : Bool :=
  isDisk hw driveId && !hasMBR ((hw.tsaHarddiskInfo driveId).sector 0)

/-- A step of the initialisation: these icons more, and no other changed. -/
def Adds (alloc : Nat → α) (s : Init α κ) (r : Option (Init α κ))
    (new : List (IconBody IconFunction (IconData κ))) : Prop :=
  ∃ s', r = some s' ∧ Added alloc s' ∧ s'.bodies alloc = s.bodies alloc ++ new

/-! ## One icon -/

omit [DecidableEq α] in
theorem Added.adds {alloc : Nat → α} {s : Init α κ} (h : Added alloc s) :
    Adds alloc s (some s) [] :=
  ⟨s, rfl, h, (List.append_nil _).symm⟩

omit [DecidableEq α] in
theorem Adds.bind {alloc : Nat → α} {s : Init α κ} {r : Option (Init α κ)}
    {new new' : List (IconBody IconFunction (IconData κ))} (h : Adds alloc s r new)
    {f : Init α κ → Option (Init α κ)} (hf : ∀ s', Added alloc s' → Adds alloc s' (f s') new') :
    Adds alloc s (r.bind f) (new ++ new') := by
  obtain ⟨s1, rfl, h1, hnew⟩ := h
  obtain ⟨s2, hs2, h2, hnew'⟩ := hf s1 h1
  exact ⟨s2, hs2, h2, by rw [hnew', hnew, List.append_assoc]⟩

/-- AddIcon changes links only. -/
theorem addIcon_body {φ δ : Type} {fuel : Nat} {s s' : Icons α φ δ} {x : α}
    (h : addIcon fuel s x = some s') (a : α) : (s'.icon a).body = (s.icon a).body := by
  unfold addIcon at h
  obtain ⟨last, -, rfl⟩ := Option.map_eq_some_iff.1 h
  cases last with
  | none =>
    by_cases ha : a = x
    · subst ha
      simp only [Function.update_self, Icon.body]
    · simp only [Function.update_of_ne ha]
  | some c =>
    by_cases ha : a = x <;> by_cases hc : a = c
    · subst ha hc
      simp only [Function.update_self, Icon.body]
    · subst ha
      simp only [Function.update_self, Function.update_of_ne hc, Icon.body]
    · subst hc
      simp only [Function.update_of_ne ha, Function.update_self, Icon.body]
    · simp only [Function.update_of_ne ha, Function.update_of_ne hc]

section
variable {alloc : Nat → α} (hinj : Function.Injective alloc)
include hinj

theorem newIcon_adds {s : Init α κ} (h : Added alloc s) (slot : Nat) (caption : List UInt8)
    (function : IconFunction) (data : IconData κ) :
    Adds alloc s (newIcon alloc slot caption function data s)
      [⟨slot, caption, some function, data⟩] := by
  obtain ⟨s', hs', h', hcount⟩ := newIcon_added hinj h slot caption function data
  refine ⟨s', hs', h', ?_⟩
  unfold newIcon at hs'
  obtain ⟨icons, hadd, rfl⟩ := Option.map_eq_some_iff.1 hs'
  unfold Init.bodies
  rw [hcount, addresses_succ, List.map_append, List.map_singleton]
  congr 1
  · refine List.map_congr_left fun a ha => ?_
    have hne : a ≠ alloc s.count := by
      rintro rfl
      obtain ⟨i, hi, he⟩ := List.mem_map.1 ha
      have := hinj he
      have := List.mem_range.1 hi
      omega
    show (icons.icon a).body = _
    rw [addIcon_body hadd]
    simp only [Icons.fill, Function.update_of_ne hne]
  · show [(icons.icon _).body] = _
    rw [addIcon_body hadd]
    simp only [Icons.fill, Function.update_self, Icon.body]

theorem newDefaultIcon_adds {s : Init α κ} (h : Added alloc s) (slot : Nat) (caption : List UInt8)
    (entry : κ) :
    Adds alloc s (newDefaultIcon alloc slot caption entry s)
      [⟨slot, caption, some .drawBootMenu, .config entry⟩] := by
  obtain ⟨s1, hs1, -, hbodies⟩ := newIcon_adds hinj h slot caption .drawBootMenu (.config entry)
  obtain ⟨s2, hs2, h2, -⟩ := newDefaultIcon_grown hinj h slot caption entry
  refine ⟨s2, hs2, h2, ?_⟩
  unfold newDefaultIcon at hs2
  rw [hs1] at hs2
  obtain rfl := Option.some.inj hs2
  exact hbodies

variable (hw : Hardware κ)

theorem initPartition_adds (driveId n : Nat) {s : Init α κ} (h : Added alloc s) :
    Adds alloc s (initPartition alloc hw driveId n s)
      ((bootable hw driveId n).toList.map nativeIcon) := by
  unfold initPartition bootable
  split
  · cases hw.loadConfigNative driveId n with
    | none => exact h.adds
    | some entry => exact newDefaultIcon_adds hinj h ..
  · exact h.adds

theorem initPartitions_adds (driveId : Nat) (ns : List Nat) {s : Init α κ} (h : Added alloc s) :
    Adds alloc s (ns.foldlM (fun s n => initPartition alloc hw driveId n s) s)
      ((ns.filterMap (bootable hw driveId)).map nativeIcon) := by
  induction ns generalizing s with
  | nil => exact h.adds
  | cons n ns ih =>
    have hlist : ((n :: ns).filterMap (bootable hw driveId)).map nativeIcon =
        (bootable hw driveId n).toList.map nativeIcon ++
          (ns.filterMap (bootable hw driveId)).map nativeIcon := by
      rw [List.filterMap_cons]
      cases bootable hw driveId n <;> rfl
    rw [hlist]
    exact (initPartition_adds hinj hw driveId n h).bind fun s' h' => ih h'

/-! ## The drives -/

/-- The drives one after the other, up to one that is a disk without an MBR. -/
theorem initNativeDrives_adds (ds : List Nat) {s : Init α κ} (h : Added alloc s) :
    Adds alloc s (initNativeDrives alloc hw ds s)
      ((ds.takeWhile fun d => !endsHere hw d).flatMap (nativeIcons hw)) := by
  induction ds generalizing s with
  | nil => exact h.adds
  | cons driveId ds ih =>
    unfold initNativeDrives
    cases hdisk : isDisk hw driveId with
    | false =>
      have hends : endsHere hw driveId = false := by rw [endsHere, hdisk, Bool.false_and]
      have hnone : nativeIcons hw driveId = [] := by
        rw [nativeIcons, hdisk, Bool.false_and, if_neg Bool.false_ne_true]
      rw [List.takeWhile_cons, hends, Bool.not_false, if_pos rfl, List.flatMap_cons, hnone,
        if_neg Bool.false_ne_true]
      exact ih h
    | true =>
      rw [if_pos rfl, List.takeWhile_cons, endsHere, hdisk, Bool.true_and]
      cases hmbr : hasMBR ((hw.tsaHarddiskInfo driveId).sector 0) with
      | false => exact h.adds
      | true =>
        have hsome : nativeIcons hw driveId =
            ([0, 1, 2, 3].filterMap (bootable hw driveId)).map nativeIcon := by
          rw [nativeIcons, hdisk, hmbr, Bool.true_and, if_pos rfl]
        rw [if_pos rfl, Bool.not_true, Bool.not_false, if_pos rfl, List.flatMap_cons, hsome]
        exact (initPartitions_adds hinj hw driveId _ h).bind fun s' h' => ih h'

omit [DecidableEq α] hinj in
theorem nativeIcons_of_endsHere {driveId : Nat} (h : endsHere hw driveId = true) :
    nativeIcons hw driveId = [] := by
  obtain ⟨-, hmbr⟩ := Bool.and_eq_true_iff.1 h
  unfold nativeIcons
  have hmbr : hasMBR ((hw.tsaHarddiskInfo driveId).sector 0) = false := by simpa using hmbr
  rw [hmbr, Bool.and_false, if_neg Bool.false_ne_true]

omit [DecidableEq α] hinj in
/-- What comes from the two drives; a second one that ends the loop has nothing to lose. -/
theorem nativeIcons_two : (([0, 1] : List Nat).takeWhile fun d => !endsHere hw d).flatMap
    (nativeIcons hw) = if endsHere hw 0 then [] else nativeIcons hw 0 ++ nativeIcons hw 1 := by
  rw [List.takeWhile_cons]
  cases endsHere hw 0 with
  | true => rfl
  | false =>
    rw [Bool.not_false, if_pos rfl, if_neg Bool.false_ne_true, List.flatMap_cons,
      List.takeWhile_cons]
    cases h1 : endsHere hw 1 with
    | true =>
      rw [nativeIcons_of_endsHere hw h1]
      rfl
    | false =>
      show _ ++ (nativeIcons hw 1 ++ []) = _
      rw [List.append_nil]

/-! ## Top theorem -/

/-- **Every drive adds its icons** exactly if the first one is not a disk without
an MBR, or the second one has nothing to add. -/
theorem initNativeIcons_adds_iff {s : Init α κ} (h : Added alloc s) :
    Adds alloc s (initNativeIcons alloc hw s) (nativeIcons hw 0 ++ nativeIcons hw 1) ↔
      (isDisk hw 0 = true → hasMBR ((hw.tsaHarddiskInfo 0).sector 0) = false →
        nativeIcons hw 1 = []) := by
  have hadds := initNativeDrives_adds hinj hw [0, 1] h
  have hiff : Adds alloc s (initNativeIcons alloc hw s) (nativeIcons hw 0 ++ nativeIcons hw 1) ↔
      ([0, 1].takeWhile fun d => !endsHere hw d).flatMap (nativeIcons hw) =
        nativeIcons hw 0 ++ nativeIcons hw 1 := by
    constructor
    · rintro ⟨s1, hs1, -, hnew⟩
      obtain ⟨s2, hs2, -, hnew2⟩ := hadds
      obtain rfl : s1 = s2 := Option.some.inj (hs1.symm.trans hs2)
      exact List.append_cancel_left (hnew2.symm.trans hnew)
    · intro heq
      rwa [heq] at hadds
  rw [hiff, nativeIcons_two]
  cases hends : endsHere hw 0 with
  | true =>
    obtain ⟨hdisk, hmbr⟩ := Bool.and_eq_true_iff.1 hends
    rw [if_pos rfl, nativeIcons_of_endsHere hw hends, List.nil_append]
    exact ⟨fun heq _ _ => heq.symm, fun hcond => (hcond hdisk (by simpa using hmbr)).symm⟩
  | false =>
    rw [if_neg Bool.false_ne_true]
    refine iff_of_true rfl fun hdisk hmbr => absurd hends ?_
    rw [endsHere, hdisk, hmbr]
    exact Bool.false_ne_true.symm

end

/-! ## A blank disk before a bootable one -/

/-- The first drive is a disk that has not been partitioned. -/
def blankFirst : Hardware Unit where
  tsaHarddiskInfo i := ⟨true, false, if i = 0 then fun _ _ => 0 else diskSector⟩
  loadConfigFatX := none
  loadConfigNative _ _ := some ()

def noIcons : Init Nat Unit := ⟨⟨none, fun _ => blankIcon⟩, none, 0⟩

theorem noIcons_added : Added id noIcons := ⟨iconsOf_empty _ rfl, fun a ha => by cases ha⟩

/-- The two bootable partitions of the second disk get no icon. -/
theorem initNativeIcons_blankFirst :
    ¬ Adds id noIcons (initNativeIcons id blankFirst noIcons)
      (nativeIcons blankFirst 0 ++ nativeIcons blankFirst 1) := by
  rintro ⟨s', hs', -, hnew⟩
  obtain rfl : noIcons = s' := Option.some.inj hs'
  exact absurd (congrArg List.length hnew) (by decide)

/-- A disk with an MBR, and a CD drive that does not matter. -/
theorem initNativeIcons_adds_iff_diskFirst :
    Adds id noIcons (initNativeIcons id diskAndCD noIcons)
      (nativeIcons diskAndCD 0 ++ nativeIcons diskAndCD 1) :=
  (initNativeIcons_adds_iff Function.injective_id diskAndCD noIcons_added).2
    fun _ hmbr => absurd hmbr (by decide)

end Gentoox.Menu
