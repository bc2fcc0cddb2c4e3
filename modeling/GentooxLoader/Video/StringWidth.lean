import Mathlib.Data.UInt

/-!
# The width of a string (drivers/video/BootVideoHelpers.c)

One function adds up the widths of the characters, for text that is to be
centred; the other draws them and returns how far it came.  A tab is drawn up to
the next stop, and measured as a space.  A string is the list of its bytes, the
byte 2 changes between single and double size.

    overlayCharacter_width    every other character is as wide as it is measured
    overlayStringFrom_shift   what is drawn depends on where it begins only
    overlayString_tab         with a tab in it, some place gives another width
    overlayString_width_iff   drawn as wide as measured, wherever it is ↔ no tab in it
-/

namespace Gentoox.Video

/-! ## Algorithm -/

def WIDTH_SPACE_PIXELS : UInt32 := 5

/-- Where the glyphs from 0x21 on begin in the font (lib/font/fontx16.h). -/
def waStarts : List UInt32 :=
  [0, 4, 12, 20, 29, 42, 53, 56,
    62, 67, 73, 81, 85, 91, 95, 100,
    109, 117, 125, 133, 142, 149, 158, 166,
    174, 184, 189, 193, 202, 211, 219, 229,
    243, 254, 265, 276, 288, 297, 306, 318,
    330, 333, 343, 353, 362, 376, 386, 398,
    407, 420, 430, 440, 449, 460, 470, 484,
    495, 505, 514, 518, 523, 529, 535, 546,
    550, 559, 568, 576, 585, 594, 600, 608,
    618, 621, 626, 635, 639, 652, 662, 671,
    680, 690, 696, 704, 709, 718, 727, 738,
    747, 756, 763, 769, 774, 779, 788]

def bootVideoGetCharacterWidth (bCharacter : UInt8) (fDouble : Bool) : UInt32 :=
  let nSpace := if fDouble then 8 else WIDTH_SPACE_PIXELS
  if bCharacter < 0x21 then nSpace
  else if bCharacter > 0x7e then nSpace
  else
    let nStart := waStarts.getD (bCharacter.toNat - 0x21) 0
    let nWidth := waStarts.getD (bCharacter.toNat - 0x20) 0 - nStart
    if fDouble then nWidth <<< 1 else nWidth

/-- `fDouble` and `nWidth` after one more character. -/
def measure (s : Bool × UInt32) (c : UInt8) : Bool × UInt32 :=
  if c = 2 then (!s.1, s.2) else (s.1, s.2 + bootVideoGetCharacterWidth c s.1)

def bootVideoGetStringTotalWidth (szc : List UInt8) : UInt32 := (szc.foldl measure (false, 0)).2

/-- How wide a tab is at an address; `none` is a division by zero. -/
def tabWidth (pdwaTopLeftDestination m_dwCountBytesPerLineDestination : UInt32) : Option UInt32 :=
  if m_dwCountBytesPerLineDestination = 0 then none
  else
    let dw := pdwaTopLeftDestination % m_dwCountBytesPerLineDestination
    let dw1 := (dw + (1 : UInt32)) % ((32 : UInt32) <<< 2)
    some (((32 : UInt32) <<< 2 - dw1) >>> 2)

/-- The width that is returned, without the pixels. -/
def bootVideoOverlayCharacter (pdwaTopLeftDestination m_dwCountBytesPerLineDestination : UInt32)
    (bCharacter : UInt8) (fDouble : Bool) : Option UInt32 :=
  if bCharacter = 9 then tabWidth pdwaTopLeftDestination m_dwCountBytesPerLineDestination
  else
    let nSpace := if fDouble then 8 else WIDTH_SPACE_PIXELS
    if bCharacter < 0x21 then some nSpace
    else if bCharacter > 0x7e then some nSpace
    else
      let nStart := waStarts.getD (bCharacter.toNat - (0x20 + 1)) 0
      let nWidth := waStarts.getD (bCharacter.toNat - 0x20) 0 - nStart
      some (if fDouble then nWidth <<< 1 else nWidth)

section
variable (pdwaTopLeftDestination m_dwCountBytesPerLineDestination : UInt32)

/-- The loop of `BootVideoOverlayString` over what is left of the string. -/
def overlayStringFrom : List UInt8 → Bool → UInt32 → Option UInt32
  | [], _, uiWidth => some uiWidth
  | c :: szString, fDouble, uiWidth =>
    if c = 10 then some uiWidth
    else if c = 2 then overlayStringFrom szString (!fDouble) uiWidth
    else
      (bootVideoOverlayCharacter (pdwaTopLeftDestination + 4 * uiWidth)
        m_dwCountBytesPerLineDestination c fDouble).bind fun nWidth =>
          overlayStringFrom szString fDouble (uiWidth + nWidth)

def bootVideoOverlayString (szString : List UInt8) : Option UInt32 :=
  overlayStringFrom pdwaTopLeftDestination m_dwCountBytesPerLineDestination szString false 0

end

/-! ## Characters -/

theorem overlayCharacter_width {c : UInt8} (hc : c ≠ 9) (destination pitch : UInt32)
    (fDouble : Bool) : bootVideoOverlayCharacter destination pitch c fDouble =
      some (bootVideoGetCharacterWidth c fDouble) := by
  unfold bootVideoOverlayCharacter bootVideoGetCharacterWidth
  rw [if_neg hc]
  simp only
  split
  · rfl
  · split
    · rfl
    · rfl

/-! ## Strings -/

section
variable {pitch : UInt32}

/-- Without tabs the two loops go along with each other. -/
theorem overlayStringFrom_append {s : List UInt8} (hline : 10 ∉ s) (htab : 9 ∉ s)
    (t : List UInt8) (destination : UInt32) (d : Bool) (w : UInt32) :
    overlayStringFrom destination pitch (s ++ t) d w =
      overlayStringFrom destination pitch t (s.foldl measure (d, w)).1
        (s.foldl measure (d, w)).2 := by
  induction s generalizing d w with
  | nil => rfl
  | cons c s ih =>
    have hline' : 10 ∉ s := fun h => hline (List.mem_cons_of_mem c h)
    have htab' : 9 ∉ s := fun h => htab (List.mem_cons_of_mem c h)
    have h10 : c ≠ 10 := fun h => hline (h ▸ List.mem_cons_self)
    have h9 : c ≠ 9 := fun h => htab (h ▸ List.mem_cons_self)
    rw [List.cons_append, overlayStringFrom, if_neg h10, List.foldl_cons, measure]
    by_cases h2 : c = 2
    · rw [if_pos h2, if_pos h2]
      exact ih hline' htab' (!d) w
    · rw [if_neg h2, if_neg h2, overlayCharacter_width h9]
      exact ih hline' htab' d _

/-- What is drawn depends on where it begins only. -/
theorem overlayStringFrom_shift (s : List UInt8) (destination : UInt32) (d : Bool) (w : UInt32) :
    overlayStringFrom destination pitch s d w =
      (overlayStringFrom (destination + 4 * w) pitch s d 0).map (w + ·) := by
  induction s generalizing destination d w with
  | nil => exact congrArg some (UInt32.add_zero w).symm
  | cons c s ih =>
    unfold overlayStringFrom
    by_cases h10 : c = 10
    · rw [if_pos h10, if_pos h10]
      exact congrArg some (UInt32.add_zero w).symm
    rw [if_neg h10, if_neg h10]
    by_cases h2 : c = 2
    · rw [if_pos h2, if_pos h2]
      exact ih destination (!d) w
    rw [if_neg h2, if_neg h2]
    have hstart : destination + 4 * w + 4 * 0 = destination + 4 * w := UInt32.add_zero _
    rw [hstart]
    cases bootVideoOverlayCharacter (destination + 4 * w) pitch c d with
    | none => rfl
    | some n =>
      rw [Option.bind_some, Option.bind_some, ih destination, ih (destination + 4 * w),
        Option.map_map, UInt32.zero_add, UInt32.mul_add, UInt32.add_assoc]
      refine congrArg (Option.map · _) (funext fun x => ?_)
      exact UInt32.add_assoc w n x

theorem tabWidth_zero (hpitch : 4 < pitch) : tabWidth 0 pitch = some 31 := by
  have hne : pitch ≠ 0 := by
    rintro rfl
    exact absurd hpitch (by decide)
  have hmod : (0 : UInt32) % pitch = 0 := UInt32.zero_mod
  unfold tabWidth
  rw [if_neg hne, hmod]
  rfl

theorem tabWidth_four (hpitch : 4 < pitch) : tabWidth 4 pitch = some 30 := by
  have hne : pitch ≠ 0 := by
    rintro rfl
    exact absurd hpitch (by decide)
  have hmod : (4 : UInt32) % pitch = 4 := UInt32.toNat_inj.1 (Nat.mod_eq_of_lt hpitch)
  unfold tabWidth
  rw [if_neg hne, hmod]
  rfl

/-- A tab at an address, and the rest at the next stop. -/
theorem overlayStringFrom_tab {a n : UInt32} (htab : tabWidth a pitch = some n) (t : List UInt8)
    (d : Bool) (w : UInt32) :
    overlayStringFrom (a - 4 * w) pitch (9 :: t) d w =
      (overlayStringFrom (a + 4 * n) pitch t d 0).map (w + n + ·) := by
  have haddr : a - 4 * w + 4 * w = a := UInt32.sub_add_cancel a (4 * w)
  rw [overlayStringFrom, if_neg (by decide), if_neg (by decide), haddr, bootVideoOverlayCharacter,
    if_pos rfl, htab, Option.bind_some, overlayStringFrom_shift, UInt32.mul_add,
    ← UInt32.add_assoc, haddr]

/-- **A tab** is a pixel wider at address 0 than at the next one, and what follows is
drawn at the same place. -/
theorem overlayString_tab {s : List UInt8} (hline : 10 ∉ s) (htab : 9 ∈ s)
    (hpitch : 4 < pitch) (total : UInt32) :
    ∃ destination, bootVideoOverlayString destination pitch s ≠ some total := by
  obtain ⟨s, t, rfl, hs⟩ := List.eq_append_cons_of_mem htab
  have hline' : 10 ∉ s := fun h => hline (List.mem_append_left _ h)
  by_contra hall
  have heq : ∀ destination, bootVideoOverlayString destination pitch (s ++ 9 :: t) = some total :=
    fun destination => not_not.1 (not_exists.1 hall destination)
  have h0 := heq (0 - 4 * (s.foldl measure (false, 0)).2)
  have h4 := heq (4 - 4 * (s.foldl measure (false, 0)).2)
  unfold bootVideoOverlayString at h0 h4
  rw [overlayStringFrom_append hline' hs, overlayStringFrom_tab (tabWidth_zero hpitch)] at h0
  rw [overlayStringFrom_append hline' hs, overlayStringFrom_tab (tabWidth_four hpitch)] at h4
  obtain ⟨rest, hrest, hsum⟩ := Option.map_eq_some_iff.1 h0
  obtain ⟨rest', hrest', hsum'⟩ := Option.map_eq_some_iff.1 h4
  obtain rfl : rest = rest' := Option.some.inj (hrest.symm.trans hrest')
  have hpixel := (UInt32.add_left_inj rest).1 (hsum.trans hsum'.symm)
  exact absurd ((UInt32.add_right_inj _).1 hpixel) (by decide)

/-! ## Top theorem -/

theorem overlayString_noTab {s : List UInt8} (hline : 10 ∉ s) (htab : 9 ∉ s)
    (destination : UInt32) : bootVideoOverlayString destination pitch s =
      some (bootVideoGetStringTotalWidth s) := by
  have h : overlayStringFrom destination pitch (s ++ []) false 0 = _ :=
    overlayStringFrom_append hline htab [] destination false 0
  rwa [List.append_nil] at h

/-- **Drawn as wide as measured**, at every destination and pitch, exactly if there
is no tab. -/
theorem overlayString_width_iff {s : List UInt8} (hline : 10 ∉ s) :
    (∀ destination pitch, bootVideoOverlayString destination pitch s =
      some (bootVideoGetStringTotalWidth s)) ↔ 9 ∉ s := by
  constructor
  · intro h htab
    obtain ⟨destination, hne⟩ := overlayString_tab hline htab (show (4 : UInt32) < 2560 by decide)
      (bootVideoGetStringTotalWidth s)
    exact hne (h destination 2560)
  · intro htab destination pitch
    exact overlayString_noTab hline htab destination

end

/-! ## A tab -/

/-- "a", a tab and "b" at the left border of a screen of 640 pixels. -/
theorem overlayString_tab_ab :
    bootVideoOverlayString 0xf0000000 2560 [0x61, 9, 0x62] ≠
      some (bootVideoGetStringTotalWidth [0x61, 9, 0x62]) := by
  decide

/-- The two sizes in a string without a tab. -/
theorem overlayString_width_iff_sizes :
    bootVideoOverlayString 0xf0000000 2560 [0x47, 2, 0x47, 0x20, 0xe9] =
      some (bootVideoGetStringTotalWidth [0x47, 2, 0x47, 0x20, 0xe9]) :=
  (overlayString_width_iff (by decide)).2 (by decide) 0xf0000000 2560

end Gentoox.Video
