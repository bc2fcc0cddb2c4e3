import GentooxLoader.Base.Words
import GentooxLoader.MemoryLayout

/-!
# The progress bar (lib/misc/ProgressBar.c)

A frame 50 pixels from the left and right of the screen, filled up to the column
`barEnd`.  The column is worked out in steps of four pixels: first times the
bytes that have come, then divided by those that are expected.

    barEnd_eq                   the column without wrapping, where the product fits
    barEnd_le                   it is in the frame
    barEnd_mono                 it goes to the right only
    displayProgressBar_inside   no pixel is stored outside of the screen
    barEnd_ok_iff               the column is right ↔ the product fits
-/

namespace Gentoox.Video

open Words

/-! ## Algorithm -/

/-- The first factor: `(w-150)>>2`. -/
def barSteps (w : Int) : Int := (w - 150) / 4

/-- `m`, up to where the bar is filled. -/
def barEnd (w currentVal maxVal : Int) : Int :=
  let m := (long (barSteps w * currentVal)).tdiv maxVal
  let m := long (m * 4)
  long (m + 50)

/-- The pixels from `x=first` to `x=last-1`, or lines. -/
def span (first last : Int) : List Int :=
  (List.range (last - first).toNat).map fun i : Nat => first + i

def WHITE : UInt32 := 0xffffffff

/-- What is stored in the frame buffer, by index. -/
def displayProgressBar (width height currentVal maxVal : Int) (color : UInt32) :
    List (Int × UInt32) :=
  if maxVal < 2 then []
  else
    let l := width - 100
    let y := height - 100
    let m := barEnd width currentVal maxVal
    ((span 50 l).flatMap fun x =>
      [(y * width + x, WHITE), ((y + 1) * width + x, WHITE)] ++
      (if 55 < x ∧ x < m then (span 5 45).map fun z => ((y + z) * width + x, color) else []) ++
      [((y + 50) * width + x, WHITE), ((y + 51) * width + x, WHITE)]) ++
    (span y (height - 50)).flatMap fun y =>
      [(y * width + 51, WHITE), (y * width + 50, WHITE), (y * width + l - 1, WHITE),
        (y * width + l - 2, WHITE)]

/-! ## The column -/

/-- Within the bounds of an `int`. -/
def FitsInt (x : Int) : Prop := -2 ^ 31 ≤ x ∧ x < 2 ^ 31

section
variable {w currentVal maxVal : Int} (hw : 640 ≤ w ∧ w ≤ 1024) (hmax : 2 ≤ maxVal)
  (hcur : 0 ≤ currentVal)

include hw in
theorem barSteps_bounds : 0 ≤ barSteps w ∧ barSteps w ≤ 218 ∧ barSteps w * 4 ≤ w - 150 := by
  unfold barSteps
  omega

include hw hmax hcur in
/-- The quotient is at most the number of steps. -/
theorem steps_le (hle : currentVal ≤ maxVal) : 0 ≤ (barSteps w * currentVal).tdiv maxVal ∧
    (barSteps w * currentVal).tdiv maxVal ≤ barSteps w := by
  obtain ⟨h0, -⟩ := barSteps_bounds hw
  have hprod : 0 ≤ barSteps w * currentVal := Int.mul_nonneg h0 hcur
  rw [Int.tdiv_eq_ediv_of_nonneg hprod]
  refine ⟨Int.ediv_nonneg hprod (by omega), ?_⟩
  apply Int.ediv_le_of_le_mul (by omega)
  exact Int.mul_le_mul_of_nonneg_left hle h0

include hw hmax hcur in
theorem barEnd_eq (hle : currentVal ≤ maxVal) (hfits : barSteps w * currentVal < 2 ^ 31) :
    barEnd w currentVal maxVal = (barSteps w * currentVal).tdiv maxVal * 4 + 50 := by
  obtain ⟨h0, h218, -⟩ := barSteps_bounds hw
  obtain ⟨hq0, hq⟩ := steps_le hw hmax hcur hle
  unfold barEnd
  simp only
  rw [long_of_small (Int.mul_nonneg h0 hcur) hfits]
  have hpixels : long ((barSteps w * currentVal).tdiv maxVal * 4) =
      (barSteps w * currentVal).tdiv maxVal * 4 := long_of_small (by omega) (by omega)
  rw [hpixels, long_of_small (by omega) (by omega)]

include hw hmax hcur in
theorem barEnd_le (hle : currentVal ≤ maxVal) (hfits : barSteps w * currentVal < 2 ^ 31) :
    50 ≤ barEnd w currentVal maxVal ∧ barEnd w currentVal maxVal ≤ w - 100 := by
  obtain ⟨-, -, h4⟩ := barSteps_bounds hw
  obtain ⟨hq0, hq⟩ := steps_le hw hmax hcur hle
  rw [barEnd_eq hw hmax hcur hle hfits]
  omega

include hw hmax hcur in
theorem barEnd_mono (hle : currentVal ≤ maxVal) (hfits : barSteps w * currentVal < 2 ^ 31) {c : Int}
    (hc0 : 0 ≤ c) (hc : c ≤ currentVal) : barEnd w c maxVal ≤ barEnd w currentVal maxVal := by
  obtain ⟨h0, -⟩ := barSteps_bounds hw
  have hprod : barSteps w * c ≤ barSteps w * currentVal := Int.mul_le_mul_of_nonneg_left hc h0
  rw [barEnd_eq hw hmax hc0 (by omega) (by omega), barEnd_eq hw hmax hcur hle hfits,
    Int.tdiv_eq_ediv_of_nonneg (Int.mul_nonneg h0 hc0),
    Int.tdiv_eq_ediv_of_nonneg (Int.mul_nonneg h0 hcur)]
  have hdiv := Int.ediv_le_ediv (show 0 < maxVal by omega) hprod
  omega

end

/-! ## The pixels -/

theorem mem_span {first last x : Int} : x ∈ span first last ↔ first ≤ x ∧ x < last := by
  unfold span
  rw [List.mem_map]
  constructor
  · rintro ⟨i, hi, rfl⟩
    have := List.mem_range.1 hi
    omega
  · rintro ⟨h1, h2⟩
    exact ⟨(x - first).toNat, List.mem_range.2 (by omega), by omega⟩

/-- A line and a column of the screen. -/
theorem pixel_inside {width height x y : Int} (hx : 0 ≤ x ∧ x < width) (hy : 0 ≤ y ∧ y < height) :
    0 ≤ y * width + x ∧ y * width + x < width * height := by
  have h0 : 0 ≤ y * width := Int.mul_nonneg hy.1 (by omega)
  have h1 : (y + 1) * width ≤ height * width := Int.mul_le_mul_of_nonneg_right (by omega) (by omega)
  rw [Int.add_mul, Int.one_mul, Int.mul_comm height] at h1
  omega

/-- **No pixel outside of the screen** is stored, wherever the column is. -/
theorem displayProgressBar_inside {width height : Int} (hwidth : 640 ≤ width) (hheight : 480 ≤ height)
    (currentVal maxVal : Int) (color : UInt32) :
    ∀ store ∈ displayProgressBar width height currentVal maxVal color,
      0 ≤ store.1 ∧ store.1 < width * height := by
  intro store hstore
  unfold displayProgressBar at hstore
  split at hstore
  · cases hstore
  simp only [List.mem_append, List.mem_flatMap, List.mem_cons, List.not_mem_nil, or_false] at hstore
  rcases hstore with ⟨x, hx, (((rfl | rfl) | hbar) | rfl | rfl)⟩ | ⟨y, hy, hside⟩
  · have := mem_span.1 hx
    exact pixel_inside (by omega) (by omega)
  · have := mem_span.1 hx
    exact pixel_inside (by omega) (by omega)
  · have := mem_span.1 hx
    split at hbar
    · obtain ⟨z, hz, rfl⟩ := List.mem_map.1 hbar
      have := mem_span.1 hz
      exact pixel_inside (by omega) (by omega)
    · cases hbar
  · have := mem_span.1 hx
    exact pixel_inside (by omega) (by omega)
  · have := mem_span.1 hx
    exact pixel_inside (by omega) (by omega)
  · have := mem_span.1 hy
    rcases hside with rfl | rfl | rfl | rfl
    · exact pixel_inside (by omega) (by omega)
    · exact pixel_inside (by omega) (by omega)
    · have h := pixel_inside (show 0 ≤ width - 101 ∧ width - 101 < width by omega)
        (show 0 ≤ y ∧ y < height by omega)
      simp only
      omega
    · have h := pixel_inside (show 0 ≤ width - 102 ∧ width - 102 < width by omega)
        (show 0 ≤ y ∧ y < height by omega)
      simp only
      omega

/-! ## Top theorem -/

/-- The column is computed without overflow, lies in the frame, and no earlier one is
further to the right. -/
structure BarOk (w currentVal maxVal : Int) : Prop where
  product : FitsInt (barSteps w * currentVal)
  pixels : FitsInt ((barSteps w * currentVal).tdiv maxVal * 4 + 50)
  left : 50 ≤ barEnd w currentVal maxVal
  right : barEnd w currentVal maxVal ≤ w - 100
  mono : ∀ c, 0 ≤ c → c ≤ currentVal → barEnd w c maxVal ≤ barEnd w currentVal maxVal

/-- **The bar** is right exactly if the product of steps and bytes fits an `int`. -/
theorem barEnd_ok_iff {w currentVal maxVal : Int} (hw : 640 ≤ w ∧ w ≤ 1024) (hmax : 2 ≤ maxVal)
    (hcur : 0 ≤ currentVal ∧ currentVal ≤ maxVal) :
    BarOk w currentVal maxVal ↔ currentVal ≤ (2 ^ 31 - 1) / barSteps w := by
  obtain ⟨h0, h218, h4⟩ := barSteps_bounds hw
  have hpos : 0 < barSteps w := by
    unfold barSteps
    omega
  rw [Int.le_ediv_iff_mul_le hpos, Int.mul_comm]
  constructor
  · intro h
    have hfits := h.product.2
    omega
  · intro h
    have hfits : barSteps w * currentVal < 2 ^ 31 := by omega
    have hprod : 0 ≤ barSteps w * currentVal := Int.mul_nonneg h0 hcur.1
    obtain ⟨hq0, hq⟩ := steps_le hw hmax hcur.1 hcur.2
    obtain ⟨hleft, hright⟩ := barEnd_le hw hmax hcur.1 hcur.2 hfits
    exact ⟨⟨by omega, hfits⟩, ⟨by omega, by omega⟩, hleft, hright,
      fun c hc0 hc => barEnd_mono hw hmax hcur.1 hcur.2 hfits hc0 hc⟩

/-- 10 MB of 11, which there is room for, on a screen of 1024 pixels: the column is
left of the screen. -/
theorem barEnd_1024 : (11 * 2 ^ 20 : Int) ≤ maxInitrdSize.toNat ∧
    barEnd 1024 (10 * 2 ^ 20) (11 * 2 ^ 20) = -646 ∧ ¬ BarOk 1024 (10 * 2 ^ 20) (11 * 2 ^ 20) := by
  refine ⟨by decide, by decide, fun h => ?_⟩
  exact absurd h.left (by decide)

/-- The same download on a screen of 640 pixels. -/
theorem barEnd_ok_iff_640 : BarOk 640 (10 * 2 ^ 20) (11 * 2 ^ 20) :=
  (barEnd_ok_iff (by decide) (by decide) (by decide)).2 (by decide)

end Gentoox.Video
