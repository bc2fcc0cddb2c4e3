import GentooxLoader.Video.FocusPll

/-!
# Modes of the Focus encoder (drivers/video/focus.c, BootVgaInitialization.c)

A mode's registers are worked out, then the PLL's, then the CRT controller's
fields in `ext`.  Where there is no setting for the PLL the function stops before
these fields, with the value that stands for success.  What the source computes
in floating point is a parameter; so is what was in memory before.

    focusCalcMode_result            the value that is returned is always 1
    focusCalcMode_ext               without a setting of the PLL the fields stay as they were
    kernelNG_always                 the GPU and the encoder are programmed in any case
    focusCalcMode_reports_iff       a failure is reported ↔ there is a setting, so there is none
-/

namespace Gentoox.Video

open Cells Loops Words

/-! ## Algorithm -/

inductive TvEncoding where
  | invalid | ntsc | ntsc60 | palbdghi | paln | palnc | palm | pal60
deriving DecidableEq

inductive AvType where
  | invalid | scartRGB | svideo | vgaSog | hdtv | composite | vga
deriving DecidableEq

/-- `δ` is what `hoc` and `voc` are. -/
structure XboxVideoMode (δ : Type) where
  xres : Int
  yres : Int
  hoc : δ
  voc : δ
  avType : AvType
  tvEncoding : TvEncoding

/-- The expressions in floating point, as they are stored. -/
structure FloatOps (δ : Type) where
  /-- `active * (1.0f-overscan)` -/
  shrink : Int → δ → Int
  /-- `yres * ((float)tv_vtotal/tv_vactive)` -/
  vgaVtotal : Int → Int → Int → Int
  /-- `xres * 1.25f` -/
  vgaHtotal : Int → Int
  /-- `((((float)tv_vtotal/(float)vga_vtotal)-1)*65536)` -/
  vscUp : Int → Int → Int
  /-- `((((float)tv_vtotal/(float)vga_vtotal))*65536)` -/
  vscDown : Int → Int → Int
  /-- `128*((float)tv_hactive/(float)xres-1)` -/
  hsc : Int → Int → Int
  /-- `vga_htotal * vga_vtotal * 59.94` -/
  dotclock : Int → Int
  /-- `27000000*(ncon/(float)ncod)` -/
  nco : Int → Int → Int
  /-- `total * 0.95` -/
  syncstart : Int → Int

/-- The fields of `ext` that the function fills in. -/
structure RivaExt where
  vsyncstart : Int
  hsyncstart : Int
  width : Int
  height : Int
  htotal : Int
  vend : Int
  vtotal : Int
  vcrtc : Int
  vsyncend : Int
  vvalidstart : Int
  vvalidend : Int
  hend : Int
  hcrtc : Int
  hsyncend : Int
  hvalidstart : Int
  hvalidend : Int
  crtchdispend : Int
  crtcvstart : Int
  crtcvtotal : Int

structure RivaRegs where
  ext : RivaExt
  encoderRegs : Nat → UInt8

def focusDefaults : List UInt8 :=
  [0x00, 0x00, 0x00, 0x00, 0x80, 0x02, 0xaa, 0x0a,
    0x00, 0x10, 0x00, 0x00, 0x03, 0x21, 0x15, 0x04,
    0x00, 0xe9, 0x07, 0x00, 0x80, 0xf5, 0x20, 0x00,
    0xef, 0x21, 0x1f, 0x00, 0x03, 0x03, 0x00, 0x00,
    0x00, 0x00, 0x00, 0x00, 0x00, 0x00, 0x10, 0x00,
    0x0c, 0x01, 0x00, 0x00, 0x00, 0x00, 0x08, 0x11,
    0x00, 0x0f, 0x05, 0xfe, 0x0b, 0x80, 0x00, 0x00,
    0xa4, 0x00, 0x00, 0x00, 0x00, 0x00, 0x00, 0x00,
    0x2a, 0x09, 0x8a, 0xcb, 0x00, 0x00, 0x8d, 0x00,
    0x7c, 0x3c, 0x9a, 0x2f, 0x21, 0x01, 0x3f, 0x00,
    0x3e, 0x03, 0x17, 0x21, 0x1b, 0x1b, 0x24, 0x9c,
    0x01, 0x3e, 0x0f, 0x0f, 0x60, 0x05, 0xc8, 0x00,
    0x9d, 0x04, 0x9d, 0x01, 0x02, 0x00, 0x0a, 0x05,
    0x00, 0x1a, 0xff, 0x03, 0x1e, 0x0f, 0x78, 0x00,
    0x00, 0xb1, 0x04, 0x15, 0x49, 0x10, 0x00, 0xa3,
    0xc8, 0x15, 0x05, 0x15, 0x3e, 0x03, 0x00, 0x20,
    0x57, 0x2f, 0x07, 0x00, 0x00, 0x08, 0x00, 0x00,
    0x08, 0x16, 0x16, 0x9c, 0x03, 0x00, 0x00, 0x00,
    0x00, 0x00, 0xc4, 0x48, 0x00, 0x00, 0x00, 0x00,
    0x00, 0x00, 0x00, 0x80, 0x00, 0x00, 0xe4, 0x00,
    0x00, 0x02, 0x00, 0x00, 0x00, 0x00, 0x00, 0x00,
    0xff, 0x00, 0xff, 0x00, 0xff, 0x00, 0x00, 0x00,
    0x00, 0x00, 0xd7, 0x05, 0x00, 0x00, 0xf0, 0x00,
    0x00, 0x00, 0x00, 0x00, 0x00, 0x00, 0x00, 0x00,
    0x00, 0x00, 0xee, 0x00]

/-- Registers set one after the other. -/
def setRegs (regs : Nat → UInt8) (l : List (Nat × UInt8)) : Nat → UInt8 :=
  l.foldl (fun regs r => Function.update regs r.1 r.2) regs

def ntscRegs : List (Nat × UInt8) :=
  [(0x40, 0x21), (0x41, 0xF0), (0x42, 0x7C), (0x43, 0x1F), (0x49, 0x44), (0x4a, 0x76),
    (0x4b, 0x3B), (0x4c, 0x00), (0x60, 0x89), (0x62, 0x89), (0x69, 0x16), (0x6C, 0x20),
    (0x74, 0x04), (0x75, 0x10), (0x80, 0x67), (0x81, 0x21), (0x82, 0x0C), (0x83, 0x18),
    (0x86, 0x18), (0x89, 0x13), (0x8A, 0x13)]

/-- The registers that do not depend on the resolution. -/
def encodingRegs {δ : Type} (mode : XboxVideoMode δ) (fresh : Nat → UInt8) : Nat → UInt8 :=
  let regs := write fresh 0 focusDefaults
  let regs :=
    if mode.tvEncoding = .ntsc then
      setRegs (Function.update regs 0x0d (regs 0x0d &&& ~~~0x01)) ntscRegs
    else regs
  let regs := Function.update regs 0x92 ((regs 0x92 &&& ~~~0x04) ||| 0x01)
  let regs := Function.update regs 0x93 (regs 0x93 &&& ~~~0x40)
  let regs := setRegs regs [(0xA2, 0x4D), (0xA4, 0x96), (0xA6, 0x1D), (0xA8, 0xA0), (0xAA, 0xDB),
    (0xAC, 0x7E)]
  if mode.avType = .svideo then
    let regs := Function.update regs 0x47 (regs 0x47 ||| 0x04)
    Function.update regs 0x92 (regs 0x92 &&& ~~~0x01)
  else regs

section
variable {δ : Type} (ops : FloatOps δ) (mode : XboxVideoMode δ)

/-- Lines, lines shown, pixels shown and pixels of the television. -/
def tvTiming : Int × Int × Int × Int :=
  if mode.tvEncoding = .ntsc then (525, 480, 710, 858) else (625, 576, 702, 864)

def pllSettings : FocusPllSettings :=
  let (tvVtotal, tvVactive, _, tvHtotal) := tvTiming mode
  let vgaVtotal := ops.vgaVtotal mode.yres tvVtotal (ops.shrink tvVactive mode.voc)
  let vgaHtotal := ops.vgaHtotal mode.xres
  { dotclock :=
      if mode.tvEncoding = .ntsc then ops.dotclock (long (vgaHtotal * vgaVtotal))
      else long (long (vgaHtotal * vgaVtotal) * 50)
    vgaHtotal := vgaHtotal
    vgaVtotal := vgaVtotal
    tvHtotal := tvHtotal
    tvVtotal := tvVtotal }

/-- The registers for the scaling. -/
def scaleRegs (regs : Nat → UInt8) : Nat → UInt8 :=
  let (tvVtotal, _, tvHactive, _) := tvTiming mode
  let vgaVtotal := (pllSettings ops mode).vgaVtotal
  let tvHactive := ops.shrink tvHactive mode.hoc
  let regs := setRegs regs [(0x04, byteOf (mode.xres + 64) 0), (0x05, byteOf (mode.xres + 64) 8)]
  let regs := if vgaVtotal < tvVtotal then Function.update regs 0x38 0x82 else regs
  let vsc :=
    if vgaVtotal < tvVtotal then ops.vscUp tvVtotal vgaVtotal else ops.vscDown tvVtotal vgaVtotal
  let regs := setRegs regs [(0x06, byteOf vsc 0), (0x07, byteOf vsc 8)]
  let hsc := ops.hsc tvHactive mode.xres
  if mode.xres < tvHactive then setRegs regs [(0x08, 0), (0x09, byteOf hsc 0)]
  else setRegs regs [(0x08, byteOf (256 + hsc) 0), (0x09, 0)]

/-- The fields of the CRT controller. -/
def crtFields (settings : FocusPllSettings) : RivaExt where
  vsyncstart := ops.syncstart settings.vgaVtotal
  hsyncstart := ops.syncstart settings.vgaHtotal
  width := mode.xres
  height := mode.yres
  htotal := settings.vgaHtotal - 1
  vend := mode.yres - 1
  vtotal := settings.vgaVtotal - 1
  vcrtc := mode.yres - 1
  vsyncend := ops.syncstart settings.vgaVtotal + 3
  vvalidstart := 0
  vvalidend := mode.yres - 1
  hend := mode.xres + 7
  hcrtc := mode.xres - 1
  hsyncend := ops.syncstart settings.vgaHtotal + 32
  hvalidstart := 0
  hvalidend := mode.xres - 1
  crtchdispend := mode.xres
  crtcvstart := mode.yres + 32
  crtcvtotal := mode.yres + 64

/-- What is returned, and `riva_out`; `out` has what was there, `fresh` what `malloc` gave. -/
def focusCalcMode (fresh : Nat → UInt8) (out : RivaRegs) : Int × RivaRegs :=
  let regs := scaleRegs ops mode (encodingRegs mode fresh)
  let settings := pllSettings ops mode
  let pll := focusCalcPllSettings ops.nco settings regs
  if pll.1 = 0 then (1, { out with encoderRegs := pll.2 })
  else (1, { ext := crtFields ops mode settings, encoderRegs := pll.2 })

structure GpuParameter where
  xres : Int
  crtchdispend : Int
  nvhstart : Int
  nvhtotal : Int
  yres : Int
  nvvstart : Int
  crtcvstart : Int
  crtcvtotal : Int
  nvvtotal : Int
  pixelDepth : Int

inductive VideoEvent where
  | setGPURegister (gpu : GpuParameter)
  | i2cWriteBytetoRegister (address : UInt8) (register : Nat) (value : UInt8)

/-- `BootVgaInitializationKernelNG` from `encoder_mode` on, for a Focus encoder and a
television: `newmode` is not initialised. -/
def bootVgaInitializationKernelNG (fresh : Nat → UInt8) (newmode : RivaRegs) : List VideoEvent :=
  let (encoderOk, newmode) := focusCalcMode ops mode fresh newmode
  let gpu : GpuParameter :=
    { xres := mode.xres
      nvhstart := newmode.ext.hsyncstart
      nvhtotal := newmode.ext.htotal
      yres := mode.yres
      nvvstart := newmode.ext.vsyncstart
      nvvtotal := newmode.ext.vtotal
      pixelDepth := (32 + 1) / 8
      crtchdispend := mode.xres
      crtcvstart := newmode.ext.vsyncstart
      crtcvtotal := newmode.ext.vtotal }
  if encoderOk ≠ 0 then
    .setGPURegister gpu ::
      (List.range 0xc4).map fun i => .i2cWriteBytetoRegister 0x6a i (newmode.encoderRegs i)
  else []

/-! ## What is returned -/

/-- The search of a mode, and the registers it starts from. -/
def modeSearch (fresh : Nat → UInt8) : Int × (Nat → UInt8) :=
  focusCalcPllSettings ops.nco (pllSettings ops mode) (scaleRegs ops mode (encodingRegs mode fresh))

theorem focusCalcPllSettings_eq_zero_iff {nco : Int → Int → Int} {settings : FocusPllSettings}
    (regs : Nat → UInt8) : (focusCalcPllSettings nco settings regs).1 = 0 ↔
      ¬ ∃ pll, Valid nco settings pll := by
  rw [← searchPll_iff]
  unfold focusCalcPllSettings
  cases hsearch : searchPll nco settings with
  | done pll => exact iff_of_false (show ¬ (1 : Int) = 0 by decide) fun h => h ⟨pll, rfl⟩
  | next u => exact iff_of_true rfl fun ⟨pll, h⟩ => by cases h

section
variable (fresh : Nat → UInt8) (out : RivaRegs)

/-- Every path returns the value for success. -/
theorem focusCalcMode_result : (focusCalcMode ops mode fresh out).1 = 1 := by
  unfold focusCalcMode
  simp only
  split <;> rfl

/-- Without a setting for the PLL the fields are what was in memory. -/
theorem focusCalcMode_ext (hnone : ¬ ∃ pll, Valid ops.nco (pllSettings ops mode) pll) :
    (focusCalcMode ops mode fresh out).2.ext = out.ext := by
  unfold focusCalcMode
  simp only
  rw [if_pos ((focusCalcPllSettings_eq_zero_iff _).2 hnone)]

theorem kernelNG_always : bootVgaInitializationKernelNG ops mode fresh out ≠ [] := by
  unfold bootVgaInitializationKernelNG
  simp only
  rw [focusCalcMode_result, if_pos (by decide)]
  exact List.cons_ne_nil _ _

/-! ## Top theorem -/

/-- If the search fails, so does the function, and nothing is programmed. -/
def FailureReported : Prop :=
  (modeSearch ops mode fresh).1 = 0 →
    (focusCalcMode ops mode fresh out).1 = 0 ∧ bootVgaInitializationKernelNG ops mode fresh out = []

/-- **A failure is reported** only of modes that have none: those with a setting for
the PLL. -/
theorem focusCalcMode_reports_iff : FailureReported ops mode fresh out ↔
    ∃ pll, Valid ops.nco (pllSettings ops mode) pll := by
  unfold FailureReported modeSearch
  rw [focusCalcPllSettings_eq_zero_iff]
  constructor
  · intro h
    by_contra hnone
    exact kernelNG_always ops mode fresh out (h hnone).2
  · intro hpll hnone
    exact absurd hpll hnone

end

end

/-! ## 720x576 with NTSC -/

/-- No multiple of the input clock is near enough to the output clock. -/
theorem no_multiple {a p dotclock m : Int} (ha : 0 < a) (hp : 0 < p)
    (hgap : (p * (dotclock + 2) - 1) / a * a < p * (dotclock - 1)) (hm : 0 ≤ a * m) :
    ¬ ((a * m).tdiv p - dotclock).natAbs ≤ 1 := by
  intro hnear
  have hq : (a * m).tdiv p = a * m / p := Int.tdiv_eq_ediv_of_nonneg hm
  rw [hq] at hnear
  have hlo : (dotclock - 1) * p ≤ a * m := (Int.le_ediv_iff_mul_le hp).1 (by omega)
  have hhi : a * m < (dotclock + 2) * p := (Int.ediv_lt_iff_lt_mul hp).1 (by omega)
  have hle : m ≤ (p * (dotclock + 2) - 1) / a := by
    rw [Int.le_ediv_iff_mul_le ha, Int.mul_comm m a, Int.mul_comm p]
    omega
  have hmul : m * a ≤ (p * (dotclock + 2) - 1) / a * a := Int.mul_le_mul_of_nonneg_right hle (Int.le_of_lt ha)
  rw [Int.mul_comm m a] at hmul
  rw [Int.mul_comm p (dotclock - 1)] at hgap
  omega

/-- The floating point values of 720x576 with NTSC and the overscan of the loader. -/
def ntscOps : FloatOps Unit where
  shrink active _ := if active = 480 then 408 else 602
  vgaVtotal _ _ _ := 741
  vgaHtotal _ := 900
  vscUp _ _ := 0
  vscDown _ _ := 46432
  hsc _ _ := -20
  dotclock _ := 39973985
  nco _ ncod := if ncod = 1801800 then 9993506 else 7994805
  syncstart total := if total = 741 then 703 else 854

def ntsc720 : XboxVideoMode Unit := ⟨720, 576, (), (), .composite, .ntsc⟩

/-- Whether an N has no M, for the dot clock of this mode. -/
def gap (p nco n : Int) : Bool :=
  let a := nco.tdiv n
  (p * (39973985 + 2) - 1) / a * a < p * (39973985 - 1) ∨ ¬ (100000 ≤ a ∧ a ≤ 1000000)

theorem ntsc720_gaps : ∀ n : Nat, n < 270 → gap 4 9993506 n ∧ gap 5 7994805 n := by
  decide +kernel

theorem gap_none {p nco n m : Int} (hp : 0 < p) (hgap : gap p nco n = true)
    (hin : 100000 ≤ nco.tdiv n ∧ nco.tdiv n ≤ 1000000) (hout : 100000000 ≤ nco.tdiv n * m) :
    ¬ ((nco.tdiv n * m).tdiv p - 39973985).natAbs ≤ 1 := by
  rcases of_decide_eq_true hgap with hlt | hno
  · exact no_multiple (by omega) hp hlt (by omega)
  · exact absurd hin hno

theorem ntsc720_none : ¬ ∃ pll, Valid ntscOps.nco (pllSettings ntscOps ntsc720) pll := by
  rintro ⟨pll, hpll⟩
  have hn := hpll.n
  have hp := hpll.p
  have hin := hpll.pllIn
  have hout := hpll.pllOut.1
  obtain ⟨n, hn'⟩ := Int.eq_ofNat_of_zero_le (show 0 ≤ pll.n by omega)
  obtain ⟨hgap4, hgap5⟩ := ntsc720_gaps n (by omega)
  rw [← hn'] at hgap4 hgap5
  rcases (show pll.p = 4 ∨ pll.p = 5 by omega) with h4 | h5
  · have hnco : ntscOps.nco pll.ncon pll.ncod = 9993506 := by
      rw [hpll.ncod, h4, show (pllSettings ntscOps ntsc720).ncod 4 = 1801800 by decide]
      rfl
    have hnear := hpll.output
    rw [hnco] at hin hout hnear
    rw [h4] at hnear
    exact gap_none (by decide) hgap4 hin hout hnear
  · have hnco : ntscOps.nco pll.ncon pll.ncod = 7994805 := by
      rw [hpll.ncod, h5, show (pllSettings ntscOps ntsc720).ncod 5 = 2252250 by decide]
      rfl
    have hnear := hpll.output
    rw [hnco] at hin hout hnear
    rw [h5] at hnear
    exact gap_none (by decide) hgap5 hin hout hnear

/-- The search finds nothing, and the GPU is programmed with what was on the stack. -/
theorem ntsc720_programs :
    ¬ FailureReported ntscOps ntsc720 (fun _ => 0)
      ⟨⟨0, 0, 0, 0, 0, 0, 0, 0, 0, 0, 0, 0, 0, 0, 0, 0, 0, 0, 0⟩, fun _ => 0⟩ := by
  intro h
  exact kernelNG_always _ _ _ _ (h ((focusCalcPllSettings_eq_zero_iff _).2 ntsc720_none)).2

end Gentoox.Video
