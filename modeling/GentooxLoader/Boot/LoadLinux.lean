import GentooxLoader.Fatx.Load
import GentooxLoader.Iso.Iso9660
import GentooxLoader.MemoryLayout
import GentooxLoader.Net.NetBoot

/-!
# Loading a kernel and its initrd (boot/LoadLinux.c)

Each of the three loaders reads the kernel to `INITRD_START`, has
`memPlaceKernel` move its two parts away from there, and reads the initrd to the
same place.  How long the kernel is comes from grub, from a directory entry or
from `BootIso9660GetFile`; where it is cut, from a byte of the kernel itself.

    memPlaceKernel_iff     the two copies stay in their places and the length
                           of the second does not wrap ↔ at most 127 setup
                           sectors, and behind them 0 to 8 MiB
    missing_kernel_placed  no kernel on the disc: 2^32 - 1 bytes of one are placed
    loadKernelCdrom_checked_iff  the loader stops at an error of a look-up exactly
                           if there is none
-/

namespace Gentoox.Boot

open Cells Lib Fatx Net

/-! ## Algorithm -/

/-- A call of `memPlaceKernel`, with the memory it finds. -/
structure KernelCall where
  ram : Nat → UInt8
  kernelOrg : Nat
  kernelSize : UInt32

/-- A `memcpy`. -/
structure Copy where
  dst : Nat
  src : Nat
  n : Nat

section
variable (c : KernelCall)

def KernelCall.setupSects : UInt8 := c.ram (c.kernelOrg + 0x01f1)

def KernelCall.nSizeHeader : UInt32 := (c.setupSects.toUInt32 + 1) * 512

/-- The two copies of `memPlaceKernel`. -/
def KernelCall.copies : List Copy :=
  [⟨kernelSetup.toNat, c.kernelOrg, c.nSizeHeader.toNat⟩,
    ⟨kernelPmCode.toNat, c.kernelOrg + c.nSizeHeader.toNat, (c.kernelSize - c.nSizeHeader).toNat⟩]

def KernelCall.place : Nat → UInt8 := memPlaceKernel c.ram c.kernelOrg c.kernelSize

end

/-- What `grub_open` finds under a path; `read n` are the bytes that
`grub_read` stores of at most `n`, and its return value. -/
structure GrubFile where
  nRet : Int
  errnum : Nat
  filemax : Int
  read : Nat → List UInt8 × Int

structure Drives where
  hdd : Fatx.Env
  malloc : Nat → UInt32 → Option (Int → UInt8)
  disc : Iso.Env
  grub : List UInt8 → GrubFile

/-- How a loader ends; `ret` is `none` for `while(1)`. -/
structure Loaded where
  ret : Option Bool
  ram : Nat → UInt8
  dwInitrdSize : UInt32
  calls : List KernelCall

section
variable (d : Drives) (fuel : Nat)

/-- `grub_read` to `INITRD_START`. -/
def grubRead (f : GrubFile) (ram : Nat → UInt8) (n : UInt32) : UInt32 × (Nat → UInt8) :=
  (UInt32.ofInt (f.read n.toNat).2, write ram initrdStart.toNat (f.read n.toNat).1)

def loadKernelNative (szKernel szInitrd : List UInt8) (ram : Nat → UInt8) : Loaded :=
  let ram := fill ram kernelSetup.toNat 0 2048
  let f := d.grub szKernel
  if f.nRet ≠ 1 then ⟨none, ram, 0, []⟩
  else
    let (dwKernelSize, ram) := grubRead f ram maxKernelSize
    let c : KernelCall := ⟨ram, initrdStart.toNat, dwKernelSize⟩
    if szInitrd.length ≠ 0 then
      let f := d.grub szInitrd
      if f.filemax = 0 then ⟨none, c.place, 0, [c]⟩
      else if f.nRet ≠ 1 ∨ f.errnum ≠ 0 then ⟨none, c.place, 0, [c]⟩
      else
        let (dwInitrdSize, ram) := grubRead f c.place maxInitrdSize
        ⟨some true, ram, dwInitrdSize, [c]⟩
    else ⟨some true, c.place, 0, [c]⟩

/-- The memory with the part from `a` on replaced. -/
def splice (ram : Nat → UInt8) (a : Nat) (buffer : Nat → UInt8) : Nat → UInt8 :=
  fun i => if a ≤ i then buffer (i - a) else ram i

/-- `LoadFATXFilefixed` to `INITRD_START`, with a cleared `fileinfo`. -/
def loadFixed (partition : FATXPartition) (filename : List UInt8) (ram : Nat → UInt8) (reads : Nat) :
    Option (Bool × UInt32 × (Nat → UInt8) × Nat) :=
  let position := fun i => ram (initrdStart.toNat + i)
  (loadFATXFilefixed d.hdd (some partition) fuel filename ⟨[], 0, 0, 0, position⟩ position reads).map
    fun (ret, fileinfo, reads) =>
      (ret, fileinfo.fileSize, splice ram initrdStart.toNat fileinfo.buffer, reads)

def sectorStore : UInt32 := 0x0055F400
def storeSize : UInt64 := 0x131F00000

def loadKernelFatX (szKernel szInitrd : List UInt8) (ram : Nat → UInt8) (reads : Nat) :
    Option Loaded :=
  let ram := fill ram kernelSetup.toNat 0 4096
  match openFATXPartition d.hdd d.malloc 0 sectorStore storeSize reads with
  | none => none
  | some (none, _) => some ⟨some false, ram, 0, []⟩
  | some (some partition, reads) =>
    match loadFixed d fuel partition szKernel ram reads with
    | none => none
    | some (false, _, ram, _) => some ⟨none, ram, 0, []⟩
    | some (true, dwKernelSize, ram, reads) =>
      let c : KernelCall := ⟨ram, initrdStart.toNat, dwKernelSize⟩
      if szInitrd.length ≠ 0 then
        match loadFixed d fuel partition szInitrd c.place reads with
        | none => none
        | some (false, _, ram, _) => some ⟨none, ram, 0, [c]⟩
        | some (true, dwInitrdSize, ram, _) => some ⟨some true, ram, dwInitrdSize, [c]⟩
      else some ⟨some true, c.place, 0, [c]⟩

/-- `dwKernelSize` and `dwInitrdSize` are unsigned, so that the tests for a
negative length find none. -/
def loadKernelCdrom (szKernel szInitrd : List UInt8) (ram : Nat → UInt8) (reads : Nat) :
    Option Loaded :=
  match Iso.bootIso9660GetFile d.disc fuel szKernel initrdStart.toNat maxKernelSize ram reads with
  | none => none
  | some (kernelSize, ram, reads) =>
    let c : KernelCall := ⟨ram, initrdStart.toNat, UInt32.ofInt kernelSize⟩
    if szInitrd.length ≠ 0 then
      match Iso.bootIso9660GetFile d.disc fuel szInitrd initrdStart.toNat maxInitrdSize c.place
          reads with
      | none => none
      | some (initrdSize, ram, _) => some ⟨some true, ram, UInt32.ofInt initrdSize, [c]⟩
    else some ⟨none, c.place, 0, [c]⟩

end

/-! ## Placing a kernel -/

/-- The model of the call does these copies, one after the other. -/
theorem place_eq (c : KernelCall) :
    c.place = c.copies.foldl (fun ram k => copy ram k.dst ram k.src k.n) c.ram := rfl

/-- The copies are inside their two places, and no length wraps. -/
structure KernelCall.Safe (c : KernelCall) : Prop where
  inside : ∀ k ∈ c.copies, kernelSetup.toNat ≤ k.dst ∧ k.dst + k.n ≤ gdtLoc.toNat ∨
    kernelPmCode.toNat ≤ k.dst ∧ k.dst + k.n ≤ kernelPmCodeEnd.toNat
  no_underflow : c.nSizeHeader ≤ c.kernelSize

/-- At most 127 setup sectors, the kernel has them, and the rest has room. -/
structure KernelCall.Fits (c : KernelCall) : Prop where
  setup : c.setupSects ≤ 127
  long_enough : (c.setupSects.toNat + 1) * 512 ≤ c.kernelSize.toNat
  room : c.kernelSize.toNat ≤ (c.setupSects.toNat + 1) * 512 + maxKernelSize.toNat

theorem nSizeHeader_toNat (c : KernelCall) : c.nSizeHeader.toNat = (c.setupSects.toNat + 1) * 512 := by
  have h := c.setupSects.toNat_lt
  unfold KernelCall.nSizeHeader
  rw [UInt32.toNat_mul, UInt32.toNat_add, UInt8.toNat_toUInt32]
  show (c.setupSects.toNat + 1) % 2 ^ 32 * 512 % 2 ^ 32 = _
  omega

theorem inside_copies (c : KernelCall) :
    (∀ k ∈ c.copies, kernelSetup.toNat ≤ k.dst ∧ k.dst + k.n ≤ gdtLoc.toNat ∨
      kernelPmCode.toNat ≤ k.dst ∧ k.dst + k.n ≤ kernelPmCodeEnd.toNat) ↔
    c.nSizeHeader.toNat ≤ 0x10000 ∧ (c.kernelSize - c.nSizeHeader).toNat ≤ maxKernelSize.toNat := by
  have h1 : kernelSetup.toNat = 0x90000 := rfl
  have h2 : gdtLoc.toNat = 0xA0000 := rfl
  have h3 : kernelPmCode.toNat = 0x100000 := rfl
  have h4 : kernelPmCodeEnd.toNat = 0x900000 := rfl
  have h5 : maxKernelSize.toNat = 0x800000 := rfl
  simp only [KernelCall.copies, List.forall_mem_cons, List.not_mem_nil, false_implies,
    implies_true, and_true, h1, h2, h3, h4, h5]
  omega

theorem KernelCall.Safe.fits {c : KernelCall} (h : c.Safe) : c.Fits := by
  have hheader := nSizeHeader_toNat c
  have hroom : maxKernelSize.toNat = 0x800000 := rfl
  obtain ⟨h1, h2⟩ := (inside_copies c).1 h.inside
  rw [UInt32.toNat_sub_of_le _ _ h.no_underflow] at h2
  have hle : c.nSizeHeader.toNat ≤ c.kernelSize.toNat := h.no_underflow
  refine ⟨?_, by omega, by omega⟩
  rw [UInt8.le_iff_toNat_le]
  show c.setupSects.toNat ≤ 127
  omega

theorem KernelCall.Fits.safe {c : KernelCall} (h : c.Fits) : c.Safe := by
  have hheader := nSizeHeader_toNat c
  have hsetup : c.setupSects.toNat ≤ 127 := h.setup
  have h2 := h.long_enough
  have h3 := h.room
  have hnowrap : c.nSizeHeader ≤ c.kernelSize := by
    rw [UInt32.le_iff_toNat_le]
    omega
  refine ⟨(inside_copies c).2 ⟨by omega, ?_⟩, hnowrap⟩
  rw [UInt32.toNat_sub_of_le _ _ hnowrap]
  omega

/-! ## Top theorem -/

/-- **Placing any kernel.** -/
theorem memPlaceKernel_iff (c : KernelCall) :
    ((∀ k ∈ c.copies, kernelSetup.toNat ≤ k.dst ∧ k.dst + k.n ≤ gdtLoc.toNat ∨
      kernelPmCode.toNat ≤ k.dst ∧ k.dst + k.n ≤ kernelPmCodeEnd.toNat) ∧
      c.nSizeHeader ≤ c.kernelSize) ↔ c.Fits :=
  ⟨fun h => KernelCall.Safe.fits ⟨h.1, h.2⟩, fun h => ⟨h.safe.inside, h.safe.no_underflow⟩⟩

/-- A drive that reads nothing. -/
def noDisc : Iso.Env := ⟨fun _ _ => (-1, []), fun _ _ => none⟩

def noDrives : Drives where
  hdd := smallDisk fun _ => true
  malloc _ _ := none
  disc := noDisc
  grub _ := ⟨0, 0, 0, fun _ => ([], 0)⟩

/-- **No kernel.**  The length -1 passes the test for a negative one. -/
theorem missing_kernel_placed : ∃ r, loadKernelCdrom noDrives 1 (chars "/vmlinuz".toList)
    (chars "/initrd".toList) (fun _ => 0) 0 = some r ∧ ∃ c ∈ r.calls, ¬ c.Safe := by
  refine ⟨_, rfl, ⟨fun _ => 0, initrdStart.toNat, 0xffffffff⟩, List.mem_singleton.2 rfl, ?_⟩
  intro hsafe
  have hroom := hsafe.fits.room
  revert hroom
  decide

/-! ## Errors of the look-ups -/

/-- What `LoadKernelCdrom` does, one thing after the other. -/
inductive CdromEvent where
  | read (ret : Int)
  | place (c : KernelCall)
  | halt
  | ret

def CdromEvent.placed : CdromEvent → Option KernelCall
  | .place c => some c
  | _ => none

/-- Behind a look-up that returned an error the loader only halts. -/
def Checked : List CdromEvent → Prop :=
  List.IsChain fun e f => ∀ n, e = .read n → n < 0 → f = .halt

section
variable (d : Drives) (fuel : Nat) (szKernel szInitrd : List UInt8) (ram : Nat → UInt8) (reads : Nat)

/-- The call for the kernel. -/
def kernelRead : Option (Int × (Nat → UInt8) × Nat) :=
  Iso.bootIso9660GetFile d.disc fuel szKernel initrdStart.toNat maxKernelSize ram reads

/-- The kernel that is placed once its call has returned. -/
def placedKernel (r : Int × (Nat → UInt8) × Nat) : KernelCall :=
  ⟨r.2.1, initrdStart.toNat, UInt32.ofInt r.1⟩

/-- The call for the initrd, to the same place. -/
def initrdRead (r : Int × (Nat → UInt8) × Nat) : Option (Int × (Nat → UInt8) × Nat) :=
  Iso.bootIso9660GetFile d.disc fuel szInitrd initrdStart.toNat maxInitrdSize (placedKernel r).place
    r.2.2

/-- The events of `loadKernelCdrom`, as far as its look-ups return. -/
def cdromTrace : List CdromEvent :=
  match kernelRead d fuel szKernel ram reads with
  | none => []
  | some r =>
    .read r.1 :: .place (placedKernel r) ::
      if szInitrd.length ≠ 0 then
        match initrdRead d fuel szInitrd r with
        | none => []
        | some r => [.read r.1, .ret]
      else [.halt]

/-- They are the kernels that are placed, and whether the loader returns. -/
theorem cdromTrace_loaded {r : Loaded} (h : loadKernelCdrom d fuel szKernel szInitrd ram reads = some r) :
    (cdromTrace d fuel szKernel szInitrd ram reads).filterMap CdromEvent.placed = r.calls ∧
      (CdromEvent.ret ∈ cdromTrace d fuel szKernel szInitrd ram reads ↔ r.ret = some true) := by
  unfold loadKernelCdrom at h
  unfold cdromTrace kernelRead
  cases hkernel : Iso.bootIso9660GetFile d.disc fuel szKernel initrdStart.toNat maxKernelSize ram
      reads with
  | none =>
    rw [hkernel] at h
    cases h
  | some k =>
    obtain ⟨kernelSize, ram', reads'⟩ := k
    rw [hkernel] at h
    simp only at h ⊢
    by_cases hnamed : szInitrd.length ≠ 0
    · rw [if_pos hnamed] at h ⊢
      unfold initrdRead
      cases hinitrd : Iso.bootIso9660GetFile d.disc fuel szInitrd initrdStart.toNat maxInitrdSize
          (placedKernel (kernelSize, ram', reads')).place reads' with
      | none =>
        unfold placedKernel at hinitrd
        rw [hinitrd] at h
        cases h
      | some i =>
        unfold placedKernel at hinitrd
        rw [hinitrd] at h
        cases h
        exact ⟨rfl, iff_of_true (by simp) rfl⟩
    · rw [if_neg hnamed] at h ⊢
      cases h
      exact ⟨rfl, iff_of_false (by simp) (by rintro ⟨⟩)⟩

end

section
variable {env : Iso.Env} {fuel : Nat} {path : List UInt8} {buffer : Nat} {max : UInt32}
  {ram : Nat → UInt8} {reads : Nat}

/-- The look-up returns an error: nothing is found, or its length is no `int`. -/
def Fails (env : Iso.Env) (fuel : Nat) (path : List UInt8) (max : UInt32) (ram : Nat → UInt8)
    (reads : Nat) : Prop :=
  (∃ reads', Iso.lookUp env fuel path reads = some (none, reads')) ∨
    ∃ dir reads', Iso.lookUp env fuel path reads = some (some dir, reads') ∧
      2 ^ 31 ≤ (Iso.bytesRead dir.size max ram).toNat

theorem signed_neg_iff (x : UInt32) : signed x < 0 ↔ 2 ^ 31 ≤ x.toNat := by
  have hx := x.toNat_lt
  unfold signed
  split_ifs <;> omega

theorem ret_neg_iff {r : Int × (Nat → UInt8) × Nat}
    (h : Iso.bootIso9660GetFile env fuel path buffer max ram reads = some r) :
    r.1 < 0 ↔ Fails env fuel path max ram reads := by
  unfold Fails
  obtain ⟨reads', ⟨hlook, hr⟩ | ⟨dir, hlook, hr, -⟩⟩ := Iso.bootIso9660GetFile_cases h
  · rw [hr]
    exact iff_of_true (by decide) (.inl ⟨reads', hlook⟩)
  · rw [hr, Iso.readFile_bytes, signed_neg_iff]
    constructor
    · exact fun hlen => .inr ⟨dir, reads', hlook, hlen⟩
    · rintro (⟨reads'', hnone⟩ | ⟨dir', reads'', hsome, hlen⟩)
      · rw [hlook] at hnone
        cases hnone
      · rw [hlook] at hsome
        cases hsome
        exact hlen

/-- A call that does not return has not failed. -/
theorem fails_returns (h : Fails env fuel path max ram reads) :
    ∃ r, Iso.bootIso9660GetFile env fuel path buffer max ram reads = some r := by
  obtain ⟨reads', hlook⟩ | ⟨dir, reads', hlook, -⟩ := h
  · exact ⟨(-1, ram, reads'), by rw [Iso.bootIso9660GetFile, hlook]⟩
  · refine ⟨_, by rw [Iso.bootIso9660GetFile, hlook]⟩

end

section
variable {d : Drives} {fuel : Nat} {szKernel szInitrd : List UInt8} {ram : Nat → UInt8} {reads : Nat}

theorem checked_iff : Checked (cdromTrace d fuel szKernel szInitrd ram reads) ↔
    ¬ Fails d.disc fuel szKernel maxKernelSize ram reads ∧
      ∀ r, kernelRead d fuel szKernel ram reads = some r → szInitrd.length ≠ 0 →
        ¬ Fails d.disc fuel szInitrd maxInitrdSize (placedKernel r).place r.2.2 := by
  unfold Checked cdromTrace
  cases hkernel : kernelRead d fuel szKernel ram reads with
  | none =>
    refine iff_of_true .nil ⟨fun hfails => ?_, fun r hr => by cases hr⟩
    obtain ⟨r, hr⟩ := fails_returns hfails
    rw [kernelRead, hr] at hkernel
    cases hkernel
  | some k =>
    have hk := ret_neg_iff hkernel
    simp only [Option.some.injEq, forall_eq']
    by_cases hnamed : szInitrd.length ≠ 0
    · rw [if_pos hnamed]
      cases hinitrd : initrdRead d fuel szInitrd k with
      | none =>
        have hnot : ¬ Fails d.disc fuel szInitrd maxInitrdSize (placedKernel k).place k.2.2 := by
          intro hfails
          obtain ⟨r, hr⟩ := fails_returns hfails
          rw [initrdRead, hr] at hinitrd
          cases hinitrd
        rw [← hk]
        simp [hnot]
      | some i =>
        have hi := ret_neg_iff hinitrd
        rw [← hk, ← hi]
        simp [hnamed]
    · rw [if_neg hnamed, ← hk]
      simp [hnamed]

end

end Gentoox.Boot
