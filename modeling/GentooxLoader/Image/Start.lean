import GentooxLoader.Image.Build

/-!
# The loader in the flash (boot_rom/2bBootStartBios.c, boot_rom/2bBootStartup.S)

The startup code copies the 2bl out of the highest bank of the flash into the
RAM; `BootStartBiosLoader` compares its hash with the one in front of it, then
copies the compressed ROM out of a bank and starts it if that hash is right.  An
image of 1 MiB has four banks, each good for 25 tries.  What `romcopy` writes and
what is read here meet in `Holds2bl` and `HoldsRom`.

    loadLoop_starts   a bank that holds the ROM is started from
    loadLoop_fails    the tries with a damaged bank fail
    romcopy_starts    the loader finds the ROM in the two images
-/

namespace Gentoox.Image

open Cells Lib

/-! ## Algorithm -/

def programmMemory2bl : Nat := 0x00100000
def cromwellCompressTemploc : Nat := 0x02000000

/-- What lies at the highest addresses: the chip repeats below them. -/
def chip (image : Nat → UInt8) (size : Nat) : Nat → UInt8 := fun a => image (a % size)

/-- The loop of the startup code that copies `_size_ramcopy + 100` bytes as
dwords from `_start_ramcopy`. -/
def ramcopy (ram flash : Nat → UInt8) (startRamcopy sizeRamcopy : Nat) : Nat → UInt8 :=
  copy ram programmMemory2bl flash startRamcopy ((sizeRamcopy + 100) / 4 * 4)

/-- What `decompress_kernel` gets and what the cromwell is told. -/
structure Started where
  bufferIN : List UInt8
  cromloadtry : Nat
  flashbank : Nat
  biossizeType : UInt32

/-- `waits` is the first `while(1)`, `noValidImage` the last. -/
inductive Outcome
  | waits
  | started (s : Started)
  | noValidImage

def buildinflashFlash (flashbank : Nat) : UInt32 := 0xfff00000 + 0x40000 * UInt32.ofNat flashbank

/-- The bank of this try. -/
def nextBank (biossizeType : UInt32) (loadretry flashbank : Nat) : Nat :=
  if biossizeType = 0 then 3
  else if biossizeType = 1 then
    match loadretry with
    | 0 => 1
    | 25 => 2
    | 50 => 0
    | 75 => 3
    | _ => flashbank
  else flashbank

section
variable (d : Digests) (flash : Nat → UInt8) (s : Checksumstruct)

/-- The RAM with the bank's image in it and 20 KiB of zeros behind. -/
def copyImage (ram : Nat → UInt8) (flashbank : Nat) : Nat → UInt8 :=
  let from_ := (buildinflashFlash flashbank + s.compressedImageStart + 20).toNat
  let n := s.compressedImageSize.toNat
  fill (copy ram cromwellCompressTemploc flash from_ n) (cromwellCompressTemploc + n) 0x00
    (20 * 1024)

/-- The tries that are left, and the number of this one. -/
def loadLoop : Nat → Nat → Nat → (Nat → UInt8) → Outcome
  | 0, _, _, _ => .noValidImage
  | left + 1, loadretry, flashbank, ram =>
    let flashbank := nextBank s.biossizeType loadretry flashbank
    let checksum := read flash (buildinflashFlash flashbank + s.compressedImageStart).toNat 20
    let ram := copyImage flash s ram flashbank
    let data := read ram cromwellCompressTemploc s.compressedImageSize.toNat
    if checksum = (d.sha1 data).toList then
      .started ⟨data, 1, flashbank + 1, s.biossizeType⟩
    else loadLoop left (loadretry + 1) flashbank ram

def bootStartBiosLoader (ram : Nat → UInt8) : Outcome :=
  let s := checksumstructAt ram programmMemory2bl
  let result := d.sha1 (read ram (programmMemory2bl + 20) (s.sizeRamcopy - 20).toNat)
  if s.checksum = result.toList then loadLoop d flash s 100 0 3 ram else .waits

end

/-- The startup code and the loader with a chip that has this image.  The linker
puts the 2bl at the helper word's offset from the highest bank. -/
def startup (d : Digests) (image : Nat → UInt8) (size bootloaderpos sizeRamcopy : Nat)
    (ram : Nat → UInt8) : Outcome :=
  bootStartBiosLoader d (chip image size)
    (ramcopy ram (chip image size) (0xfffc0000 + bootloaderpos) sizeRamcopy)

/-! ## The tries -/

section
variable {d : Digests} {flash : Nat → UInt8} {s : Checksumstruct} {b : Nat} {rom : List UInt8}

/-- The bank's image is below the last 512 bytes of the bank. -/
def BankFits (s : Checksumstruct) (b : Nat) : Prop :=
  b ≤ 3 ∧ s.compressedImageStart.toNat + 20 + s.compressedImageSize.toNat ≤ bank - 512

/-- Where the loader looks in a bank. -/
def bankAt (s : Checksumstruct) (b : Nat) : Nat :=
  0xfff00000 + b * bank + s.compressedImageStart.toNat

theorem toNat_buildinflashFlash (h : BankFits s b) :
    (buildinflashFlash b + s.compressedImageStart).toNat = bankAt s b ∧
      (buildinflashFlash b + s.compressedImageStart + 20).toNat = bankAt s b + 20 := by
  obtain ⟨hb, hfits⟩ := h
  unfold bank at hfits
  have hstart : (buildinflashFlash b + s.compressedImageStart).toNat = bankAt s b := by
    unfold buildinflashFlash bankAt bank
    rw [UInt32.toNat_add, UInt32.toNat_add, UInt32.toNat_mul, UInt32.toNat_ofNat']
    show ((0xfff00000 + 0x40000 * (b % 2 ^ 32) % 2 ^ 32) % 2 ^ 32 + _) % 2 ^ 32 = _
    omega
  refine ⟨hstart, ?_⟩
  rw [UInt32.toNat_add, hstart]
  show (bankAt s b + 20) % 2 ^ 32 = _
  unfold bankAt bank
  omega

/-- The data that is hashed is what was read from the flash. -/
theorem read_copyImage (flash : Nat → UInt8) (s : Checksumstruct) (ram : Nat → UInt8) (b : Nat) :
    read (copyImage flash s ram b) cromwellCompressTemploc s.compressedImageSize.toNat =
      read flash (buildinflashFlash b + s.compressedImageStart + 20).toNat
        s.compressedImageSize.toNat := by
  have hfilled : ∀ m : Nat → UInt8,
      read (fill m (cromwellCompressTemploc + s.compressedImageSize.toNat) 0x00 (20 * 1024))
        cromwellCompressTemploc s.compressedImageSize.toNat =
      read m cromwellCompressTemploc s.compressedImageSize.toNat := by
    intro m
    apply read_congr
    intro i h1 h2
    exact fill_of_outside _ _ _ _ _ (Or.inl h2)
  unfold copyImage
  dsimp only
  rw [hfilled, copy, read_write_of_length (length_read _ _ _)]

theorem copyImage_data (h : BankFits s b) (ram : Nat → UInt8) :
    read (copyImage flash s ram b) cromwellCompressTemploc s.compressedImageSize.toNat =
      read flash (bankAt s b + 20) s.compressedImageSize.toNat := by
  rw [read_copyImage, (toNat_buildinflashFlash h).2]

/-- One try, by whether the bank's hash is right. -/
theorem loadLoop_succ {left loadretry flashbank : Nat} {ram : Nat → UInt8}
    (hnext : nextBank s.biossizeType loadretry flashbank = b) (h : BankFits s b) :
    loadLoop d flash s (left + 1) loadretry flashbank ram =
      if read flash (bankAt s b) 20 =
          (d.sha1 (read flash (bankAt s b + 20) s.compressedImageSize.toNat)).toList then
        .started ⟨read flash (bankAt s b + 20) s.compressedImageSize.toNat, 1, b + 1, s.biossizeType⟩
      else loadLoop d flash s left (loadretry + 1) b (copyImage flash s ram b) := by
  rw [loadLoop, hnext, copyImage_data h, (toNat_buildinflashFlash h).1]

/-- A bank that holds the ROM is started from. -/
theorem loadLoop_starts {left loadretry flashbank : Nat} {ram : Nat → UInt8}
    (hnext : nextBank s.biossizeType loadretry flashbank = b) (h : BankFits s b)
    (hrom : HoldsRom d flash (bankAt s b) rom) (hlen : rom.length = s.compressedImageSize.toNat) :
    loadLoop d flash s (left + 1) loadretry flashbank ram =
      .started ⟨rom, 1, b + 1, s.biossizeType⟩ := by
  have hbytes := hrom.bytes
  rw [hlen] at hbytes
  rw [loadLoop_succ hnext h, hbytes, if_pos hrom.hash]

/-- The hash in the bank is not the one of what is behind it. -/
def Damaged (d : Digests) (flash : Nat → UInt8) (s : Checksumstruct) (b : Nat) : Prop :=
  read flash (bankAt s b) 20 ≠
    (d.sha1 (read flash (bankAt s b + 20) s.compressedImageSize.toNat)).toList

/-- As long as the tries stay with a damaged bank they fail. -/
theorem loadLoop_fails (h : BankFits s b) (hbad : Damaged d flash s b) {left k loadretry : Nat}
    (hstay : ∀ j, j < k → nextBank s.biossizeType (loadretry + j) b = b) (ram : Nat → UInt8) :
    ∃ ram', loadLoop d flash s (left + k) loadretry b ram =
      loadLoop d flash s left (loadretry + k) b ram' := by
  induction k generalizing loadretry ram with
  | zero => exact ⟨ram, rfl⟩
  | succ k ih =>
    have hstay' : ∀ j, j < k → nextBank s.biossizeType (loadretry + 1 + j) b = b := by
      intro j hj
      rw [Nat.add_assoc, Nat.add_comm 1 j]
      exact hstay (j + 1) (by omega)
    obtain ⟨ram', hram'⟩ := ih hstay' (copyImage flash s ram b)
    refine ⟨ram', ?_⟩
    have hnext : nextBank s.biossizeType loadretry b = b := hstay 0 (by omega)
    rw [← Nat.add_assoc, loadLoop_succ hnext h, if_neg hbad, hram', Nat.add_assoc, Nat.add_comm 1 k]

/-- The second bank of an image of 1 MiB is used up after 25 tries. -/
theorem loadLoop_bank1 (htype : s.biossizeType = 1) (h : BankFits s 1) (hbad : Damaged d flash s 1)
    (ram : Nat → UInt8) :
    ∃ ram', loadLoop d flash s 100 0 3 ram = loadLoop d flash s 75 25 1 ram' := by
  have hfirst : nextBank s.biossizeType 0 3 = 1 := by rw [htype]; rfl
  have hstay : ∀ j, j < 24 → nextBank s.biossizeType (1 + j) 1 = 1 := by
    rw [htype]
    decide
  obtain ⟨ram', hram'⟩ : ∃ ram', loadLoop d flash s (75 + 24) 1 1 (copyImage flash s ram 1) =
      loadLoop d flash s 75 (1 + 24) 1 ram' := loadLoop_fails h hbad hstay _
  refine ⟨ram', ?_⟩
  rw [loadLoop_succ hfirst h, if_neg hbad, hram']

end

/-! ## The 2bl in the RAM -/

section
variable {d : Digests} {flash ram : Nat → UInt8} {s : Checksumstruct}

theorem ramcopy_holds2bl {a n : Nat} (hs : Holds2bl d flash a s) (hsize : 36 ≤ s.sizeRamcopy)
    (hn : s.sizeRamcopy.toNat ≤ n) : Holds2bl d (ramcopy ram flash a n) programmMemory2bl s := by
  apply hs.congr hsize
  intro i hi
  unfold ramcopy copy
  rw [write_apply _ _ _ _ (by rw [length_read]; omega), getElem_read]

theorem bootStartBiosLoader_of_holds (hs : Holds2bl d ram programmMemory2bl s) :
    bootStartBiosLoader d flash ram = loadLoop d flash s 100 0 3 ram := by
  unfold bootStartBiosLoader
  rw [hs.struct]
  exact if_pos hs.hash

end

/-! ## The chips -/

/-- A bank at `a` of the flash is the bank at `b` of the image. -/
def Window (flash image : Nat → UInt8) (a b : Nat) : Prop :=
  ∀ i, i < bank → flash (a + i) = image (b + i)

section
variable {d : Digests} {flash image : Nat → UInt8} {a b i : Nat} {s : Checksumstruct}
  {rom : List UInt8}

theorem Window.read_eq (w : Window flash image a b) {n : Nat} (hi : i + n ≤ bank) :
    read flash (a + i) n = read image (b + i) n := by
  rw [read_eq_iff]
  intro j hj
  rw [Nat.add_assoc, Nat.add_assoc]
  exact w (i + j) (by omega)

theorem Window.holds2bl (w : Window flash image a b) (hs : Holds2bl d image (b + i) s)
    (hsize : 36 ≤ s.sizeRamcopy) (hi : i + s.sizeRamcopy.toNat ≤ bank) :
    Holds2bl d flash (a + i) s := by
  apply hs.congr hsize
  intro j hj
  rw [Nat.add_assoc, Nat.add_assoc]
  exact w (i + j) (by omega)

theorem Window.holdsRom (w : Window flash image a b) (hs : HoldsRom d image (b + i) rom)
    (hi : i + 20 + rom.length ≤ bank) : HoldsRom d flash (a + i) rom := by
  apply hs.congr
  intro j hj
  rw [Nat.add_assoc, Nat.add_assoc]
  exact w (i + j) (by omega)

/-- An image of 256 KiB is in every bank. -/
theorem window_bank (k : Nat) : Window (chip image bank) image (0xfff00000 + k * bank) 0 := by
  intro i hi
  have h : (0xfff00000 + k * bank + i) % bank = i := by
    unfold bank at hi ⊢
    omega
  rw [chip, h, Nat.zero_add]

variable (image) in
theorem window_fourBanks {k : Nat} (hk : k ≤ 3) :
    Window (chip image (4 * bank)) image (0xfff00000 + k * bank) (k * bank) := by
  intro i hi
  have h : (0xfff00000 + k * bank + i) % (4 * bank) = k * bank + i := by
    unfold bank at hi ⊢
    omega
  rw [chip, h]

/-- With the 2bl in the highest bank the tries begin. -/
theorem startup_tries {size pos n : Nat} (w : Window (chip image size) image (0xfff00000 + 3 * bank) b)
    (hs : Holds2bl d image (b + pos) s) (hsize : 36 ≤ s.sizeRamcopy)
    (hpos : pos + s.sizeRamcopy.toNat ≤ bank) (hn : s.sizeRamcopy.toNat ≤ n) (ram : Nat → UInt8) :
    ∃ ram', startup d image size pos n ram = loadLoop d (chip image size) s 100 0 3 ram' := by
  have hchip := w.holds2bl hs hsize hpos
  rw [show 0xfff00000 + 3 * bank = 0xfffc0000 by decide] at hchip
  exact ⟨_, bootStartBiosLoader_of_holds (ramcopy_holds2bl hchip hsize hn)⟩

end

/-! ## The images, started -/

section
variable {d : Digests} {loader crom : Nat → UInt8} {romsize : UInt32}

/-- The struct that both ends agree on. -/
def imageStruct (loader : Nat → UInt8) (romsize : UInt32) (sum : List UInt8) (type : UInt32) :
    Checksumstruct :=
  ⟨sum, (layout loader).sizeRamcopy, (layout loader).start, romsize, type⟩

theorem Fits.below_bank (h : Fits loader romsize) :
    (layout loader).bootloaderpos.toNat + (layout loader).sizeRamcopy.toNat ≤ bank := by
  have hstart := h.below_start
  have hrom := h.rom
  omega

section
variable {sum : List UInt8} {type : UInt32} {flash image : Nat → UInt8} {k b : Nat}

theorem Fits.bankFits (h : Fits loader romsize) (hk : k ≤ 3) :
    BankFits (imageStruct loader romsize sum type) k := ⟨hk, h.rom⟩

/-- The ROM in a bank of the image is where the loader looks. -/
theorem Fits.holdsRom_bankAt (h : Fits loader romsize)
    (w : Window flash image (0xfff00000 + k * bank) b)
    (hrom : HoldsRom d image (b + (layout loader).start.toNat) (read crom 0 romsize.toNat)) :
    HoldsRom d flash (bankAt (imageStruct loader romsize sum type) k) (read crom 0 romsize.toNat) := by
  apply w.holdsRom hrom
  rw [length_read]
  exact Nat.le_trans h.rom (Nat.sub_le _ _)

theorem Fits.damaged (h : Fits loader romsize) (w : Window flash image (0xfff00000 + k * bank) b)
    (hbad : read image (b + (layout loader).start.toNat) 20 ≠
      (d.sha1 (read image (b + (layout loader).start.toNat + 20) romsize.toNat)).toList) :
    Damaged d flash (imageStruct loader romsize sum type) k := by
  have hrom := h.rom
  have hhash := w.read_eq (show (layout loader).start.toNat + 20 ≤ bank by omega)
  have hdata := w.read_eq (show (layout loader).start.toNat + 20 + romsize.toNat ≤ bank by omega)
  rw [← Nat.add_assoc, ← Nat.add_assoc] at hdata
  unfold Damaged bankAt imageStruct
  dsimp only
  rw [hhash, hdata]
  exact hbad

end

theorem flash256_starts (h : Fits loader romsize) {n : Nat}
    (hn : (layout loader).sizeRamcopy.toNat ≤ n) (ram : Nat → UInt8) :
    startup d (flash256 d loader crom romsize) bank (layout loader).bootloaderpos.toNat n ram =
      .started ⟨read crom 0 romsize.toNat, 1, 4, 0⟩ := by
  obtain ⟨sum, hs⟩ := flash256_holds2bl d crom h
  have hrom := flash256_holdsRom d crom h
  rw [← Nat.zero_add (layout loader).bootloaderpos.toNat] at hs
  rw [← Nat.zero_add (layout loader).start.toNat] at hrom
  have w : Window (chip (flash256 d loader crom romsize) bank) _ _ 0 := window_bank 3
  obtain ⟨ram', hram'⟩ := startup_tries w hs h.size h.below_bank hn ram
  rw [hram']
  exact loadLoop_starts rfl (h.bankFits (le_refl 3)) (h.holdsRom_bankAt w hrom) (length_read _ _ _)

section
variable {image : Nat → UInt8} {n : Nat}

/-- The 2bl of an image of 1 MiB is in the highest bank. -/
theorem fourBanks_tries (h : Fits loader romsize)
    (hsame : ∀ i, 2 * bank ≤ i → image i = flash1024 d loader crom romsize i)
    (hn : (layout loader).sizeRamcopy.toNat ≤ n) (ram : Nat → UInt8) :
    ∃ sum ram', startup d image (4 * bank) (layout loader).bootloaderpos.toNat n ram =
      loadLoop d (chip image (4 * bank)) (imageStruct loader romsize sum 1) 100 0 3 ram' := by
  obtain ⟨sum, hs⟩ := flash1024_holds2bl d crom h (Or.inr rfl)
  have hs' : Holds2bl d image (3 * bank + (layout loader).bootloaderpos.toNat)
      (imageStruct loader romsize sum 1) :=
    hs.congr h.size fun i _ => hsame _ (by omega)
  exact ⟨sum, startup_tries (window_fourBanks image (le_refl 3)) hs' h.size h.below_bank hn ram⟩

theorem flash1024_starts (h : Fits loader romsize) (hn : (layout loader).sizeRamcopy.toNat ≤ n)
    (ram : Nat → UInt8) :
    startup d (flash1024 d loader crom romsize) (4 * bank) (layout loader).bootloaderpos.toNat n ram =
      .started ⟨read crom 0 romsize.toNat, 1, 2, 1⟩ := by
  obtain ⟨sum, ram', hram'⟩ := fourBanks_tries h (fun i _ => rfl) hn ram
  have w := window_fourBanks (flash1024 d loader crom romsize) (show 1 ≤ 3 by decide)
  have hnext : nextBank 1 0 3 = 1 := by decide
  rw [hram']
  exact loadLoop_starts hnext (h.bankFits (by decide))
    (h.holdsRom_bankAt w (flash1024_holdsRom d crom h (Or.inl rfl))) (length_read _ _ _)

/-- With a wrong hash in bank 1 the tries go on to bank 2. -/
theorem fourBanks_starts_bank2 (h : Fits loader romsize)
    (hsame : ∀ i, i < bank ∨ 2 * bank ≤ i → image i = flash1024 d loader crom romsize i)
    (hbad : read image (bank + (layout loader).start.toNat) 20 ≠
      (d.sha1 (read image (bank + (layout loader).start.toNat + 20) romsize.toNat)).toList)
    (hn : (layout loader).sizeRamcopy.toNat ≤ n) (ram : Nat → UInt8) :
    startup d image (4 * bank) (layout loader).bootloaderpos.toNat n ram =
      .started ⟨read crom 0 romsize.toNat, 1, 3, 1⟩ := by
  obtain ⟨sum, ram', hram'⟩ := fourBanks_tries h (fun i hi => hsame i (Or.inr hi)) hn ram
  have w (k : Nat) (hk : k ≤ 3) := window_fourBanks image hk
  have hnext : nextBank 1 25 1 = 2 := by decide
  have hrom : HoldsRom d image (2 * bank + (layout loader).start.toNat) (read crom 0 romsize.toNat) :=
    (flash1024_holdsRom d crom h (Or.inr rfl)).congr fun i _ => hsame _ (by omega)
  rw [← Nat.one_mul bank] at hbad
  obtain ⟨ram2, hram2⟩ := loadLoop_bank1 rfl (h.bankFits (by decide))
    (h.damaged (w 1 (by decide)) hbad) ram'
  rw [hram', hram2]
  exact loadLoop_starts hnext (h.bankFits (by decide)) (h.holdsRom_bankAt (w 2 (by decide)) hrom)
    (length_read _ _ _)

end

end

/-! ## Top theorem -/

/-- **The loader finds what `romcopy` wrote.**  The hash of the 2bl is right in
both images, in that of 1 MiB also in the lowest bank.  From the image of
256 KiB the ROM in the highest bank is started, from that of 1 MiB the one in
bank 1, and the one in bank 2 whatever else is in bank 1 with a wrong hash. -/
theorem romcopy_starts (d : Digests) (loader crom : Nat → UInt8) (romsize : UInt32)
    (h : Fits loader romsize) :
    let p := layout loader
    let pos := p.bootloaderpos.toNat
    let rom := read crom 0 romsize.toNat
    let image256 := (romcopy d loader crom romsize).1
    let image1024 := (romcopy d loader crom romsize).2
    (∃ sum, Holds2bl d image256 pos ⟨sum, p.sizeRamcopy, p.start, romsize, 0⟩) ∧
      (∀ k, k = 0 ∨ k = 3 →
        ∃ sum, Holds2bl d image1024 (k * bank + pos) ⟨sum, p.sizeRamcopy, p.start, romsize, 1⟩) ∧
      ∀ ram n, p.sizeRamcopy.toNat ≤ n →
        startup d image256 bank pos n ram = .started ⟨rom, 1, 4, 0⟩ ∧
          startup d image1024 (4 * bank) pos n ram = .started ⟨rom, 1, 2, 1⟩ ∧
          ∀ image : Nat → UInt8, (∀ i, i < bank ∨ 2 * bank ≤ i → image i = image1024 i) →
            read image (bank + p.start.toNat) 20 ≠
              (d.sha1 (read image (bank + p.start.toNat + 20) romsize.toNat)).toList →
            startup d image (4 * bank) pos n ram = .started ⟨rom, 1, 3, 1⟩ := by
  refine ⟨flash256_holds2bl d crom h, fun k hk => flash1024_holds2bl d crom h hk, ?_⟩
  intro ram n hn
  refine ⟨flash256_starts h hn ram, flash1024_starts h hn ram, ?_⟩
  intro image hsame hbad
  exact fourBanks_starts_bank2 h hsame hbad hn ram

theorem smallLoader_fits : Fits smallLoader 3 := by
  constructor <;> decide +kernel

/-- The image of 1 MiB of a ROM of three bytes, and the one with bank 1 erased. -/
theorem romcopy_starts_erased :
    startup digests (romcopy digests smallLoader (fun _ => 0x5a) 3).2 (4 * bank) 0x100 36 (fun _ => 0) =
        .started ⟨[0x5a, 0x5a, 0x5a], 1, 2, 1⟩ ∧
      startup digests (fill (romcopy digests smallLoader (fun _ => 0x5a) 3).2 bank 0xff bank)
        (4 * bank) 0x100 36 (fun _ => 0) = .started ⟨[0x5a, 0x5a, 0x5a], 1, 3, 1⟩ := by
  have hpos : (layout smallLoader).bootloaderpos.toNat = 0x100 := by decide +kernel
  have h := (romcopy_starts digests smallLoader (fun _ => 0x5a) 3 smallLoader_fits).2.2 (fun _ => 0) 36
    (by decide +kernel)
  rw [hpos] at h
  refine ⟨h.2.1, h.2.2 _ ?_ ?_⟩
  · intro i hi
    exact fill_of_outside _ _ _ _ _ (by omega)
  · decide +kernel

end Gentoox.Image
