import GentooxLoader.Base.Cells
import GentooxLoader.Base.Words
import GentooxLoader.Lib.Digest

/-!
# Building the flash images (lib/imagebld/imagebld.c)

`romcopy` puts the 2bl loader and the compressed ROM behind it into an image of
256 KiB, and into one of 1 MiB: there the loader is in the lowest and in the
highest bank and the ROM in the two between.  Both are hashed where the loader
looks for them; last comes the record that modchips look for, in the last 64
bytes of the image.

    flash256_holds2bl, …    the 2bl and the ROM are in the images, behind their hashes
    dumpGDT_resetBytes      the reset jump and the GDT are dumped first
    resetBytes_lost         they are in neither image: the record lies over them
-/

namespace Gentoox.Image

open Cells Lib

/-! ## Algorithm -/

def bank : Nat := 256 * 1024

/-- `struct Checksumstruct`, in its order. -/
structure Checksumstruct where
  checksum : List UInt8
  sizeRamcopy : UInt32
  compressedImageStart : UInt32
  compressedImageSize : UInt32
  biossizeType : UInt32

def Checksumstruct.bytes (s : Checksumstruct) : List UInt8 :=
  s.checksum ++ le32 s.sizeRamcopy ++ le32 s.compressedImageStart ++ le32 s.compressedImageSize ++
    le32 s.biossizeType

def checksumstructAt (m : Nat → UInt8) (a : Nat) : Checksumstruct :=
  ⟨read m a 20, longAt m (a + 20), longAt m (a + 24), longAt m (a + 28), longAt m (a + 32)⟩

/-- The bytes from 0x3ffcf to 0x3fff9: the reset jump and the GDT. -/
def resetBytes : List UInt8 :=
  [0xfc, 0xea, 0x00, 0x10, 0xfc, 0xff, 0x08, 0x00, 0x90, 0x00, 0x00, 0x00, 0x00, 0x00, 0x00, 0x00,
    0x00, 0xff, 0xff, 0x00, 0x00, 0x00, 0x9b, 0xcf, 0x00, 0xff, 0xff, 0x00, 0x00, 0x00, 0x93, 0xcf,
    0x00, 0x90, 0x90, 0x90, 0x90, 0x18, 0x00, 0xd8, 0xff, 0xff, 0xff]

/-- The single bytes that are stored over the cleared part. -/
def gdtStores : List (Nat × UInt8) :=
  [(0x3ffcf, 0xfc), (0x3ffd0, 0xea), (0x3ffd2, 0x10), (0x3ffd3, 0xfc), (0x3ffd4, 0xff),
    (0x3ffd5, 0x08), (0x3ffd7, 0x90), (0x3ffe0, 0xff), (0x3ffe1, 0xff), (0x3ffe5, 0x9b),
    (0x3ffe6, 0xcf), (0x3ffe8, 0xff), (0x3ffe9, 0xff), (0x3ffed, 0x93), (0x3ffee, 0xcf),
    (0x3fff4, 0x18), (0x3fff5, 0x00), (0x3fff6, 0xd8), (0x3fff7, 0xff), (0x3fff8, 0xff),
    (0x3fff9, 0xff)]

def dumpGDT (loaderimage : Nat → UInt8) : Nat → UInt8 :=
  gdtStores.foldl (fun m s => Function.update m s.1 s.2)
    (fill (fill loaderimage 0x3fe00 0x90 512) 0x3ffd0 0x00 32)

/-- `sizeof(struct BiosIdentifier)`: there is a byte of padding before `BiosSize`. -/
def biosIdentifierSize : Nat := 64

/-- The members in front of `HeaderPatch`, which is left as it was. -/
def identifierHead : List UInt8 := chars "AUTO".toList ++ [1, 0x7f, 0x03]

def identifierName : List UInt8 := chars "Gentoox Loader 6.07".toList ++ [0]

def writeBiosIdentifier (d : Digests) (cromimage : Nat → UInt8) (biosSize : Nat) : Nat → UInt8 :=
  let header := biosSize - biosIdentifierSize
  let m := write cromimage header identifierHead
  let m := write m (header + 12) (le32 (UInt32.ofNat biosSize))
  let m := write m (header + 16) identifierName
  write m (header + 48) (d.md5 (read m 0 (biosSize - 16))).toList

/-- What `romcopy` knows of the loader image. -/
structure Layout where
  loaderimage : Nat → UInt8
  bootloaderpos : UInt32
  sizeRamcopy : UInt32
  checksum : List UInt8

/-- The image with the GDT and without the helper word. -/
def layout (loader : Nat → UInt8) : Layout :=
  let dumped := dumpGDT loader
  let bootloaderpos := longAt dumped 0x40
  let loaderimage := fill dumped 0x40 0 4
  ⟨loaderimage, bootloaderpos, longAt loaderimage (bootloaderpos.toNat + 20),
    read loaderimage bootloaderpos.toNat 20⟩

/-- `compressed_image_start` -/
def Layout.start (p : Layout) : UInt32 :=
  ((p.bootloaderpos + p.sizeRamcopy) &&& 0xfffffff0) + 0x10 + 0x100

section
variable (d : Digests) (loader crom : Nat → UInt8) (romsize : UInt32)

/-- The image with the struct in it and the hash of the 2bl in front. -/
def hashLoader (p : Layout) (biossizeType : UInt32) : Nat → UInt8 :=
  let pos := p.bootloaderpos.toNat
  let m := copy (fun _ => 0) 0 p.loaderimage 0 bank
  let m := write m pos
    (Checksumstruct.bytes ⟨p.checksum, p.sizeRamcopy, p.start, romsize, biossizeType⟩)
  write m pos (d.sha1 (read m (pos + 20) (p.sizeRamcopy - 20).toNat)).toList

def flash256 : Nat → UInt8 :=
  let p := layout loader
  let m := hashLoader d romsize p 0
  let m := fill m (p.start + 20 + romsize).toNat 0xff (262144 - (p.start + 20 + romsize) - 512).toNat
  let m := copy m (p.start + 20).toNat crom 0 romsize.toNat
  let m := write m p.start.toNat (d.sha1 (read m (p.start + 20).toNat romsize.toNat)).toList
  writeBiosIdentifier d m bank

/-- The hash of the ROM, taken from the image of 256 KiB. -/
def romHash : List.Vector UInt8 20 :=
  let p := layout loader
  let m := hashLoader d romsize p 0
  let m := fill m (p.start + 20 + romsize).toNat 0xff (262144 - (p.start + 20 + romsize) - 512).toNat
  d.sha1 (read (copy m (p.start + 20).toNat crom 0 romsize.toNat) (p.start + 20).toNat romsize.toNat)

def flash1024 : Nat → UInt8 :=
  let p := layout loader
  let m := hashLoader d romsize p 1
  let m := fill m (0 * bank + p.start.toNat) 0xff (262144 - p.start - 512).toNat
  let m := copy m (3 * bank) m 0 bank
  let m := fill m (1 * bank) 0xff (2 * bank)
  let sum := (romHash d loader crom romsize).toList
  let m := write m (p.start.toNat + 1 * bank) sum
  let m := copy m (p.start.toNat + 20 + 1 * bank) crom 0 romsize.toNat
  let m := write m (p.start.toNat + 2 * bank) sum
  let m := copy m (p.start.toNat + 20 + 2 * bank) crom 0 romsize.toNat
  writeBiosIdentifier d m (4 * bank)

/-- The two images written to disk, from the 256 KiB that were read of the
loader image and from the ROM. -/
def romcopy : (Nat → UInt8) × (Nat → UInt8) :=
  (flash256 d loader crom romsize, flash1024 d loader crom romsize)

end

/-! ## The record at the end -/

section
variable {d : Digests} {m : Nat → UInt8} {biosSize : Nat}

/-- The record leaves what is below it alone. -/
theorem writeBiosIdentifier_below {i : Nat} (hi : i + biosIdentifierSize < biosSize) :
    writeBiosIdentifier d m biosSize i = m i := by
  unfold biosIdentifierSize at hi
  unfold writeBiosIdentifier biosIdentifierSize
  rw [write_of_lt _ _ _ _ (by omega), write_of_lt _ _ _ _ (by omega),
    write_of_lt _ _ _ _ (by omega), write_of_lt _ _ _ _ (by omega)]

theorem highByte_ofNat {x : Nat} (hx : x < 2 ^ 24) :
    ((UInt32.ofNat x) >>> 24).toUInt8 = 0 := by
  apply UInt8.toNat_inj.1
  rw [UInt32.toNat_toUInt8, UInt32.toNat_shiftRight, UInt32.toNat_ofNat', Nat.shiftRight_eq_div_pow]
  show x % 2 ^ 32 / 2 ^ 24 % 2 ^ 8 = 0
  omega

/-- The last byte of `BiosSize` is where the reset jump begins. -/
theorem writeBiosIdentifier_size (hsize : biosSize < 2 ^ 24) :
    writeBiosIdentifier d m biosSize (biosSize - biosIdentifierSize + 15) = 0 := by
  have hname : identifierName.length = 20 := rfl
  have hlen : (le32 (UInt32.ofNat biosSize)).length = 4 := rfl
  unfold writeBiosIdentifier
  rw [write_of_lt _ _ _ _ (by omega), write_of_lt _ _ _ _ (by omega),
    show biosSize - biosIdentifierSize + 15 = biosSize - biosIdentifierSize + 12 + 3 by omega,
    write_apply _ _ _ _ (by omega)]
  exact highByte_ofNat hsize

end

/-! ## What an image holds -/

/-- The 2bl is at `a`, and the hash in front of it is the one of what follows. -/
structure Holds2bl (d : Digests) (m : Nat → UInt8) (a : Nat) (s : Checksumstruct) : Prop where
  struct : checksumstructAt m a = s
  hash : s.checksum = (d.sha1 (read m (a + 20) (s.sizeRamcopy - 20).toNat)).toList

/-- The ROM is behind its hash at `a`. -/
structure HoldsRom (d : Digests) (m : Nat → UInt8) (a : Nat) (rom : List UInt8) : Prop where
  hash : read m a 20 = (d.sha1 rom).toList
  bytes : read m (a + 20) rom.length = rom

section
variable {d : Digests} {m m' : Nat → UInt8} {a b : Nat}

theorem checksumstructAt_congr (h : ∀ i, i < 36 → m (a + i) = m' (b + i)) :
    checksumstructAt m a = checksumstructAt m' b := by
  have hlong : ∀ k, k + 4 ≤ 36 → longAt m (a + k) = longAt m' (b + k) := by
    intro k hk
    apply longAt_congr
    intro i hi
    rw [Nat.add_assoc, Nat.add_assoc]
    exact h (k + i) (by omega)
  unfold checksumstructAt
  rw [hlong 20 (by omega), hlong 24 (by omega), hlong 28 (by omega), hlong 32 (by omega),
    (read_eq_iff m m' a b 20).2 fun i hi => h i (by omega)]

/-- A struct that was stored is read back. -/
theorem checksumstructAt_write (s : Checksumstruct) (hlen : s.checksum.length = 20) :
    checksumstructAt (write m a s.bytes) a = s := by
  have hbytes : s.bytes.length = 36 := by simp [Checksumstruct.bytes, hlen, le32]
  have hread := read_write m a s.bytes
  rw [hbytes] at hread
  have hfield : ∀ k x, (s.bytes.drop k).take 4 = le32 x → k + 4 ≤ 36 →
      longAt (write m a s.bytes) (a + k) = x := by
    intro k x hx hk
    apply longAt_of_read
    rw [read_part hk, hread, hx]
  have hchecksum : read (write m a s.bytes) a 20 = s.checksum := by
    have htake := take_read (write m a s.bytes) a 36 20
    rw [hread] at htake
    rw [show (20 : Nat) = min 20 36 by decide, ← htake]
    simp [Checksumstruct.bytes, hlen]
  have hdrop : ∀ k, 20 ≤ k → s.checksum.drop k = [] := fun k hk =>
    List.drop_eq_nil_of_le (by omega)
  unfold checksumstructAt
  rw [hchecksum, hfield 20 s.sizeRamcopy _ (by omega), hfield 24 s.compressedImageStart _ (by omega),
    hfield 28 s.compressedImageSize _ (by omega), hfield 32 s.biossizeType _ (by omega)]
  all_goals simp [Checksumstruct.bytes, List.drop_append, hlen, hdrop, le32]

theorem checksumstructAt_write_checksum {sum : List UInt8} (hsum : sum.length = 20) :
    checksumstructAt (write m a sum) a = { checksumstructAt m a with checksum := sum } := by
  have hlong : ∀ k, 20 ≤ k → longAt (write m a sum) (a + k) = longAt m (a + k) := by
    intro k hk
    apply longAt_congr
    intro i _
    exact write_of_ge _ _ _ _ (by omega)
  unfold checksumstructAt
  rw [hlong 20 (by omega), hlong 24 (by omega), hlong 28 (by omega), hlong 32 (by omega),
    read_write_of_length hsum]

/-- Both depend only on the bytes they are about. -/
theorem Holds2bl.congr {s : Checksumstruct} (hs : Holds2bl d m a s) (hsize : 36 ≤ s.sizeRamcopy)
    (h : ∀ i, i < s.sizeRamcopy.toNat → m' (b + i) = m (a + i)) : Holds2bl d m' b s := by
  have hsize' : 36 ≤ s.sizeRamcopy.toNat := hsize
  have hsub : (s.sizeRamcopy - 20).toNat = s.sizeRamcopy.toNat - 20 :=
    UInt32.toNat_sub_of_le _ _ (UInt32.le_trans (by decide) hsize)
  have hread : read m' (b + 20) (s.sizeRamcopy - 20).toNat =
      read m (a + 20) (s.sizeRamcopy - 20).toNat := by
    rw [read_eq_iff]
    intro i hi
    rw [Nat.add_assoc, Nat.add_assoc]
    exact h (20 + i) (by omega)
  constructor
  · rw [← hs.struct]
    exact checksumstructAt_congr fun i hi => h i (by omega)
  · rw [hread]
    exact hs.hash

theorem HoldsRom.congr {rom : List UInt8} (hs : HoldsRom d m a rom)
    (h : ∀ i, i < 20 + rom.length → m' (b + i) = m (a + i)) : HoldsRom d m' b rom := by
  constructor
  · rw [← hs.hash, read_eq_iff]
    exact fun i hi => h i (by omega)
  · rw [← hs.bytes, length_read, read_eq_iff]
    intro i hi
    rw [Nat.add_assoc, Nat.add_assoc]
    exact h (20 + i) (by omega)

end

/-! ## The images hold the loader and the ROM -/

theorem and_paragraphMask (x : UInt32) : (x &&& 0xfffffff0).toNat = x.toNat / 16 * 16 :=
  Words.and_mask x (k := 4) (by decide) rfl

theorem gdtStores_of_ne {m : Nat → UInt8} {i : Nat} (stores : List (Nat × UInt8))
    (h : ∀ s ∈ stores, i ≠ s.1) :
    stores.foldl (fun m s => Function.update m s.1 s.2) m i = m i := by
  induction stores generalizing m with
  | nil => rfl
  | cons s stores ih =>
    rw [List.foldl_cons, ih fun t ht => h t (List.mem_cons_of_mem s ht),
      Function.update_of_ne (h s List.mem_cons_self)]

/-- Only the last 512 bytes are dumped over. -/
theorem dumpGDT_below {loader : Nat → UInt8} {i : Nat} (hi : i < 0x3fe00) :
    dumpGDT loader i = loader i := by
  have hstores : ∀ s ∈ gdtStores, 0x3fe00 ≤ s.1 := by decide
  unfold dumpGDT
  rw [gdtStores_of_ne gdtStores fun s hs => by have := hstores s hs; omega,
    fill_of_outside _ _ _ _ _ (by omega), fill_of_outside _ _ _ _ _ (by omega)]

/-- The helper word and the size are the ones in the loader image, when the
size is not under the helper word. -/
theorem layout_of_helper {loader : Nat → UInt8}
    (hpos : (longAt loader 0x40).toNat + 24 ≤ 0x40 ∨ 0x44 ≤ (longAt loader 0x40).toNat + 20)
    (hend : (longAt loader 0x40).toNat + 24 ≤ 0x3fe00) :
    (layout loader).bootloaderpos = longAt loader 0x40 ∧
      (layout loader).sizeRamcopy = longAt loader ((longAt loader 0x40).toNat + 20) := by
  have hhelper : (layout loader).bootloaderpos = longAt loader 0x40 :=
    longAt_congr fun i hi => dumpGDT_below (by omega)
  refine ⟨hhelper, ?_⟩
  show longAt (fill (dumpGDT loader) 0x40 0 4) ((layout loader).bootloaderpos.toNat + 20) = _
  rw [hhelper]
  apply longAt_congr
  intro i hi
  rw [fill_of_outside _ _ _ _ _ (by omega), dumpGDT_below (by omega)]

/-- What a loader image and a ROM must be like: the struct that the helper word
leads to has its own 36 bytes hashed, nothing wraps and the ROM ends below the
last 512 bytes. -/
structure Fits (loader : Nat → UInt8) (romsize : UInt32) : Prop where
  size : 36 ≤ (layout loader).sizeRamcopy
  sum : (layout loader).bootloaderpos.toNat + (layout loader).sizeRamcopy.toNat + 0x110 < 2 ^ 32
  rom : (layout loader).start.toNat + 20 + romsize.toNat ≤ bank - 512

section
variable {d : Digests} {loader crom : Nat → UInt8} {romsize : UInt32}

/-- The ROM starts behind the 2bl. -/
theorem Fits.below_start (h : Fits loader romsize) :
    (layout loader).bootloaderpos.toNat + (layout loader).sizeRamcopy.toNat <
      (layout loader).start.toNat := by
  have hsum := h.sum
  unfold Layout.start
  rw [UInt32.toNat_add, UInt32.toNat_add, and_paragraphMask, UInt32.toNat_add]
  show _ < ((((layout loader).bootloaderpos.toNat + (layout loader).sizeRamcopy.toNat) % 2 ^ 32 / 16 *
    16 + 16) % 2 ^ 32 + 256) % 2 ^ 32
  omega

theorem Fits.start_toNat (h : Fits loader romsize) :
    ((layout loader).start + 20).toNat = (layout loader).start.toNat + 20 ∧
      ((layout loader).start + 20 + romsize).toNat =
        (layout loader).start.toNat + 20 + romsize.toNat := by
  have hrom := h.rom
  have hb : bank = 262144 := rfl
  have h20 : ((layout loader).start + 20).toNat = (layout loader).start.toNat + 20 := by
    rw [UInt32.toNat_add]
    show ((layout loader).start.toNat + 20) % 2 ^ 32 = _
    omega
  refine ⟨h20, ?_⟩
  rw [UInt32.toNat_add, h20]
  omega

variable (d romsize) in
/-- The struct is put in, and then the hash in front of what it begins. -/
theorem hashLoader_holds (p : Layout) (hlen : p.checksum.length = 20)
    (biossizeType : UInt32) :
    ∃ sum, Holds2bl d (hashLoader d romsize p biossizeType) p.bootloaderpos.toNat
      ⟨sum, p.sizeRamcopy, p.start, romsize, biossizeType⟩ := by
  let s : Checksumstruct := ⟨p.checksum, p.sizeRamcopy, p.start, romsize, biossizeType⟩
  let m := write (copy (fun _ => 0) 0 p.loaderimage 0 bank) p.bootloaderpos.toNat s.bytes
  let sum := d.sha1 (read m (p.bootloaderpos.toNat + 20) (p.sizeRamcopy - 20).toNat)
  have hsum : sum.toList.length = 20 := sum.toList_length
  refine ⟨sum.toList, ?_, ?_⟩
  · show checksumstructAt (write m p.bootloaderpos.toNat sum.toList) p.bootloaderpos.toNat = _
    rw [checksumstructAt_write_checksum hsum, checksumstructAt_write s hlen]
  · show sum.toList = (d.sha1 (read (write m p.bootloaderpos.toNat sum.toList) _ _)).toList
    rw [read_write_of_outside _ _ _ _ _ (by omega)]

/-- The 2bl lies below the ROM, where only the loader image was stored. -/
theorem flash256_below (h : Fits loader romsize) {i : Nat} (hi : i < (layout loader).start.toNat) :
    flash256 d loader crom romsize i = hashLoader d romsize (layout loader) 0 i := by
  have hrom := h.rom
  obtain ⟨h20, hend⟩ := h.start_toNat
  have hb : bank = 262144 := rfl
  unfold flash256
  rw [writeBiosIdentifier_below (by unfold biosIdentifierSize; omega),
    write_of_lt _ _ _ _ hi, copy, write_of_lt _ _ _ _ (by omega),
    fill_of_outside _ _ _ _ _ (by omega)]

variable (d crom) in
theorem flash256_holdsRom (h : Fits loader romsize) :
    HoldsRom d (flash256 d loader crom romsize) (layout loader).start.toNat
      (read crom 0 romsize.toNat) := by
  have hrom := h.rom
  obtain ⟨h20, hend⟩ := h.start_toNat
  have hb : bank = 262144 := rfl
  have hcopied : ∀ m : Nat → UInt8,
      read (copy m ((layout loader).start + 20).toNat crom 0 romsize.toNat)
        ((layout loader).start + 20).toNat romsize.toNat = read crom 0 romsize.toNat :=
    fun m => read_write_of_length (length_read _ _ _)
  have hbelow : ∀ m i, i < 20 + romsize.toNat →
      writeBiosIdentifier d m bank ((layout loader).start.toNat + i) =
        m ((layout loader).start.toNat + i) := by
    intro m i hi
    exact writeBiosIdentifier_below (by unfold biosIdentifierSize; omega)
  unfold flash256
  refine HoldsRom.congr ⟨?_, ?_⟩ fun i hi => hbelow _ i (by rwa [length_read] at hi)
  · rw [read_write_of_length (List.Vector.toList_length _), hcopied]
  · rw [length_read, read_write_of_outside _ _ _ _ _ (by rw [List.Vector.toList_length]; omega),
      ← h20, hcopied]

variable (d crom) in
theorem flash256_holds2bl (h : Fits loader romsize) :
    ∃ sum, Holds2bl d (flash256 d loader crom romsize) (layout loader).bootloaderpos.toNat
      ⟨sum, (layout loader).sizeRamcopy, (layout loader).start, romsize, 0⟩ := by
  obtain ⟨sum, hs⟩ := hashLoader_holds d romsize (layout loader) (length_read _ _ _) 0
  refine ⟨sum, hs.congr h.size fun i hi => flash256_below h ?_⟩
  have hstart := h.below_start
  exact Nat.lt_trans (Nat.add_lt_add_left hi _) hstart

theorem romHash_eq : romHash d loader crom romsize = d.sha1 (read crom 0 romsize.toNat) := by
  unfold romHash copy
  dsimp only
  rw [read_write_of_length (length_read _ _ _)]

/-- In the image of 1 MiB the lowest and the highest bank are the same. -/
theorem flash1024_below (h : Fits loader romsize) {k i : Nat} (hk : k = 0 ∨ k = 3)
    (hi : i < (layout loader).start.toNat) :
    flash1024 d loader crom romsize (k * bank + i) = hashLoader d romsize (layout loader) 1 i := by
  have hrom := h.rom
  have hb : bank = 262144 := rfl
  have hsum : (romHash d loader crom romsize).toList.length = 20 := List.Vector.toList_length _
  have hlen : (read crom 0 romsize.toNat).length = romsize.toNat := length_read _ _ _
  have hplace : k * bank + i < bank ∨ 3 * bank ≤ k * bank + i ∧ k * bank + i < 4 * bank - 512 := by
    rcases hk with rfl | rfl <;> omega
  unfold flash1024 copy
  rw [writeBiosIdentifier_below (by unfold biosIdentifierSize; omega),
    write_of_outside _ _ _ _ (by omega), write_of_outside _ _ _ _ (by omega),
    write_of_outside _ _ _ _ (by omega), write_of_outside _ _ _ _ (by omega),
    fill_of_outside _ _ _ _ _ (by omega)]
  rcases hk with rfl | rfl
  · rw [write_of_lt _ _ _ _ (by omega), fill_of_outside _ _ _ _ _ (by omega),
      Nat.zero_mul, Nat.zero_add]
  · rw [write_apply _ _ _ _ (by rw [length_read]; omega), getElem_read, Nat.zero_add,
      fill_of_outside _ _ _ _ _ (by omega)]

variable (d crom) in
theorem flash1024_holds2bl (h : Fits loader romsize) {k : Nat} (hk : k = 0 ∨ k = 3) :
    ∃ sum, Holds2bl d (flash1024 d loader crom romsize)
      (k * bank + (layout loader).bootloaderpos.toNat)
      ⟨sum, (layout loader).sizeRamcopy, (layout loader).start, romsize, 1⟩ := by
  obtain ⟨sum, hs⟩ := hashLoader_holds d romsize (layout loader) (length_read _ _ _) 1
  refine ⟨sum, hs.congr h.size ?_⟩
  intro i hi
  have hstart := h.below_start
  rw [Nat.add_assoc]
  exact flash1024_below h hk (Nat.lt_trans (Nat.add_lt_add_left hi _) hstart)

/-- The hash and the ROM behind it, as they are put into a bank. -/
theorem copy_holdsRom (m : Nat → UInt8) (a : Nat) :
    HoldsRom d (copy (write m a (romHash d loader crom romsize).toList) (a + 20) crom 0 romsize.toNat)
      a (read crom 0 romsize.toNat) := by
  have hsum : (romHash d loader crom romsize).toList.length = 20 := List.Vector.toList_length _
  constructor
  · rw [copy, read_write_of_outside _ _ _ _ _ (by omega), read_write_of_length hsum, romHash_eq]
  · rw [copy, length_read, read_write_of_length (length_read _ _ _)]

variable (d crom) in
/-- The two banks in the middle both hold the ROM. -/
theorem flash1024_holdsRom (h : Fits loader romsize) {k : Nat} (hk : k = 1 ∨ k = 2) :
    HoldsRom d (flash1024 d loader crom romsize) (k * bank + (layout loader).start.toNat)
      (read crom 0 romsize.toNat) := by
  have hrom := h.rom
  have hb : bank = 262144 := rfl
  have hsum : (romHash d loader crom romsize).toList.length = 20 := List.Vector.toList_length _
  have hlen : (read crom 0 romsize.toNat).length = romsize.toNat := length_read _ _ _
  have hplace : ∀ k, (layout loader).start.toNat + 20 + k * bank =
      (layout loader).start.toNat + k * bank + 20 := fun k => by omega
  unfold flash1024
  dsimp only
  rw [hplace, hplace, Nat.add_comm (k * bank)]
  have hput : ∀ m a, HoldsRom d (copy (write m a (romHash d loader crom romsize).toList) (a + 20) crom 0
    romsize.toNat) a (read crom 0 romsize.toNat) := copy_holdsRom
  rcases hk with rfl | rfl
  · apply (hput _ ((layout loader).start.toNat + 1 * bank)).congr
    intro i hi
    rw [hlen] at hi
    rw [writeBiosIdentifier_below (by unfold biosIdentifierSize; omega), copy,
      write_of_lt _ _ _ _ (by omega), write_of_lt _ _ _ _ (by omega)]
  · apply (hput _ ((layout loader).start.toNat + 2 * bank)).congr
    intro i hi
    rw [hlen] at hi
    rw [writeBiosIdentifier_below (by unfold biosIdentifierSize; omega)]

end

section
variable {d : Digests} {m : Nat → UInt8} {biosSize : Nat}

/-! ## The reset jump and the GDT -/

theorem gdtStores_congr {m m' : Nat → UInt8} {i : Nat} (stores : List (Nat × UInt8))
    (h : m i = m' i) :
    stores.foldl (fun m s => Function.update m s.1 s.2) m i =
      stores.foldl (fun m s => Function.update m s.1 s.2) m' i := by
  induction stores generalizing m m' with
  | nil => exact h
  | cons s stores ih =>
    rw [List.foldl_cons, List.foldl_cons]
    apply ih
    by_cases hi : i = s.1
    · rw [hi, Function.update_self, Function.update_self]
    · rw [Function.update_of_ne hi, Function.update_of_ne hi, h]

/-- They are dumped whatever was in the loader image. -/
theorem dumpGDT_resetBytes (loader : Nat → UInt8) : read (dumpGDT loader) 0x3ffcf 43 = resetBytes := by
  have hblank : read (dumpGDT fun _ => 0) 0x3ffcf 43 = resetBytes := by decide +kernel
  rw [← hblank]
  apply read_congr
  intro i h1 h2
  have hi : 0x3fe00 ≤ i ∧ i < 0x3fe00 + 512 := by omega
  apply gdtStores_congr
  by_cases h : 0x3ffd0 ≤ i
  · by_cases hlast : i < 0x3fff0
    · rw [fill_apply _ _ _ _ _ (by omega), fill_apply _ _ _ _ _ (by omega)]
    · rw [fill_of_outside _ _ _ _ _ (by omega), fill_of_outside _ 0x3ffd0 _ _ _ (by omega),
        fill_apply _ _ _ _ _ hi, fill_apply _ _ _ _ _ hi]
  · rw [fill_of_outside _ _ _ _ _ (by omega), fill_of_outside _ 0x3ffd0 _ _ _ (by omega),
      fill_apply _ _ _ _ _ hi, fill_apply _ _ _ _ _ hi]

/-- The place of these bytes in the top bank of an image. -/
def resetAt (image : Nat → UInt8) (biosSize : Nat) : List UInt8 :=
  read image (biosSize - bank + 0x3ffcf) 43

/-- Whatever is under the record, the first of them is gone. -/
theorem resetAt_ne (h : bank ≤ biosSize) (hsize : biosSize < 2 ^ 24) :
    resetAt (writeBiosIdentifier d m biosSize) biosSize ≠ resetBytes := by
  have hb : bank = 0x40000 := rfl
  have hi : biosIdentifierSize = 64 := rfl
  intro heq
  have hfirst := congrArg (fun l : List UInt8 => l[0]?) heq
  unfold resetAt at hfirst
  rw [getElem?_read _ _ _ _ (by omega),
    show biosSize - bank + 0x3ffcf + 0 = biosSize - biosIdentifierSize + 15 by omega,
    writeBiosIdentifier_size hsize] at hfirst
  cases hfirst

end

/-! ## Top theorem -/

/-- **Neither image keeps the reset jump and the GDT** that were dumped into the
loader image: the record of the modchips is written over them. -/
theorem resetBytes_lost (d : Digests) (loader crom : Nat → UInt8) (romsize : UInt32) :
    resetAt (romcopy d loader crom romsize).1 bank ≠ read (dumpGDT loader) 0x3ffcf 43 ∧
      resetAt (romcopy d loader crom romsize).2 (4 * bank) ≠ read (dumpGDT loader) 0x3ffcf 43 := by
  rw [dumpGDT_resetBytes]
  constructor
  · exact resetAt_ne (le_refl _) (by decide)
  · exact resetAt_ne (by decide) (by decide)

/-- A loader image of which only the helper word and `Size_ramcopy` are not 0. -/
def smallLoader : Nat → UInt8 := write (write (fun _ => 0) 0x40 (le32 0x100)) 0x114 (le32 36)

theorem jump_under_the_record :
    resetAt (romcopy digests smallLoader (fun _ => 0x5a) 3).1 bank ≠
      read (dumpGDT smallLoader) 0x3ffcf 43 := by
  rw [dumpGDT_resetBytes]
  exact resetAt_ne (le_refl _) (by decide)

end Gentoox.Image
