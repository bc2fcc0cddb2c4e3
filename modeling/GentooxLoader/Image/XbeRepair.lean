import GentooxLoader.Image.Build

/-!
# Building the XBE (lib/imagebld/imagebld.c)

`xberepair` reads the old XBE file into a buffer from `malloc`, copies the ROM
image behind its 0x3000 bytes, sets the sizes in the headers and the hash of the
section, and writes the file back with the ROM padded to more than a paragraph.
The buffer is meant to be cleared first, but `sizeof(xbe)` is that of a pointer.
The members are where they are on a host with pointers of four bytes.

    xberepair_known       which bytes of the image something was stored in
    xberepair_inside      the image is in the buffer ↔ the ROM is below 0xffff0 bytes
    xberepair_shaHash     the section still has the hash that is stored for it
    xberepair_image_iff   the image is in the buffer and initialised ↔ the old file
                          reaches over the padding, or what is stored there does
-/

namespace Gentoox.Image

open Lib

/-! ## Algorithm -/

/-- The memory from the buffer on, by the distance from its first byte: what is
in a byte, and whether it is initialised. -/
structure Buffer where
  bytes : UInt32 → UInt8
  known : UInt32 → Bool

/-- What `malloc` returns: nothing is stored in it. -/
def Buffer.malloc (heap : UInt32 → UInt8) : Buffer := ⟨heap, fun _ => false⟩

/-- Is `i` one of the `n` bytes from `a` on? -/
def within (i a n : UInt32) : Bool := i - a < n

def Buffer.store (m : Buffer) (a : UInt32) (l : List UInt8) : Buffer where
  bytes i := (l[(i - a).toNat]?).getD (m.bytes i)
  known i := m.known i || within i a (UInt32.ofNat l.length)

def Buffer.read (m : Buffer) (a n : UInt32) : List UInt8 :=
  (List.range n.toNat).map fun i => m.bytes (a + UInt32.ofNat i)

def Buffer.long (m : Buffer) (a : UInt32) : UInt32 :=
  leWord (m.bytes a) (m.bytes (a + 1)) (m.bytes (a + 2)) (m.bytes (a + 3))

/-- The hash of a section: its length is in front. -/
def shax (d : Digests) (data : List UInt8) : List UInt8 :=
  (d.sha1 (le32 (UInt32.ofNat data.length) ++ data)).toList

def bufferSize : UInt32 := 1024 * 1024 + 0x3000

def sizeofPointer : Nat := 4

/-- The distance of `sechdr`, the first section header. -/
def sechdr (m : Buffer) : UInt32 := m.long 0x120 - m.long 0x104

/-- The buffer with the old file in it. -/
def readOld (heap : UInt32 → UInt8) (old : List UInt8) : Buffer :=
  let xbesize := UInt32.ofNat old.length
  let xbe := (Buffer.malloc heap).store 0 (List.replicate sizeofPointer 0)
  xbe.store 0 (old.take xbesize.toNat)

/-- The size of the ROM in the file. -/
def padded (romsize : UInt32) : UInt32 := (romsize &&& 0xfffffff0) + 32

/-- The old file with the ROM and its size. -/
def withRom (heap : UInt32 → UInt8) (rom old : List UInt8) : Buffer :=
  let romsize := UInt32.ofNat rom.length
  let xbe := (readOld heap old).store 0x3000 (rom.take romsize.toNat)
  xbe.store 0x1084 (le32 romsize)

/-- `ImageSize`, `FileSize` and `VirtualSize`. -/
def Buffer.setSizes (xbe : Buffer) (sechdr romsize : UInt32) : Buffer :=
  let xbe := xbe.store 0x10c (le32 (0x3000 + romsize))
  let xbe := xbe.store (sechdr + 0x10) (le32 (0x2000 + romsize))
  xbe.store (sechdr + 8) (le32 (0x2000 + romsize))

/-- The bytes of the section, from `FileAddress` on. -/
def Buffer.sectionBytes (xbe : Buffer) (sechdr : UInt32) : List UInt8 :=
  xbe.read (xbe.long (sechdr + 0xc)) (xbe.long (sechdr + 0x10))

/-- The buffer and how many bytes of it are written, when the ROM is accepted. -/
def xberepair (d : Digests) (heap : UInt32 → UInt8) (rom old : List UInt8) :
    Option (Buffer × UInt32) :=
  let romsize := UInt32.ofNat rom.length
  if romsize > 0x100000 then none
  else
    let xbe := withRom heap rom old
    let sechdr := sechdr xbe
    let xbe := xbe.setSizes sechdr (padded romsize)
    some (xbe.store (sechdr + 0x24) (shax d (xbe.sectionBytes sechdr)), 0x3000 + padded romsize)

/-! ## The bytes that are stored -/

/-- The image is in the buffer, and something was stored in each byte of it. -/
def Initialised (xbe : Buffer) (xbesize : UInt32) : Prop :=
  xbesize ≤ bufferSize ∧ ∀ i < xbesize, xbe.known i

/-- The bytes that are stored besides the old file: the cleared ones, the ROM, its
size, and the members of the headers. -/
def patched (romsize sechdr i : UInt32) : Bool :=
  within i 0 4 || within i 0x3000 romsize || within i 0x1084 4 || within i 0x10c 4 ||
    within i (sechdr + 0x10) 4 || within i (sechdr + 8) 4 || within i (sechdr + 0x24) 20

theorem store_bytes_of_not_within {m : Buffer} {a i : UInt32} {l : List UInt8}
    (hlen : l.length < 2 ^ 32) (h : within i a (UInt32.ofNat l.length) = false) :
    (m.store a l).bytes i = m.bytes i := by
  have hle : l.length ≤ (i - a).toNat := by
    simp only [within, decide_eq_false_iff_not, UInt32.not_lt, UInt32.le_iff_toNat_le,
      UInt32.toNat_ofNat', Nat.mod_eq_of_lt hlen] at h
    exact h
  show (l[(i - a).toNat]?).getD _ = _
  rw [List.getElem?_eq_none hle, Option.getD_none]

theorem shax_length (d : Digests) (data : List UInt8) : (shax d data).length = 20 :=
  (d.sha1 _).toList_length

/-- What `fread` puts into the buffer is as long as the size that was asked for. -/
theorem length_take_size (l : List UInt8) :
    UInt32.ofNat (l.take (UInt32.ofNat l.length).toNat).length = UInt32.ofNat l.length := by
  have hle : (UInt32.ofNat l.length).toNat ≤ l.length := by
    rw [UInt32.toNat_ofNat']
    exact Nat.mod_le _ _
  rw [List.length_take, Nat.min_eq_left hle, UInt32.ofNat_toNat]

theorem length_take_lt (l : List UInt8) (n : UInt32) : (l.take n.toNat).length < 2 ^ 32 := by
  rw [List.length_take]
  exact Nat.lt_of_le_of_lt (Nat.min_le_left _ _) n.toNat_lt

theorem long_congr {m m' : Buffer} {a : UInt32} (h : m.bytes a = m'.bytes a)
    (h1 : m.bytes (a + 1) = m'.bytes (a + 1)) (h2 : m.bytes (a + 2) = m'.bytes (a + 2))
    (h3 : m.bytes (a + 3) = m'.bytes (a + 3)) : m.long a = m'.long a := by
  unfold Buffer.long
  rw [h, h1, h2, h3]

/-- The words of the header that are below the ROM and its size. -/
theorem long_store_rom {m : Buffer} {crom : List UInt8} {a romsize : UInt32}
    (hlen : crom.length < 2 ^ 32) (hrom : UInt32.ofNat crom.length ≤ 0x100000)
    (ha : a < 0x1000) :
    ((m.store 0x3000 crom).store 0x1084 (le32 romsize)).long a = m.long a := by
  have hbyte : ∀ i : UInt32, i < 0x1003 →
      ((m.store 0x3000 crom).store 0x1084 (le32 romsize)).bytes i = m.bytes i := by
    intro i hi
    rw [store_bytes_of_not_within (by simp [length_le32]), store_bytes_of_not_within hlen]
    · simp only [within, decide_eq_false_iff_not, UInt32.not_lt]
      grind
    · simp only [within, length_le32]
      grind
  apply long_congr <;> apply hbyte <;> grind

section
variable {d : Digests} {heap : UInt32 → UInt8} {rom old : List UInt8} {xbe : Buffer}
  {xbesize : UInt32}

/-- The section header is where the old file says. -/
theorem sechdr_withRom (hsize : UInt32.ofNat rom.length ≤ 0x100000) :
    sechdr (withRom heap rom old) = sechdr (readOld heap old) := by
  have hlen := length_take_lt rom (UInt32.ofNat rom.length)
  have hrom : UInt32.ofNat (rom.take (UInt32.ofNat rom.length).toNat).length ≤ 0x100000 := by
    rw [length_take_size]
    exact hsize
  unfold sechdr withRom
  rw [long_store_rom hlen hrom (by decide), long_store_rom hlen hrom (by decide)]

/-- What an accepted ROM becomes. -/
theorem xberepair_accepts (h : xberepair d heap rom old = some (xbe, xbesize)) :
    UInt32.ofNat rom.length ≤ 0x100000 ∧
      xbesize = 0x3000 + padded (UInt32.ofNat rom.length) ∧
      ∃ sized, sized = (withRom heap rom old).setSizes (sechdr (readOld heap old))
          (padded (UInt32.ofNat rom.length)) ∧
        xbe = sized.store (sechdr (readOld heap old) + 0x24)
          (shax d (sized.sectionBytes (sechdr (readOld heap old)))) := by
  by_cases hsize : UInt32.ofNat rom.length ≤ 0x100000
  · simp only [xberepair, if_neg (UInt32.not_lt.2 hsize), sechdr_withRom hsize, Option.some.injEq,
      Prod.mk.injEq] at h
    exact ⟨hsize, h.2.symm, _, rfl, h.1.symm⟩
  · simp only [xberepair, if_pos (UInt32.not_le.1 hsize), reduceCtorEq] at h

theorem xberepair_some (d : Digests) (heap : UInt32 → UInt8) (rom old : List UInt8)
    (hsize : UInt32.ofNat rom.length ≤ 0x100000) :
    ∃ xbe, xberepair d heap rom old = some (xbe, 0x3000 + padded (UInt32.ofNat rom.length)) := by
  simp only [xberepair, if_neg (UInt32.not_lt.2 hsize)]
  exact ⟨_, rfl⟩

theorem known_withRom (i : UInt32) : (withRom heap rom old).known i =
    (within i 0 4 || within i 0 (UInt32.ofNat old.length) ||
      within i 0x3000 (UInt32.ofNat rom.length) || within i 0x1084 4) := by
  simp only [withRom, readOld, Buffer.store, Buffer.malloc, length_take_size, length_le32,
    List.length_replicate, Bool.false_or]
  rfl

/-- The initialised bytes are those of the old file and the patched ones. -/
theorem xberepair_known (h : xberepair d heap rom old = some (xbe, xbesize)) (i : UInt32) :
    xbe.known i = (within i 0 (UInt32.ofNat old.length) ||
      patched (UInt32.ofNat rom.length) (sechdr (readOld heap old)) i) := by
  obtain ⟨-, -, sized, rfl, rfl⟩ := xberepair_accepts h
  simp only [Buffer.setSizes, Buffer.store, known_withRom, length_le32, shax_length, patched]
  grind

end

/-! ## The size -/

theorem padded_toNat {romsize : UInt32} (h : romsize ≤ 0x100000) :
    (padded romsize).toNat = romsize.toNat / 16 * 16 + 32 := by
  have hle : romsize.toNat ≤ 0x100000 := h
  unfold padded
  rw [UInt32.toNat_add, and_paragraphMask]
  show (_ + 32) % 2 ^ 32 = _
  omega

theorem image_toNat {romsize : UInt32} (h : romsize ≤ 0x100000) :
    (0x3000 + padded romsize).toNat = 0x3000 + romsize.toNat / 16 * 16 + 32 := by
  have hle : romsize.toNat ≤ 0x100000 := h
  rw [UInt32.toNat_add, padded_toNat h]
  show (0x3000 + _) % 2 ^ 32 = _
  omega

section
variable {d : Digests} {heap : UInt32 → UInt8} {rom old : List UInt8} {xbe : Buffer}
  {xbesize : UInt32}

/-- The buffer has room for the ROM, but not for what it is padded with. -/
theorem xberepair_inside (h : xberepair d heap rom old = some (xbe, xbesize)) :
    xbesize ≤ bufferSize ↔ UInt32.ofNat rom.length < 0xffff0 := by
  obtain ⟨hsize, rfl, -⟩ := xberepair_accepts h
  rw [UInt32.le_iff_toNat_le, image_toNat hsize, UInt32.lt_iff_toNat_lt]
  show _ ≤ 0x103000 ↔ _ < 0xffff0
  omega

end

theorem within_of_ge {i a n : UInt32} (h : a.toNat + n.toNat ≤ i.toNat) :
    within i a n = false := by
  have hi := i.toNat_lt
  unfold within
  rw [decide_eq_false_iff_not, UInt32.lt_iff_toNat_lt, UInt32.toNat_sub]
  omega

theorem rom_end {romsize : UInt32} (h : romsize ≤ 0x100000) :
    (0x3000 + romsize).toNat = 0x3000 + romsize.toNat := by
  have hle : romsize.toNat ≤ 0x100000 := h
  rw [UInt32.toNat_add]
  show (0x3000 + _) % 2 ^ 32 = _
  omega

/-- With the section header in front of the ROM nothing else is stored behind it. -/
theorem patched_behind {romsize sechdr i : UInt32} (h : romsize ≤ 0x100000)
    (hsechdr : sechdr ≤ 0x2fc8) (hi : 0x3000 + romsize ≤ i) :
    patched romsize sechdr i = false := by
  have hs : sechdr.toNat ≤ 0x2fc8 := hsechdr
  have hle : 0x3000 + romsize.toNat ≤ i.toNat := rom_end h ▸ hi
  have hfixed : ∀ a n : UInt32, a.toNat + n.toNat ≤ 0x3000 → within i a n = false := by
    intro a n hn
    exact within_of_ge (by omega)
  have hmember : ∀ k n : UInt32, k.toNat + n.toNat ≤ 0x38 → within i (sechdr + k) n = false := by
    intro k n hn
    apply within_of_ge
    rw [UInt32.toNat_add]
    omega
  have hrom : within i 0x3000 romsize = false := within_of_ge hle
  simp only [patched, hrom, hfixed 0 4 (by decide), hfixed 0x1084 4 (by decide),
    hfixed 0x10c 4 (by decide), hmember 0x10 4 (by decide), hmember 8 4 (by decide),
    hmember 0x24 20 (by decide), Bool.or_false]

/-! ## The hash of the section -/

theorem read_store {m : Buffer} {a n : UInt32} {l : List UInt8} (hlen : l.length = n.toNat) :
    (m.store a l).read a n = l := by
  apply List.ext_getElem
  · simp only [Buffer.read, List.length_map, List.length_range, hlen]
  · intro i hi hl
    have hlt : i < n.toNat := by omega
    have hoff : (a + UInt32.ofNat i - a).toNat = i := by
      have hn := n.toNat_lt
      rw [show a + UInt32.ofNat i - a = UInt32.ofNat i by grind, UInt32.toNat_ofNat']
      omega
    simp only [Buffer.read, Buffer.store, List.getElem_map, List.getElem_range, hoff,
      List.getElem?_eq_getElem hl, Option.getD_some]

/-- The members of the section header in front of its hash. -/
theorem long_store_shaHash (m : Buffer) (sechdr : UInt32) {l : List UInt8} (hlen : l.length = 20)
    {k : UInt32} (hk : k ≤ 0x20) :
    (m.store (sechdr + 0x24) l).long (sechdr + k) = m.long (sechdr + k) := by
  have hbyte : ∀ i : UInt32, i ≤ 0x23 →
      (m.store (sechdr + 0x24) l).bytes (sechdr + i) = m.bytes (sechdr + i) := by
    intro i hi
    apply store_bytes_of_not_within (by omega)
    simp only [within, hlen]
    grind
  apply long_congr
  · exact hbyte k (by grind)
  · rw [show sechdr + k + 1 = sechdr + (k + 1) by grind]
    exact hbyte _ (by grind)
  · rw [show sechdr + k + 2 = sechdr + (k + 2) by grind]
    exact hbyte _ (by grind)
  · rw [show sechdr + k + 3 = sechdr + (k + 3) by grind]
    exact hbyte _ (by grind)

/-- A section that its own hash is not in hashes to what is stored for it. -/
theorem xberepair_shaHash {d : Digests} {heap : UInt32 → UInt8} {rom old : List UInt8}
    {xbe : Buffer} {xbesize s : UInt32} (h : xberepair d heap rom old = some (xbe, xbesize))
    (hs : s = sechdr (readOld heap old))
    (hout : ∀ i < (xbe.long (s + 0x10)).toNat,
      within (xbe.long (s + 0xc) + UInt32.ofNat i) (s + 0x24) 20 = false) :
    xbe.read (s + 0x24) 20 = shax d (xbe.sectionBytes s) := by
  obtain ⟨-, -, sized, -, hxbe⟩ := xberepair_accepts h
  rw [← hs] at hxbe
  have hlen : (shax d (sized.sectionBytes s)).length = 20 := shax_length d _
  have haddress : xbe.long (s + 0xc) = sized.long (s + 0xc) := by
    rw [hxbe, long_store_shaHash sized s hlen (by decide)]
  have hsize : xbe.long (s + 0x10) = sized.long (s + 0x10) := by
    rw [hxbe, long_store_shaHash sized s hlen (by decide)]
  have hsection : xbe.sectionBytes s = sized.sectionBytes s := by
    unfold Buffer.sectionBytes Buffer.read
    rw [← haddress, ← hsize]
    refine List.map_congr_left fun i hi => ?_
    rw [hxbe]
    apply store_bytes_of_not_within (by omega)
    rw [hlen, ← hxbe]
    exact hout i (List.mem_range.1 hi)
  rw [hsection, hxbe]
  exact read_store hlen

/-! ## The template of the build -/

/-- An XBE of 0x3000 bytes, as `xbeboot.S` is: nothing but the magic number, the base
address and where the section header is. -/
def xromwell : List UInt8 :=
  chars "XBEH".toList ++ List.replicate 0x100 0 ++ le32 0x10000 ++ List.replicate 0x18 0 ++
    le32 0x10348 ++ List.replicate 0x2edc 0

theorem xromwell_length : xromwell.length = 0x3000 := by
  simp only [xromwell, chars, List.length_append, List.length_replicate, List.length_map, length_le32]
  rfl

theorem readOld_xromwell (heap : UInt32 → UInt8) {i : UInt32} (hi : i.toNat < 0x124) :
    (readOld heap xromwell).bytes i = ((xromwell.take 0x124)[i.toNat]?).getD 0 := by
  have htake : xromwell.take (UInt32.ofNat xromwell.length).toNat = xromwell := by
    rw [xromwell_length]
    exact List.take_of_length_le (by rw [xromwell_length]; decide)
  have hlen : i.toNat < xromwell.length := by
    rw [xromwell_length]
    omega
  simp only [readOld, Buffer.store, htake, UInt32.sub_zero, List.getElem?_take_of_lt hi,
    List.getElem?_eq_getElem hlen, Option.getD_some]

theorem sechdr_xromwell (heap : UInt32 → UInt8) : sechdr (readOld heap xromwell) = 0x348 := by
  simp only [sechdr, Buffer.long]
  repeat rw [readOld_xromwell heap (by decide)]
  decide +kernel

/-! ## Top theorem -/

section
variable {d : Digests} {heap : UInt32 → UInt8} {rom old : List UInt8} {xbe : Buffer}
  {xbesize : UInt32}

theorem within_old {i n : UInt32} : within i 0 n = true ↔ ¬ n ≤ i := by
  simp [within, UInt32.not_le]

/-- In an XBE whose section header is in front of the ROM, where the format has it,
the old file has to be as long as the new one. -/
theorem xberepair_image_iff_of_header (h : xberepair d heap rom old = some (xbe, xbesize))
    (hsechdr : sechdr (readOld heap old) ≤ 0x2fc8) :
    Initialised xbe xbesize ↔
      UInt32.ofNat rom.length < 0xffff0 ∧ xbesize ≤ UInt32.ofNat old.length := by
  obtain ⟨hsize, hxbesize, -⟩ := xberepair_accepts h
  have hlast : 0x3000 + UInt32.ofNat rom.length < xbesize := by
    rw [hxbesize, UInt32.lt_iff_toNat_lt, image_toNat hsize, rom_end hsize]
    omega
  have hbehind : ∀ i, 0x3000 + UInt32.ofNat rom.length ≤ i →
      (xbe.known i = true ↔ ¬ UInt32.ofNat old.length ≤ i) := by
    intro i hi
    rw [xberepair_known h, patched_behind hsize hsechdr hi, Bool.or_false, within_old]
  rw [Initialised, xberepair_inside h]
  refine and_congr_right fun _ => ⟨fun hknown => ?_, fun hold i hi => ?_⟩
  · -- the first byte past both the old file and the ROM
    by_contra hshort
    by_cases hrom : 0x3000 + UInt32.ofNat rom.length ≤ UInt32.ofNat old.length
    · exact (hbehind _ hrom).1 (hknown _ (UInt32.not_le.1 hshort)) (UInt32.le_refl _)
    · exact (hbehind _ (UInt32.le_refl _)).1 (hknown _ hlast)
        (UInt32.le_of_lt (UInt32.not_le.1 hrom))
  · rw [xberepair_known h, Bool.or_eq_true, within_old]
    exact Or.inl (UInt32.not_le.2 (UInt32.lt_of_lt_of_le hi hold))

/-- **The image that is written.**  It is in the buffer and all of it was stored
when the ROM is below 0xffff0 bytes and each of its bytes past the end of the old
file is one that is patched, and only then. -/
theorem xberepair_image_iff (h : xberepair d heap rom old = some (xbe, xbesize)) :
    Initialised xbe xbesize ↔ UInt32.ofNat rom.length < 0xffff0 ∧
      ∀ i, UInt32.ofNat old.length ≤ i → i < 0x3000 + padded (UInt32.ofNat rom.length) →
        patched (UInt32.ofNat rom.length) (sechdr (readOld heap old)) i := by
  obtain ⟨-, hxbesize, -⟩ := xberepair_accepts h
  rw [Initialised, xberepair_inside h, hxbesize]
  refine and_congr_right fun _ => forall_congr' fun i => ?_
  rw [xberepair_known h, Bool.or_eq_true, within_old]
  tauto

end

/-- A ROM of 256 KiB once more, over the file that it was written to. -/
theorem xberepair_image_iff_rebuilt :
    ∃ xbe, xberepair digests (fun _ => 0xff) (List.replicate 0x40000 0)
      (xromwell ++ List.replicate 0x40020 0) = some (xbe, 0x43020) ∧ Initialised xbe 0x43020 := by
  obtain ⟨xbe, hxbe⟩ := xberepair_some digests (fun _ => 0xff) (List.replicate 0x40000 0)
    (xromwell ++ List.replicate 0x40020 0) (by rw [List.length_replicate]; decide)
  rw [List.length_replicate] at hxbe
  refine ⟨xbe, hxbe, (xberepair_image_iff hxbe).2 ?_⟩
  rw [List.length_replicate, List.length_append, xromwell_length, List.length_replicate]
  exact ⟨by decide, fun i hold hi => absurd hi (UInt32.not_lt.2 hold)⟩

/-- Behind a ROM of 256 KiB the padding is not stored; one of 0xffff0 bytes is accepted
and reaches past the buffer. -/
theorem xromwell_padding :
    (∃ xbe, xberepair digests (fun _ => 0xff) (List.replicate 0x40000 0) xromwell =
      some (xbe, 0x43020) ∧ xbe.known 0x43000 = false) ∧
    ∃ xbe, xberepair digests (fun _ => 0xff) (List.replicate 0xffff0 0) xromwell =
      some (xbe, 0x103010) ∧ bufferSize < 0x103010 := by
  obtain ⟨xbe, hxbe⟩ := xberepair_some digests (fun _ => 0xff) (List.replicate 0x40000 0) xromwell
    (by rw [List.length_replicate]; decide)
  obtain ⟨large, hlarge⟩ := xberepair_some digests (fun _ => 0xff) (List.replicate 0xffff0 0)
    xromwell (by rw [List.length_replicate]; decide)
  rw [List.length_replicate] at hxbe hlarge
  refine ⟨⟨xbe, hxbe, ?_⟩, large, hlarge, by decide⟩
  rw [xberepair_known hxbe, List.length_replicate, xromwell_length, sechdr_xromwell]
  decide

end Gentoox.Image
