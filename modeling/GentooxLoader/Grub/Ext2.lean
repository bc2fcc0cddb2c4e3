import GentooxLoader.Fatx.RawRead
import GentooxLoader.Lib.Strings
import Mathlib.Data.Nat.Bitwise

/-!
# Blocks of an ext2 file (fs/grub/fsys_ext2fs.c, fs/grub/disk_io.c)

`ext2fs_block_map` finds the block of the partition that has a block of the file:
the inode points to the first twelve, and to trees of one, two and three levels
for the others.  The last blocks of pointers stay in two buffers, `mapblock1` and
`mapblock2` say which.  `follow` is the same without buffers.

    ext2Rdfsb_eq          a block is read if the partition has it
    readOrCorrupt_cases   what a read can do that is left out if the block is there
    Inv.ext2fsBlockMap    one look-up
    blockMaps_eq          any look-ups, one after the other
-/

namespace Gentoox.Grub

open Cells Ide Lib Fatx

/-! ## Algorithm -/

def fsysBuf : Nat := 0x68000

/-- Of the error numbers those that are set here. -/
inductive GrubError
  | none
  | outsidePart
  | fsysCorrupt
  deriving DecidableEq

/-- The partition that is open. -/
structure Part where
  currentDrive : Int
  partStart : UInt32
  partLength : UInt32

/-- The memory and the globals; `reads` counts the sectors read. -/
structure Globals where
  ram : Nat → UInt8
  errnum : GrubError
  mapblock1 : Int
  mapblock2 : UInt32
  reads : Nat

section
variable (env : Env) (part : Part)

/-- The `while(byte_len)` loop of `rawread`, and whether it ends at a sector that
cannot be read; `none` where the size of a `memcpy` is negative. -/
def rawreadLoop : Nat → UInt32 → Nat → Nat → Nat → (Nat → UInt8) → Nat →
    Option (Bool × (Nat → UInt8) × Nat)
  | 0, _, _, _, _, _, _ => none
  | fuel + 1, sector, byteOffset, byteLen, buf, ram, reads =>
    if byteLen = 0 then some (false, ram, reads)
    else
      let nThisTime := if byteLen < 512 then byteLen else 512
      if byteOffset ≠ 0 then
        let (status, data) := env.readSector reads part.currentDrive sector 512
        let ram := write ram buf data
        if status ≠ 0 then some (true, ram, reads + 1)
        else if nThisTime < byteOffset then none
        else
          -- the copy is from the array `ba`, which nothing was read into
          let n := nThisTime - byteOffset
          rawreadLoop fuel (sector + 1) 0 (byteLen - n) (buf + n)
            (copy ram buf (env.stack reads) byteOffset n) (reads + 1)
      else
        let (status, data) := env.readSector reads part.currentDrive sector nThisTime
        let ram := write ram buf data
        if status ≠ 0 then some (true, ram, reads + 1)
        else rawreadLoop fuel (sector + 1) 0 (byteLen - nThisTime) (buf + nThisTime) ram (reads + 1)

/-- It returns 1 where a sector cannot be read, and `!errnum` otherwise. -/
def rawread (g : Globals) (sector : UInt32) (byteOffset byteLen buf : Nat) : Option (Bool × Globals) :=
  match rawreadLoop env part (byteLen + 2) (sector + UInt32.ofNat (byteOffset / 512))
      (byteOffset % 512) byteLen buf g.ram g.reads with
  | none => none
  | some (gaveUp, ram, reads) => some (gaveUp || decide (g.errnum = .none), { g with ram, reads })

def devread (g : Globals) (sector : UInt32) (byteOffset byteLen buf : Nat) : Option (Bool × Globals) :=
  if signed sector < 0 ∨
      part.partLength ≤ sector + UInt32.ofNat ((byteOffset + byteLen - 1) / 512) then
    some (false, { g with errnum := .outsidePart })
  else rawread env part g (part.partStart + (sector + UInt32.ofNat (byteOffset / 512)))
    (byteOffset % 512) byteLen buf

def blockSizeBits (ram : Nat → UInt8) : Nat := (longAt ram (fsysBuf + 24)).toNat + 10

def blockSize (ram : Nat → UInt8) : Nat := 1 <<< blockSizeBits ram

def addrPerBlock (ram : Nat → UInt8) : Nat := blockSize ram / 4

/-- The lowest bit that is set (`bsfl`). -/
def log2 (n : Nat) : Nat := ((List.range 32).find? n.testBit).getD 0

def addrPerBlockBits (ram : Nat → UInt8) : Nat := log2 (addrPerBlock ram)

def groupDesc : Nat := fsysBuf + 1024

def inode (ram : Nat → UInt8) : Nat := groupDesc + blockSize ram

def datablock1 (ram : Nat → UInt8) : Nat := inode ram + 128

def datablock2 (ram : Nat → UInt8) : Nat := datablock1 ram + blockSize ram

/-- `INODE->i_block[i]`. -/
def iBlock (ram : Nat → UInt8) (i : Nat) : UInt32 := longAt ram (inode ram + 40 + 4 * i)

def ext2Rdfsb (g : Globals) (fsblock : UInt32) (buffer : Nat) : Option (Bool × Globals) :=
  devread env part g (fsblock * UInt32.ofNat (blockSize g.ram / 512)) 0 (blockSize g.ram) buffer

/-- A block that is read unless it is there already, and what follows; without
the block the file system is corrupt. -/
def readOrCorrupt (cached : Bool) (g : Globals) (fsblock : UInt32) (buffer : Nat)
    (k : Globals → Option (UInt32 × Globals)) : Option (UInt32 × Globals) :=
  match if cached then some (true, g) else ext2Rdfsb env part g fsblock buffer with
  | none => none
  | some (true, g) => k g
  | some (false, g) => some (0xffffffff, { g with errnum := .fsysCorrupt })

def ext2fsBlockMap (g : Globals) (logicalBlock : Nat) : Option (UInt32 × Globals) :=
  if logicalBlock < 12 then some (iBlock g.ram logicalBlock, g)
  else
    let n := logicalBlock - 12
    if n < addrPerBlock g.ram then
      readOrCorrupt env part (g.mapblock1 = 1) g (iBlock g.ram 12) (datablock1 g.ram) fun g =>
        some (longAt g.ram (datablock1 g.ram + 4 * n), { g with mapblock1 := 1 })
    else
      let n := n - addrPerBlock g.ram
      if n < 1 <<< (addrPerBlockBits g.ram * 2) then
        readOrCorrupt env part (g.mapblock1 = 2) g (iBlock g.ram 13) (datablock1 g.ram) fun g =>
          let g := { g with mapblock1 := 2 }
          let bnum := longAt g.ram (datablock1 g.ram + 4 * (n >>> addrPerBlockBits g.ram))
          readOrCorrupt env part (bnum = g.mapblock2) g bnum (datablock2 g.ram) fun g =>
            some (longAt g.ram (datablock2 g.ram + 4 * (n &&& (addrPerBlock g.ram - 1))),
              { g with mapblock2 := bnum })
      else
        let g := { g with mapblock2 := 0xffffffff }
        let n := n - 1 <<< (addrPerBlockBits g.ram * 2)
        readOrCorrupt env part (g.mapblock1 = 3) g (iBlock g.ram 14) (datablock1 g.ram) fun g =>
          let g := { g with mapblock1 := 3 }
          readOrCorrupt env part false g
              (longAt g.ram (datablock1 g.ram + 4 * (n >>> (addrPerBlockBits g.ram * 2))))
              (datablock2 g.ram) fun g =>
            readOrCorrupt env part false g
                (longAt g.ram (datablock2 g.ram +
                  4 * (n >>> addrPerBlockBits g.ram &&& (addrPerBlock g.ram - 1))))
                (datablock2 g.ram) fun g =>
              some (longAt g.ram (datablock2 g.ram + 4 * (n &&& (addrPerBlock g.ram - 1))), g)

/-- Look-ups one after the other, as `ext2fs_read` makes them; the bytes that it reads
in between go to the caller. -/
def blockMaps : Globals → List Nat → Option (List UInt32 × Globals)
  | g, [] => some ([], g)
  | g, n :: ns =>
    match ext2fsBlockMap env part g n with
    | none => none
    | some (v, g) => (blockMaps g ns).map fun r => (v :: r.1, r.2)

/-! ## What is stored -/

/-- Block `b` of a partition with blocks of `2 ^ (L + 10)` bytes. -/
def block (L : Nat) (b : UInt32) : List UInt8 :=
  env.sectors part.currentDrive (part.partStart + b * UInt32.ofNat (2 ^ (L + 1))) (2 ^ (L + 1))

/-- The partition has the block. -/
def Inside (L : Nat) (b : UInt32) : Prop :=
  ¬ (signed (b * UInt32.ofNat (2 ^ (L + 1))) < 0 ∨
    part.partLength ≤ b * UInt32.ofNat (2 ^ (L + 1)) + UInt32.ofNat (2 ^ (L + 1) - 1))

instance (L : Nat) (b : UInt32) : Decidable (Inside part L b) := inferInstanceAs (Decidable (¬ _))

/-- Pointer `i` of a block of pointers. -/
def pointer (L : Nat) (b : UInt32) (i : Nat) : UInt32 :=
  longAt (fun j => (block env part L b).getD j 0) (4 * i)

/-- From a block on down the tree. -/
def follow (L : Nat) : UInt32 → List Nat → Option UInt32
  | b, [] => some b
  | b, i :: is => if Inside part L b then follow L (pointer env part L b i) is else none

/-- The pointer of the inode, and the way from there. -/
def path (L n : Nat) : Nat × List Nat :=
  let a := 2 ^ (L + 8)
  if n < 12 then (n, [])
  else if n - 12 < a then (12, [n - 12])
  else if n - 12 - a < a ^ 2 then (13, [(n - 12 - a) / a, (n - 12 - a) % a])
  else (14, [(n - 12 - a - a ^ 2) / a ^ 2, (n - 12 - a - a ^ 2) / a % a, (n - 12 - a - a ^ 2) % a])

/-- The block that has block `n` of the file whose inode is in memory. -/
def fileBlock (L : Nat) (ram : Nat → UInt8) (n : Nat) : Option UInt32 :=
  follow env part L (iBlock ram (path L n).1) (path L n).2

end

/-! ## Reading blocks -/

section
variable {env : Env} {part : Part} {L : Nat} {g : Globals}

theorem rawreadLoop_ok (hok : ∀ i, env.fails i = false) : ∀ (fuel : Nat) (sector : UInt32)
    (len buf : Nat) (ram : Nat → UInt8) (reads : Nat), len < fuel →
    rawreadLoop env part fuel sector 0 len buf ram reads =
      some (false, write ram buf ((env.sectors part.currentDrive sector (sectorsFor len)).take len),
        reads + sectorsFor len) := by
  intro fuel
  induction fuel with
  | zero =>
    intro sector len buf ram reads h
    omega
  | succ fuel ih =>
    intro sector len buf ram reads hfuel
    by_cases hlen : len = 0
    · subst hlen
      simp [rawreadLoop, sectorsFor]
    · have hthis : (if len < 512 then len else 512) = min len 512 := by
        split <;> omega
      have hn : sectorsFor len = sectorsFor (len - min len 512) + 1 := by
        unfold sectorsFor
        omega
      have hl : ((env.sector part.currentDrive sector).val.take (min len 512)).length =
          min len 512 := by
        rw [List.length_take, length_sector]
        omega
      rw [rawreadLoop, if_neg hlen]
      simp only [hthis, ne_eq, not_true_eq_false, if_false, Env.readSector, hok, Bool.false_eq_true]
      rw [ih _ _ _ _ _ (by omega), sectors_step env part.currentDrive sector len hlen, write_append,
        hl, hn]
      congr 3
      omega

theorem length_block (b : UInt32) : (block env part L b).length = 2 ^ (L + 10) := by
  rw [block, length_sectors, show L + 10 = L + 1 + 9 by rfl, Nat.pow_add 2 (L + 1) 9]
  omega

/-- The superblock says that blocks have `2 ^ (L + 10)` bytes. -/
def Sized (L : Nat) (ram : Nat → UInt8) : Prop := (longAt ram (fsysBuf + 24)).toNat = L

/-- Where the inode, and the two blocks behind it, are. -/
def inodeAt (L : Nat) : Nat := fsysBuf + 1024 + 2 ^ (L + 10)

def data1At (L : Nat) : Nat := inodeAt L + 128

def data2At (L : Nat) : Nat := data1At L + 2 ^ (L + 10)

theorem superblock_le (L : Nat) : fsysBuf + 1024 ≤ data1At L :=
  (Nat.le_add_right _ _).trans (Nat.le_add_right _ _)

theorem data1At_le (L : Nat) : data1At L ≤ data2At L := Nat.le_add_right _ _

section
variable {ram : Nat → UInt8} (h : Sized L ram)

include h

theorem Sized.blockSize : blockSize ram = 2 ^ (L + 10) := by
  unfold Grub.blockSize blockSizeBits
  rw [h, Nat.one_shiftLeft]

theorem Sized.addrPerBlock : addrPerBlock ram = 2 ^ (L + 8) := by
  unfold Grub.addrPerBlock
  rw [h.blockSize, show L + 10 = L + 8 + 2 by rfl, Nat.pow_add 2 (L + 8) 2]
  omega

theorem Sized.inode : inode ram = inodeAt L := by
  unfold Grub.inode groupDesc
  rw [h.blockSize]
  rfl

theorem Sized.datablock1 : datablock1 ram = data1At L := by
  unfold Grub.datablock1
  rw [h.inode]
  rfl

theorem Sized.datablock2 : datablock2 ram = data2At L := by
  unfold Grub.datablock2
  rw [h.datablock1, h.blockSize]
  rfl

end

theorem log2_two_pow : ∀ k < 32, log2 (2 ^ k) = k := by
  decide

theorem Sized.addrPerBlockBits {ram : Nat → UInt8} (h : Sized L ram) (hL : L ≤ 6) :
    addrPerBlockBits ram = L + 8 := by
  unfold Grub.addrPerBlockBits
  rw [h.addrPerBlock, log2_two_pow _ (by omega)]

/-- The number that `mapblock2` begins with is that of no block. -/
theorem not_inside_start (hL : L ≤ 6) : ¬ Inside part L 0xffffffff := by
  have hneg : ∀ L < 7, signed (0xffffffff * UInt32.ofNat (2 ^ (L + 1))) < 0 := by decide
  intro h
  exact h (.inl (hneg L (by omega)))

/-- What `ext2_rdfsb` does: it reads a block that the partition has. -/
theorem ext2Rdfsb_eq (hok : ∀ i, env.fails i = false) (h : Sized L g.ram) (b : UInt32) (a : Nat) :
    ext2Rdfsb env part g b a =
      if Inside part L b then
        some (decide (g.errnum = .none),
          { g with ram := write g.ram a (block env part L b), reads := g.reads + 2 ^ (L + 1) })
      else some (false, { g with errnum := .outsidePart }) := by
  have hsize : 2 ^ (L + 10) = 512 * 2 ^ (L + 1) := by
    rw [show L + 10 = 9 + (L + 1) by omega, Nat.pow_add]
  have hsectors : sectorsFor (2 ^ (L + 10)) = 2 ^ (L + 1) := by
    unfold sectorsFor
    omega
  have hpos := Nat.two_pow_pos (L + 1)
  have hdiv : 2 ^ (L + 10) / 512 = 2 ^ (L + 1) := by omega
  have hlast : (0 + 2 ^ (L + 10) - 1) / 512 = 2 ^ (L + 1) - 1 := by omega
  unfold ext2Rdfsb devread
  rw [h.blockSize, hdiv, hlast]
  by_cases hin : Inside part L b
  · have hblock : (env.sectors part.currentDrive (part.partStart + b * UInt32.ofNat (2 ^ (L + 1)))
        (2 ^ (L + 1))).take (2 ^ (L + 10)) = block env part L b :=
      List.take_of_length_le (length_block b).le
    have hzero : UInt32.ofNat 0 = 0 := rfl
    rw [if_pos hin, if_neg hin, rawread]
    simp only [Nat.zero_div, Nat.zero_mod, hzero, UInt32.add_zero]
    rw [rawreadLoop_ok hok _ _ _ _ _ _ (by omega), hsectors, hblock]
    rfl
  · rw [if_neg hin, if_pos (Classical.not_not.1 hin)]

/-- Block `b` has been read to `a`. -/
structure Loaded (env : Env) (part : Part) (L : Nat) (g g' : Globals) (a : Nat) (b : UInt32) :
    Prop where
  bytes : read g'.ram a (2 ^ (L + 10)) = block env part L b
  frame : ∀ i, i < a ∨ a + 2 ^ (L + 10) ≤ i → g'.ram i = g.ram i
  errnum : g'.errnum = g.errnum
  map1 : g'.mapblock1 = g.mapblock1
  map2 : g'.mapblock2 = g.mapblock2

/-- What a read can do that is left out if the block is there. -/
theorem readOrCorrupt_cases (hok : ∀ i, env.fails i = false) (h : Sized L g.ram)
    (herr : g.errnum = .none) {cached : Bool} {a : Nat} {b : UInt32}
    (hcached : cached = true → read g.ram a (2 ^ (L + 10)) = block env part L b)
    (k : Globals → Option (UInt32 × Globals)) :
    (∃ g', Loaded env part L g g' a b ∧ readOrCorrupt env part cached g b a k = k g') ∨
      (¬ Inside part L b ∧ ∃ g', readOrCorrupt env part cached g b a k = some (0xffffffff, g') ∧
        g'.ram = g.ram ∧ g'.errnum ≠ .none) := by
  unfold readOrCorrupt
  cases cached with
  | true => exact .inl ⟨g, ⟨hcached rfl, fun _ _ => rfl, rfl, rfl, rfl⟩, rfl⟩
  | false =>
    rw [if_neg Bool.false_ne_true, ext2Rdfsb_eq hok h]
    by_cases hin : Inside part L b
    · rw [if_pos hin, decide_eq_true herr]
      refine .inl ⟨{ g with ram := write g.ram a (block env part L b), reads := g.reads + 2 ^ (L + 1) },
        ⟨?_, ?_, rfl, rfl, rfl⟩, rfl⟩
      · exact read_write_of_length (length_block b)
      · intro i hi
        apply write_of_outside
        rw [length_block]
        exact hi
    · rw [if_neg hin]
      exact .inr ⟨hin, { g with errnum := .fsysCorrupt }, rfl, rfl, by simp⟩

/-- A pointer of a block in memory. -/
theorem longAt_pointer {ram : Nat → UInt8} {a : Nat} {b : UInt32}
    (h : read ram a (2 ^ (L + 10)) = block env part L b) {i : Nat} (hi : i < 2 ^ (L + 8)) :
    longAt ram (a + 4 * i) = pointer env part L b i := by
  apply longAt_congr
  intro j hj
  have hlt : 4 * i + j < 2 ^ (L + 10) := by
    rw [show L + 10 = 2 + (L + 8) by omega, Nat.pow_add]
    omega
  rw [← h, List.getD_eq_getElem?_getD, getElem?_read _ _ _ _ hlt, Option.getD_some, Nat.add_assoc]

/-! ## One look-up -/

/-- What the two buffers hold as long as there was no error. -/
structure Inv (env : Env) (part : Part) (L : Nat) (g : Globals) : Prop where
  sized : Sized L g.ram
  errnum : g.errnum = .none
  map1 : ∀ i : Nat, 1 ≤ i → i ≤ 3 → g.mapblock1 = i →
    read g.ram (data1At L) (2 ^ (L + 10)) = block env part L (iBlock g.ram (11 + i))
  map2 : g.mapblock2 ≠ 0xffffffff →
    read g.ram (data2At L) (2 ^ (L + 10)) = block env part L g.mapblock2

theorem Sized.congr {ram ram' : Nat → UInt8} (h : Sized L ram)
    (hr : ∀ i < fsysBuf + 1024, ram' i = ram i) : Sized L ram' := by
  unfold Sized
  rw [longAt_congr fun i hi => hr (fsysBuf + 24 + i) (by omega)]
  exact h

theorem iBlock_congr {ram ram' : Nat → UInt8} (h : Sized L ram)
    (hr : ∀ i < data1At L, ram' i = ram i) {i : Nat} (hi : i < 15) : iBlock ram' i = iBlock ram i := by
  have h' : Sized L ram' := h.congr fun j hj => hr j (hj.trans_le (superblock_le L))
  unfold iBlock
  rw [h.inode, h'.inode]
  exact longAt_congr fun j hj => hr _ (by unfold data1At; omega)

variable {g' : Globals} {b : UInt32}

theorem Loaded.below {a : Nat} (hl : Loaded env part L g g' a b) (ha : data1At L ≤ a) :
    ∀ i < data1At L, g'.ram i = g.ram i :=
  fun i hi => hl.frame i (.inl (hi.trans_le ha))

theorem Inv.load1 (h : Inv env part L g) {i : Nat} (hi : i ≤ 3)
    (hl : Loaded env part L g g' (data1At L) (iBlock g.ram (11 + i))) :
    Inv env part L { g' with mapblock1 := i } where
  sized := h.sized.congr fun j hj => hl.below le_rfl j (hj.trans_le (superblock_le L))
  errnum := hl.errnum.trans h.errnum
  map1 := by
    intro j _ hj hij
    have hij : i = j := Int.ofNat.inj hij
    rw [← hij]
    show read g'.ram _ _ = block env part L (iBlock g'.ram _)
    rw [iBlock_congr h.sized (hl.below le_rfl) (Nat.add_lt_add_left (Nat.lt_succ_of_le hi) 11)]
    exact hl.bytes
  map2 := by
    show g'.mapblock2 ≠ _ → read g'.ram _ _ = block env part L g'.mapblock2
    rw [hl.map2]
    intro h2
    rw [← h.map2 h2]
    exact read_congr fun j hj _ => hl.frame j (.inr hj)

theorem Inv.frame2 (h : Inv env part L g) (hl : Loaded env part L g g' (data2At L) b)
    (h2 : ∀ m, m = g'.mapblock2 → m ≠ 0xffffffff →
      read g'.ram (data2At L) (2 ^ (L + 10)) = block env part L m) : Inv env part L g' where
  sized := h.sized.congr fun j hj =>
    hl.below (data1At_le L) j (hj.trans_le (superblock_le L))
  errnum := hl.errnum.trans h.errnum
  map1 := by
    intro j h1 hj hij
    rw [hl.map1] at hij
    rw [iBlock_congr h.sized (hl.below (data1At_le L)) (by omega), ← h.map1 j h1 hj hij]
    exact read_congr fun k _ hk => hl.frame k (.inl hk)
  map2 := h2 _ rfl

/-- The buffers hold what another value of `mapblock2` says. -/
theorem Inv.setMap2 (h : Inv env part L g) {m : UInt32} (hm : m ≠ 0xffffffff →
    read g.ram (data2At L) (2 ^ (L + 10)) = block env part L m) :
    Inv env part L { g with mapblock2 := m } :=
  ⟨h.sized, h.errnum, h.map1, hm⟩

theorem Inv.load2 (h : Inv env part L g) (hl : Loaded env part L g g' (data2At L) b) :
    Inv env part L { g' with mapblock2 := b } := by
  have h' : Inv env part L { g with mapblock2 := 0xffffffff } := h.setMap2 fun hne => absurd rfl hne
  have hl' : Loaded env part L { g with mapblock2 := 0xffffffff }
      { g' with mapblock2 := 0xffffffff } (data2At L) b :=
    ⟨hl.bytes, hl.frame, hl.errnum, hl.map1, rfl⟩
  exact (h'.frame2 hl' fun m hm hne => absurd hm hne).setMap2 fun _ => hl.bytes

/-- It comes back, and with these. -/
def Ends (P : UInt32 → Globals → Prop) (r : Option (UInt32 × Globals)) : Prop :=
  ∃ v g', r = some (v, g') ∧ P v g'

/-- What a look-up of block `n` of the file has to do. -/
structure Looked (env : Env) (part : Part) (L : Nat) (g : Globals) (n : Nat) (v : UInt32)
    (g' : Globals) : Prop where
  frame : ∀ i < data1At L, g'.ram i = g.ram i
  inv : g'.errnum = .none → Inv env part L g'
  found : n < 2 ^ (3 * (L + 8)) → ∀ w, fileBlock env part L g.ram n = some w →
    v = w ∧ g'.errnum = .none

theorem Looked.of_inv {n : Nat} {v : UInt32} (hframe : ∀ i < data1At L, g'.ram i = g.ram i)
    (h : Inv env part L g') (hv : n < 2 ^ (3 * (L + 8)) → ∀ w,
      fileBlock env part L g.ram n = some w → v = w) : Looked env part L g n v g' :=
  ⟨hframe, fun _ => h, fun hn w hw => ⟨hv hn w hw, h.errnum⟩⟩

theorem Looked.corrupt {n : Nat} {v : UInt32} (hframe : ∀ i < data1At L, g'.ram i = g.ram i)
    (herr : g'.errnum ≠ .none)
    (hnone : n < 2 ^ (3 * (L + 8)) → fileBlock env part L g.ram n = none) :
    Looked env part L g n v g' :=
  ⟨hframe, fun h => absurd h herr, fun hn w hw => by rw [hnone hn] at hw; cases hw⟩

theorem Ends.readOrCorrupt (hok : ∀ i, env.fails i = false) (h : Inv env part L g)
    {cached : Bool} {a : Nat} {k : Globals → Option (UInt32 × Globals)}
    {P : UInt32 → Globals → Prop}
    (hcached : cached = true → read g.ram a (2 ^ (L + 10)) = block env part L b)
    (hk : ∀ g', Loaded env part L g g' a b → Ends P (k g'))
    (hout : ¬ Inside part L b → ∀ g', g'.ram = g.ram → g'.errnum ≠ .none → P 0xffffffff g') :
    Ends P (readOrCorrupt env part cached g b a k) := by
  rcases readOrCorrupt_cases hok h.sized h.errnum hcached k with ⟨g', hl, he⟩ | ⟨hb, g', he, hram, herr⟩
  · rw [he]
    exact hk g' hl
  · exact ⟨_, g', he, hout hb g' hram herr⟩

theorem follow_cons {i : Nat} {is : List Nat} {w : UInt32}
    (h : follow env part L b (i :: is) = some w) :
    Inside part L b ∧ follow env part L (pointer env part L b i) is = some w := by
  rw [follow] at h
  by_cases hb : Inside part L b
  · rw [if_pos hb] at h
    exact ⟨hb, h⟩
  · rw [if_neg hb] at h
    cases h

theorem follow_outside {i : Nat} {is : List Nat} (h : ¬ Inside part L b) :
    follow env part L b (i :: is) = none := by
  rw [follow, if_neg h]

section
variable (hok : ∀ i, env.fails i = false) (hL : L ≤ 6) (h : Inv env part L g) {n : Nat}

include hok h

theorem Inv.single (h12 : ¬ n < 12) (hn : n - 12 < 2 ^ (L + 8)) :
    Ends (Looked env part L g n) (ext2fsBlockMap env part g n) := by
  have hfile : fileBlock env part L g.ram n = follow env part L (iBlock g.ram 12) [n - 12] := by
    unfold fileBlock path
    dsimp only
    rw [if_neg h12, if_pos hn]
  unfold ext2fsBlockMap
  dsimp only
  rw [if_neg h12, h.sized.addrPerBlock, if_pos hn, h.sized.datablock1]
  refine Ends.readOrCorrupt hok h (fun hc => h.map1 1 (by omega) (by omega) (of_decide_eq_true hc))
    (fun g₁ hl => ?_) fun hout g' hram herr => ?_
  · have h₁ : Inv env part L { g₁ with mapblock1 := 1 } := h.load1 (i := 1) (by omega) hl
    refine ⟨_, _, rfl, .of_inv (hl.below le_rfl) h₁ fun _ w hw => ?_⟩
    rw [hfile] at hw
    obtain ⟨-, hw⟩ := follow_cons hw
    rw [h₁.sized.datablock1, longAt_pointer hl.bytes hn]
    exact Option.some.inj hw
  · refine .corrupt (fun i _ => by rw [hram]) herr fun _ => ?_
    rw [hfile]
    exact follow_outside hout

include hL

theorem Inv.double (h12 : ¬ n < 12) (h1 : ¬ n - 12 < 2 ^ (L + 8))
    (hn : n - 12 - 2 ^ (L + 8) < (2 ^ (L + 8)) ^ 2) :
    Ends (Looked env part L g n) (ext2fsBlockMap env part g n) := by
  have hfile : fileBlock env part L g.ram n = follow env part L (iBlock g.ram 13)
      [(n - 12 - 2 ^ (L + 8)) / 2 ^ (L + 8), (n - 12 - 2 ^ (L + 8)) % 2 ^ (L + 8)] := by
    unfold fileBlock path
    dsimp only
    rw [if_neg h12, if_neg h1, if_pos hn]
  unfold ext2fsBlockMap
  dsimp only
  rw [if_neg h12, h.sized.addrPerBlock, if_neg h1, h.sized.addrPerBlockBits hL, Nat.one_shiftLeft,
    Nat.pow_mul, if_pos hn, h.sized.datablock1]
  generalize n - 12 - 2 ^ (L + 8) = m at hn hfile
  refine Ends.readOrCorrupt hok h (fun hc => h.map1 2 (by omega) (by omega) (of_decide_eq_true hc))
    (fun g₁ hl => ?_) fun hout g' hram herr => ?_
  · have h₁ : Inv env part L { g₁ with mapblock1 := 2 } := h.load1 (i := 2) (by omega) hl
    have hdiv : m / 2 ^ (L + 8) < 2 ^ (L + 8) := by
      apply Nat.div_lt_of_lt_mul
      rw [← Nat.pow_two]
      exact hn
    have hmod : m % 2 ^ (L + 8) < 2 ^ (L + 8) := Nat.mod_lt _ (Nat.two_pow_pos _)
    rw [h₁.sized.addrPerBlockBits hL, h₁.sized.datablock1, h₁.sized.datablock2,
      Nat.shiftRight_eq_div_pow, longAt_pointer hl.bytes hdiv]
    generalize hb : pointer env part L (iBlock g.ram 13) (m / 2 ^ (L + 8)) = bnum
    have hnone (hout : ¬ Inside part L bnum) : fileBlock env part L g.ram n = none := by
      rw [hfile, follow, hb]
      split
      · exact follow_outside hout
      · rfl
    by_cases hstart : bnum = g₁.mapblock2 ∧ bnum = 0xffffffff
    · -- the second buffer is taken for the block of this number, which does not exist
      obtain ⟨hmap, hff⟩ := hstart
      have h₂ : Inv env part L { { g₁ with mapblock1 := 2 } with mapblock2 := bnum } :=
        h₁.setMap2 fun hne => absurd hff hne
      rw [decide_eq_true hmap]
      refine ⟨_, _, rfl, .of_inv (hl.below le_rfl) h₂ fun _ w hw => ?_⟩
      rw [hnone (hff ▸ not_inside_start hL)] at hw
      cases hw
    · refine Ends.readOrCorrupt hok h₁ (fun hc => ?_) (fun g₂ hl₂ => ?_) fun hout g' hram herr => ?_
      · have hmap := of_decide_eq_true hc
        rw [hmap]
        exact h₁.map2 fun hff => hstart ⟨hmap, hmap.trans hff⟩
      · have h₂ : Inv env part L { g₂ with mapblock2 := bnum } := h₁.load2 hl₂
        refine ⟨_, _, rfl, .of_inv (fun i hi => ?_) h₂ fun _ w hw => ?_⟩
        · exact (hl₂.below (data1At_le L) i hi).trans (hl.below le_rfl i hi)
        · rw [hfile] at hw
          obtain ⟨-, hw⟩ := follow_cons hw
          rw [hb] at hw
          obtain ⟨-, hw⟩ := follow_cons hw
          rw [h₂.sized.datablock2, h₂.sized.addrPerBlock, Nat.and_two_pow_sub_one_eq_mod,
            longAt_pointer hl₂.bytes hmod]
          exact Option.some.inj hw
      · exact .corrupt (fun i hi => by rw [hram]; exact hl.below le_rfl i hi) herr fun _ => hnone hout
  · refine .corrupt (fun i _ => by rw [hram]) herr fun _ => ?_
    rw [hfile]
    exact follow_outside hout

theorem Inv.triple (h12 : ¬ n < 12) (h1 : ¬ n - 12 < 2 ^ (L + 8))
    (h2 : ¬ n - 12 - 2 ^ (L + 8) < (2 ^ (L + 8)) ^ 2) :
    Ends (Looked env part L g n) (ext2fsBlockMap env part g n) := by
  have hfile : fileBlock env part L g.ram n = follow env part L (iBlock g.ram 14)
      [(n - 12 - 2 ^ (L + 8) - (2 ^ (L + 8)) ^ 2) / (2 ^ (L + 8)) ^ 2,
        (n - 12 - 2 ^ (L + 8) - (2 ^ (L + 8)) ^ 2) / 2 ^ (L + 8) % 2 ^ (L + 8),
        (n - 12 - 2 ^ (L + 8) - (2 ^ (L + 8)) ^ 2) % 2 ^ (L + 8)] := by
    unfold fileBlock path
    dsimp only
    rw [if_neg h12, if_neg h1, if_neg h2]
  have hdiv (hn : n < 2 ^ (3 * (L + 8))) :
      (n - 12 - 2 ^ (L + 8) - (2 ^ (L + 8)) ^ 2) / (2 ^ (L + 8)) ^ 2 < 2 ^ (L + 8) := by
    have hcube : 2 ^ (3 * (L + 8)) = (2 ^ (L + 8)) ^ 2 * 2 ^ (L + 8) := by
      rw [← Nat.pow_succ, ← Nat.pow_mul, Nat.mul_comm]
    apply Nat.div_lt_of_lt_mul
    rw [← hcube]
    exact (Nat.sub_le _ _).trans_lt ((Nat.sub_le _ _).trans_lt ((Nat.sub_le _ _).trans_lt hn))
  unfold ext2fsBlockMap
  dsimp only
  rw [if_neg h12, h.sized.addrPerBlock, if_neg h1, h.sized.addrPerBlockBits hL, Nat.one_shiftLeft,
    Nat.pow_mul, if_neg h2, h.sized.datablock1]
  generalize n - 12 - 2 ^ (L + 8) - (2 ^ (L + 8)) ^ 2 = m at hdiv hfile
  have hmod (k : Nat) : k % 2 ^ (L + 8) < 2 ^ (L + 8) := Nat.mod_lt _ (Nat.two_pow_pos _)
  have h₀ : Inv env part L { g with mapblock2 := 0xffffffff } := h.setMap2 fun hne => absurd rfl hne
  refine Ends.readOrCorrupt hok h₀ (fun hc => h₀.map1 3 (by omega) (by omega) (of_decide_eq_true hc))
    (fun g₁ hl => ?_) fun hout g' hram herr => ?_
  · have h₁ : Inv env part L { g₁ with mapblock1 := 3 } := h₀.load1 (i := 3) (by omega) hl
    have hframe₁ := hl.below le_rfl
    rw [h₁.sized.addrPerBlockBits hL, h₁.sized.datablock1, h₁.sized.datablock2,
      Nat.shiftRight_eq_div_pow, Nat.pow_mul]
    have hptr₁ (hn : n < 2 ^ (3 * (L + 8))) := longAt_pointer hl.bytes (hdiv hn)
    generalize longAt g₁.ram (data1At L + 4 * (m / (2 ^ (L + 8)) ^ 2)) = b₁ at hptr₁
    refine Ends.readOrCorrupt hok h₁ (fun hc => absurd hc Bool.false_ne_true)
      (fun g₂ hl₂ => ?_) fun hout g' hram herr => ?_
    · have h₂ : Inv env part L g₂ := h₁.frame2 hl₂ fun k hk hne =>
        absurd (hk.trans (hl₂.map2.trans hl.map2)) hne
      have hframe₂ := fun i hi => (hl₂.below (data1At_le L) i hi).trans (hframe₁ i hi)
      rw [h₂.sized.addrPerBlockBits hL, h₂.sized.addrPerBlock, h₂.sized.datablock2,
        Nat.shiftRight_eq_div_pow, Nat.and_two_pow_sub_one_eq_mod, longAt_pointer hl₂.bytes (hmod _)]
      refine Ends.readOrCorrupt hok h₂ (fun hc => absurd hc Bool.false_ne_true)
        (fun g₃ hl₃ => ?_) fun hout g' hram herr => ?_
      · have h₃ : Inv env part L g₃ := h₂.frame2 hl₃ fun k hk hne =>
          absurd (hk.trans (hl₃.map2.trans (hl₂.map2.trans hl.map2))) hne
        refine ⟨_, _, rfl, .of_inv (fun i hi => ?_) h₃ fun hn w hw => ?_⟩
        · exact (hl₃.below (data1At_le L) i hi).trans (hframe₂ i hi)
        · rw [hfile] at hw
          obtain ⟨-, hw⟩ := follow_cons hw
          rw [← hptr₁ hn] at hw
          obtain ⟨-, hw⟩ := follow_cons hw
          obtain ⟨-, hw⟩ := follow_cons hw
          rw [h₃.sized.datablock2, h₃.sized.addrPerBlock, Nat.and_two_pow_sub_one_eq_mod,
            longAt_pointer hl₃.bytes (hmod _)]
          exact Option.some.inj hw
      · refine .corrupt (fun i hi => by rw [hram]; exact hframe₂ i hi) herr fun hn => ?_
        rw [hfile, follow, ← hptr₁ hn, follow, follow_outside hout, ite_self, ite_self]
    · refine .corrupt (fun i hi => by rw [hram]; exact hframe₁ i hi) herr fun hn => ?_
      rw [hfile, follow, ← hptr₁ hn, follow_outside hout, ite_self]
  · refine .corrupt (fun i _ => by rw [hram]) herr fun _ => ?_
    rw [hfile]
    exact follow_outside hout

/-- One look-up with the buffers is one without. -/
theorem Inv.ext2fsBlockMap : Ends (Looked env part L g n) (ext2fsBlockMap env part g n) := by
  by_cases h12 : n < 12
  · unfold Grub.ext2fsBlockMap
    rw [if_pos h12]
    refine ⟨_, _, rfl, .of_inv (fun _ _ => rfl) h fun _ w hw => ?_⟩
    unfold fileBlock path at hw
    dsimp only at hw
    rw [if_pos h12, follow] at hw
    exact Option.some.inj hw
  · by_cases h1 : n - 12 < 2 ^ (L + 8)
    · exact h.single hok h12 h1
    · by_cases h2 : n - 12 - 2 ^ (L + 8) < (2 ^ (L + 8)) ^ 2
      · exact h.double hok hL h12 h1 h2
      · exact h.triple hok hL h12 h1 h2

end

/-! ## Any look-ups -/

theorem fileBlock_congr {ram ram' : Nat → UInt8} (h : Sized L ram)
    (hr : ∀ i < data1At L, ram' i = ram i) (n : Nat) :
    fileBlock env part L ram' n = fileBlock env part L ram n := by
  have hlt : (path L n).1 < 15 := by
    unfold path
    dsimp only
    split
    · omega
    · split
      · exact by show 12 < 15; decide
      · split
        · exact by show 13 < 15; decide
        · exact by show 14 < 15; decide
  unfold fileBlock
  rw [iBlock_congr h hr hlt]

theorem Inv.blockMaps (hok : ∀ i, env.fails i = false) (hL : L ≤ 6) {ns : List Nat} :
    ∀ {g : Globals} {bs : List UInt32}, Inv env part L g → (∀ n ∈ ns, n < 2 ^ (3 * (L + 8))) →
      ns.map (fileBlock env part L g.ram) = bs.map some →
      ∃ g', blockMaps env part g ns = some (bs, g') ∧ Inv env part L g' := by
  induction ns with
  | nil =>
    intro g bs h hn hb
    obtain rfl : bs = [] := List.map_eq_nil_iff.1 hb.symm
    exact ⟨g, rfl, h⟩
  | cons n ns ih =>
    intro g bs h hn hb
    cases bs with
    | nil => cases hb
    | cons b bs =>
      obtain ⟨hfirst, hrest⟩ := List.cons.inj hb
      obtain ⟨v, g₁, he, hlook⟩ := h.ext2fsBlockMap hok hL (n := n)
      obtain ⟨rfl, herr⟩ := hlook.found (hn n List.mem_cons_self) b hfirst
      have hsame : fileBlock env part L g₁.ram = fileBlock env part L g.ram :=
        funext (fileBlock_congr h.sized hlook.frame)
      obtain ⟨g', he', h'⟩ := ih (hlook.inv herr) (fun m hm => hn m (List.mem_cons_of_mem _ hm))
        (hsame ▸ hrest)
      refine ⟨g', ?_, h'⟩
      rw [Grub.blockMaps, he]
      dsimp only
      rw [he']
      rfl

/-- **Look-ups with the buffers.**  After an inode has been looked up any look-ups,
in any order, give the blocks that its pointers lead to. -/
theorem blockMaps_eq (hok : ∀ i, env.fails i = false) (hL : L ≤ 6) (hs : Sized L g.ram)
    (herr : g.errnum = .none) (h1 : g.mapblock1 = -1) (h2 : g.mapblock2 = 0xffffffff)
    {ns : List Nat} {bs : List UInt32} (hn : ∀ n ∈ ns, n < 2 ^ (3 * (L + 8)))
    (hb : ns.map (fileBlock env part L g.ram) = bs.map some) :
    ∃ g', blockMaps env part g ns = some (bs, g') ∧ g'.errnum = .none := by
  have h : Inv env part L g := by
    refine ⟨hs, herr, fun i hi _ hmap => ?_, fun hne => absurd h2 hne⟩
    rw [h1] at hmap
    omega
  obtain ⟨g', he, h'⟩ := h.blockMaps hok hL hn hb
  exact ⟨g', he, h'.errnum⟩

end

/-- A disk of ones. -/
def onesDisk : Env where
  sector _ _ := ⟨List.replicate 512 1, List.length_replicate⟩
  fails _ := false
  stack _ _ := 0

def onesPart : Part := ⟨0, 0, 0x10000000⟩

/-- An inode with all pointers 0, on a partition with blocks of 1 KiB. -/
def zeroInode : Globals := ⟨fun _ => 0, .none, -1, 0xffffffff, 0⟩

/-- Blocks of all four levels. -/
theorem blockMaps_zeroInode : ∃ g',
    blockMaps onesDisk onesPart zeroInode [13, 5, 70000, 14, 300, 301] =
        some ([0x1010101, 0, 0x1010101, 0x1010101, 0x1010101, 0x1010101], g') ∧
      g'.errnum = .none := by
  have hs : Sized 0 zeroInode.ram := by
    unfold Sized
    decide +kernel
  exact blockMaps_eq (fun _ => rfl) (Nat.zero_le 6) hs rfl rfl rfl (by decide) (by decide +kernel)

end Gentoox.Grub
