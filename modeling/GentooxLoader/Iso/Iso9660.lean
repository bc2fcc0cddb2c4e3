import GentooxLoader.Base.Cells
import GentooxLoader.Lib.Strings

/-!
# Files on a disc (fs/cdrom/iso9660.c)

`readDir` walks through a directory and into the subdirectory the path goes
through; `readFile` stores the file from a memory address on, in whole blocks.
What the drive answers and what `malloc` gives is an `Env`.

    bootIso9660GetFile_cases   the return value, from the record that is found
    bootIso9660GetFile_first   the first block of the file is what the drive
                               answered for it, whatever the length returned
-/

namespace Gentoox.Iso

open Cells Lib

/-! ## Algorithm -/

structure Env where
  /-- `BootIdeReadSector` for a block after `reads` other calls: the status and
  the bytes stored. -/
  readSector : Nat → UInt32 → Int × List UInt8
  /-- `malloc` after `reads` calls: the memory from the pointer on, or NULL.  Any
  answers; those of the heap, and its 0x100, are in `Host.env` and `Host.place`. -/
  malloc : Nat → UInt32 → Option (Nat → UInt8)

def isoBlockSize : Nat := 2048
def isDir : UInt8 := 2

/-- A record is the memory from its first byte on. -/
abbrev Record := Nat → UInt8

def Record.extent (dir : Record) : UInt32 := longAt dir 2
def Record.size (dir : Record) : UInt32 := longAt dir 10
def Record.flags (dir : Record) : UInt8 := dir 25
def Record.nameLen (dir : Record) : UInt8 := dir 32
def Record.name (dir : Record) : List UInt8 := read dir 33 dir.nameLen.toNat

/-- `sizeof(struct iso_directory_record)` -/
def recordSize : Nat := 33

/-- What is left of the name; its end is `old + len`. -/
def iso9660NameTranslate : List UInt8 → List UInt8
  | [] => []
  | c :: old =>
    if c = 0 then []
    else
      let c := if isupper c.toNat then UInt8.ofNat (tolower c.toNat).toNat else c
      -- drop a trailing ".;1" or ";1"
      if c = 0x2e ∧ old = [0x3b, 0x31] then []
      else if c = 0x3b ∧ old = [0x31] then []
      else (if c = 0x3b then 0x2e else c) :: iso9660NameTranslate old

/-- How a look-up ends without a result: a name is stored past its buffer, or
the fuel runs out. -/
inductive Fault
  | overflow
  | endless

/-- The size of the buffer for `newfilename`. -/
def nameBuffer : Nat := 1024

section
variable (env : Env)

/-- The blocks of a directory, `n` of them from `offset` on. -/
def readBlocks : Nat → UInt32 → Nat → (Nat → UInt8) → Nat → (Nat → UInt8) × Nat
  | 0, _, _, buffer, reads => (buffer, reads)
  | n + 1, offset, i, buffer, reads =>
    readBlocks n (offset + 1) (i + 1)
      (write buffer (i * isoBlockSize) (env.readSector reads offset).2) (reads + 1)

/-- The loop over the records; a subdirectory is one more turn. -/
def dirLoop (search : List UInt8) : Nat → (Nat → UInt8) → UInt32 → UInt32 → List UInt8 →
    List UInt8 → Nat → Except Fault (Option Record × Nat)
  | 0, _, _, _, _, _, _ => .error .endless
  | fuel + 1, buffer, readSize, offset, filename, newfilename, reads =>
    if offset < readSize then
      let dir : Record := fun i => buffer (offset.toNat + i)
      if dir 0 = 0 then
        -- to the next sector
        dirLoop search fuel buffer readSize ((offset + 2048) &&& 0xfffff800) filename newfilename reads
      else
        let newfilename :=
          if dir 33 ≠ 0 ∧ dir 33 ≠ 1 then filename ++ 0x2f :: iso9660NameTranslate dir.name
          else newfilename
        if nameBuffer ≤ newfilename.length then .error .overflow
        else if newfilename = search then .ok (some (copy (fun _ => 0) 0 dir 0 recordSize), reads)
        else if dir.flags &&& isDir ≠ 0 ∧ dir.nameLen > 1 ∧ newfilename.length < search.length ∧
            newfilename <+: search ∧ search[newfilename.length]? = some 0x2f then
          match env.malloc reads dir.size with
          | none => .ok (none, reads)
          | some buffer =>
            let blocks := readBlocks env (dir.size >>> 11).toNat dir.extent 0 buffer reads
            dirLoop search fuel blocks.1 dir.size 0 newfilename [] blocks.2
        else
          dirLoop search fuel buffer readSize (offset + (dir 0).toUInt32) filename newfilename reads
    else .ok (none, reads)

/-- The record found, whose extent is the return value. -/
def readDir (fuel : Nat) (dirRead : Record) (search filename : List UInt8) (reads : Nat) :
    Except Fault (Option Record × Nat) :=
  match env.malloc reads dirRead.size with
  | none => .ok (none, reads)
  | some buffer =>
    let blocks := readBlocks env (dirRead.size >>> 11).toNat dirRead.extent 0 buffer reads
    dirLoop env search fuel blocks.1 dirRead.size 0 filename [] blocks.2

/-- The loop over the blocks of a file; `read_size` bounds the last one. -/
def fileLoop (readSize : UInt32) (buffer : Nat) : Nat → UInt32 → Nat → (Nat → UInt8) → Nat →
    (Nat → UInt8) × Nat
  | 0, _, _, ram, reads => (ram, reads)
  | n + 1, offset, i, ram, reads =>
    let tmpbuff := write (fun _ => 0) 0 (env.readSector reads offset).2
    let len :=
      if UInt32.ofNat ((i + 1) * isoBlockSize) > readSize then
        (UInt32.ofNat (i * isoBlockSize) - readSize).toNat
      else isoBlockSize
    fileLoop readSize buffer n (offset + 1) (i + 1)
      (copy ram (buffer + i * isoBlockSize) tmpbuff 0 len) (reads + 1)

/-- `bytes_read`: for a file that is not shorter the maximum is taken for a
pointer to the length. -/
def bytesRead (size maxBytesToRead : UInt32) (ram : Nat → UInt8) : UInt32 :=
  if maxBytesToRead > size then size else longAt ram maxBytesToRead.toNat

/-- `read_size` in whole blocks, one more than needed if it is such a size already. -/
def rounded (readSize : UInt32) : UInt32 :=
  if readSize ≤ 2048 then 2048 else readSize + (2048 - readSize % 2048)

def readFile (dirRead : Record) (buffer : Nat) (maxBytesToRead : UInt32) (ram : Nat → UInt8)
    (reads : Nat) : UInt32 × (Nat → UInt8) × Nat :=
  let readSize := bytesRead dirRead.size maxBytesToRead ram
  let blocks := rounded readSize
  (readSize, fileLoop env blocks buffer (blocks >>> 11).toNat dirRead.extent 0 ram reads)

/-- `BootIso9660GetFile` as far as the file is found. -/
def lookUp (fuel : Nat) (szcPath : List UInt8) (reads : Nat) : Option (Option Record × Nat) :=
  let (status, data) := env.readSector reads 16
  if status ≠ 0 then some (none, reads + 1)
  else
    let pvd := write (fun _ => 0) 0 data
    match readDir env fuel (fun i => pvd (156 + i)) szcPath [] (reads + 1) with
    | .error _ => none
    | .ok (dir, reads) => some (dir.filter fun dir => dir.extent > 0, reads)

/-- The return value, the memory and the number of sector reads so far. -/
def bootIso9660GetFile (fuel : Nat) (szcPath : List UInt8) (pbaFile : Nat) (dwFileLengthMax : UInt32)
    (ram : Nat → UInt8) (reads : Nat) : Option (Int × (Nat → UInt8) × Nat) :=
  match lookUp env fuel szcPath reads with
  | none => none
  | some (none, reads) => some (-1, ram, reads)
  | some (some dir, reads) =>
    let r := readFile env dir pbaFile dwFileLengthMax ram reads
    some (signed r.1, r.2.1, r.2.2)

end

/-! ## The first block -/

section
variable {env : Env}

/-- A block as the drive gives it, zeros where it gives none. -/
def Env.block (env : Env) (reads : Nat) (offset : UInt32) : Nat → UInt8 :=
  write (fun _ => 0) 0 (env.readSector reads offset).2

/-- Blocks behind the first one leave the memory below them alone. -/
theorem fileLoop_below (readSize : UInt32) (buffer : Nat) {a : Nat} : ∀ (n : Nat) (offset : UInt32)
    (i : Nat) (ram : Nat → UInt8) (reads : Nat), a < buffer + i * isoBlockSize →
    (fileLoop env readSize buffer n offset i ram reads).1 a = ram a := by
  intro n
  induction n with
  | zero =>
    intro offset i ram reads _
    rfl
  | succ n ih =>
    intro offset i ram reads ha
    have hnext : a < buffer + (i + 1) * isoBlockSize := by
      rw [Nat.add_mul]
      omega
    rw [fileLoop, ih _ _ _ _ hnext]
    exact write_of_lt _ _ _ _ ha

theorem fileLoop_first {readSize : UInt32} (hsize : 2048 ≤ readSize) (buffer : Nat) {n : Nat}
    (hn : 0 < n) (offset : UInt32) (ram : Nat → UInt8) (reads : Nat) {i : Nat} (hi : i < 2048) :
    (fileLoop env readSize buffer n offset 0 ram reads).1 (buffer + i) = env.block reads offset i := by
  obtain ⟨n, rfl⟩ : ∃ k, n = k + 1 := ⟨n - 1, by omega⟩
  have hlen : ¬ UInt32.ofNat ((0 + 1) * isoBlockSize) > readSize := UInt32.not_lt.2 hsize
  rw [fileLoop, fileLoop_below _ _ _ _ _ _ _ (by simp only [isoBlockSize]; omega)]
  simp only [if_neg hlen, Nat.zero_mul, Nat.add_zero]
  unfold copy
  rw [write_apply _ _ _ _ (by simp only [length_read, isoBlockSize]; omega), getElem_read,
    Nat.zero_add]
  rfl

/-- The size in whole blocks, for a length that is positive as an `int`. -/
theorem rounded_ge {readSize : UInt32} (h : 0 < signed readSize) : 2048 ≤ rounded readSize := by
  unfold rounded
  split
  · exact UInt32.le_refl _
  · rename_i hbig
    have hbig' : 2048 < readSize.toNat := UInt32.not_le.1 hbig
    have hlt : readSize.toNat < 2 ^ 31 := by
      by_contra hc
      unfold signed at h
      rw [if_neg hc] at h
      have := readSize.toNat_lt
      omega
    have hmod : (readSize % 2048).toNat = readSize.toNat % 2048 := UInt32.toNat_mod ..
    have hsub : (2048 - readSize % 2048).toNat = 2048 - readSize.toNat % 2048 := by
      rw [UInt32.toNat_sub_of_le _ _ (by rw [UInt32.le_iff_toNat_le, hmod]; show _ ≤ 2048; omega), hmod]
      rfl
    rw [UInt32.le_iff_toNat_le, UInt32.toNat_add, hsub]
    show 2048 ≤ _
    omega

theorem blocks_pos {size : UInt32} (h : 2048 ≤ size) : 0 < (size >>> 11).toNat := by
  have h' : 2048 ≤ size.toNat := h
  rw [UInt32.toNat_shiftRight]
  show 0 < size.toNat >>> (11 % 32)
  rw [Nat.shiftRight_eq_div_pow]
  exact Nat.div_pos h' (by decide)

variable {fuel : Nat} {szcPath : List UInt8} {pbaFile : Nat} {max : UInt32} {ram : Nat → UInt8}
  {reads : Nat}

theorem readFile_first {dir : Record} (h : 0 < signed (bytesRead dir.size max ram)) {i : Nat}
    (hi : i < 2048) :
    (readFile env dir pbaFile max ram reads).2.1 (pbaFile + i) = env.block reads dir.extent i := by
  have hround := rounded_ge h
  have hram : (readFile env dir pbaFile max ram reads).2.1 =
      (fileLoop env (rounded (bytesRead dir.size max ram)) pbaFile
        (rounded (bytesRead dir.size max ram) >>> 11).toNat dir.extent 0 ram reads).1 := rfl
  rw [hram]
  exact fileLoop_first hround pbaFile (blocks_pos hround) dir.extent ram reads hi

theorem readFile_bytes (env : Env) (dir : Record) (pbaFile : Nat) (max : UInt32) (ram : Nat → UInt8)
    (reads : Nat) : (readFile env dir pbaFile max ram reads).1 = bytesRead dir.size max ram := rfl

theorem signedFirst_eq (file : UInt32 × (Nat → UInt8) × Nat) {r : Int × (Nat → UInt8) × Nat}
    (h : some (signed file.1, file.2.1, file.2.2) = some r) :
    r.1 = signed file.1 ∧ r.2.1 = file.2.1 := by
  cases h
  exact ⟨rfl, rfl⟩

/-- A call that returns has looked the path up, and returns -1 or the length. -/
theorem bootIso9660GetFile_cases {r : Int × (Nat → UInt8) × Nat}
    (h : bootIso9660GetFile env fuel szcPath pbaFile max ram reads = some r) :
    ∃ reads', lookUp env fuel szcPath reads = some (none, reads') ∧ r.1 = -1 ∨
      ∃ dir, lookUp env fuel szcPath reads = some (some dir, reads') ∧
        r.1 = signed (readFile env dir pbaFile max ram reads').1 ∧
        r.2.1 = (readFile env dir pbaFile max ram reads').2.1 := by
  unfold bootIso9660GetFile at h
  split at h
  · cases h
  · rename_i reads' hlook
    cases h
    exact ⟨reads', .inl ⟨hlook, rfl⟩⟩
  · rename_i dir reads' hlook
    exact ⟨reads', .inr ⟨dir, hlook, signedFirst_eq (readFile env dir pbaFile max ram reads') h⟩⟩

/-- **The first block.**  A call that returns a positive length has found the
file and stored its first block. -/
theorem bootIso9660GetFile_first {r : Int × (Nat → UInt8) × Nat}
    (h : bootIso9660GetFile env fuel szcPath pbaFile max ram reads = some r) (hret : 0 < r.1) :
    ∃ dir reads', lookUp env fuel szcPath reads = some (some dir, reads') ∧
      ∀ i, i < 2048 → r.2.1 (pbaFile + i) = env.block reads' dir.extent i := by
  obtain ⟨reads', ⟨-, hr⟩ | ⟨dir, hlook, hr, hram⟩⟩ := bootIso9660GetFile_cases h
  · omega
  · refine ⟨dir, reads', hlook, fun i hi => ?_⟩
    rw [hram]
    rw [hr, readFile_bytes] at hret
    exact readFile_first hret hi

end

end Gentoox.Iso
