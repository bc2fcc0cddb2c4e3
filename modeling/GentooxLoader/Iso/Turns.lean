import GentooxLoader.Base.Loops
import GentooxLoader.Base.Words
import GentooxLoader.Iso.Iso9660

/-!
# `read_dir` turn by turn (fs/cdrom/iso9660.c)

What the record at hand makes of a turn is an `Item`.  Records that are passed
stay in the directory (`Passes`); where one is entered the search starts afresh
in the subdirectory, with the name that led there.

    dirLoop_eq     the loop is these turns
    readDir_some   and `read_dir` the loop from the first record on
    offset_lt      in a directory of at most 2 GiB the offset grows
-/

namespace Gentoox.Iso

open Cells Lib Loops

/-! ## Algorithm -/

/-- Where the search is. -/
structure Scan where
  buffer : Nat → UInt8
  readSize : UInt32
  offset : UInt32
  filename : List UInt8
  newfilename : List UInt8
  reads : Nat

/-- What becomes of the search at a record. -/
inductive Item where
  | last
  | pass (offset : UInt32) (newfilename : List UInt8)
  | overflow
  | found (dir : Record)
  | enter (dir : Record) (newfilename : List UInt8)

namespace Scan

variable (v : Scan)

def dir : Record := fun i => v.buffer (v.offset.toNat + i)

/-- `newfilename`, once it is built; a special record leaves the one before. -/
def name : List UInt8 :=
  if v.dir 33 ≠ 0 ∧ v.dir 33 ≠ 1 then v.filename ++ 0x2f :: iso9660NameTranslate v.dir.name
  else v.newfilename

/-- The path goes on behind this name, and the record is a directory's. -/
def Leads (search : List UInt8) : Prop :=
  v.dir.flags &&& isDir ≠ 0 ∧ v.dir.nameLen > 1 ∧ v.name.length < search.length ∧
    v.name <+: search ∧ search[v.name.length]? = some 0x2f

instance (search : List UInt8) : Decidable (v.Leads search) := inferInstanceAs (Decidable (_ ∧ _))

def item (search : List UInt8) : Item :=
  if v.offset < v.readSize then
    if v.dir 0 = 0 then .pass ((v.offset + 2048) &&& 0xfffff800) v.newfilename
    else if nameBuffer ≤ v.name.length then .overflow
    else if v.name = search then .found (copy (fun _ => 0) 0 v.dir 0 recordSize)
    else if v.Leads search then .enter v.dir v.name
    else .pass (v.offset + (v.dir 0).toUInt32) v.name
  else .last

section
variable {v} {search : List UInt8}

theorem item_last (h : ¬ v.offset < v.readSize) : v.item search = .last := if_neg h

theorem item_padding (hlt : v.offset < v.readSize) (h0 : v.dir 0 = 0) :
    v.item search = .pass ((v.offset + 2048) &&& 0xfffff800) v.newfilename := by
  rw [item, if_pos hlt, if_pos h0]

theorem item_long (hlt : v.offset < v.readSize) (h0 : v.dir 0 ≠ 0) (hlong : nameBuffer ≤ v.name.length) :
    v.item search = .overflow := by
  rw [item, if_pos hlt, if_neg h0, if_pos hlong]

theorem item_found (hlt : v.offset < v.readSize) (h0 : v.dir 0 ≠ 0)
    (hlong : ¬ nameBuffer ≤ v.name.length) (hsame : v.name = search) :
    v.item search = .found (copy (fun _ => 0) 0 v.dir 0 recordSize) := by
  rw [item, if_pos hlt, if_neg h0, if_neg hlong, if_pos hsame]

theorem item_enter (hlt : v.offset < v.readSize) (h0 : v.dir 0 ≠ 0)
    (hlong : ¬ nameBuffer ≤ v.name.length) (hsame : v.name ≠ search) (hleads : v.Leads search) :
    v.item search = .enter v.dir v.name := by
  rw [item, if_pos hlt, if_neg h0, if_neg hlong, if_neg hsame, if_pos hleads]

theorem item_pass (hlt : v.offset < v.readSize) (h0 : v.dir 0 ≠ 0)
    (hlong : ¬ nameBuffer ≤ v.name.length) (hsame : v.name ≠ search) (hleads : ¬ v.Leads search) :
    v.item search = .pass (v.offset + (v.dir 0).toUInt32) v.name := by
  rw [item, if_pos hlt, if_neg h0, if_neg hlong, if_neg hsame, if_neg hleads]

end

/-- The next record in the directory. -/
def next (offset : UInt32) (newfilename : List UInt8) : Scan := { v with offset, newfilename }

end Scan

section
variable (env : Env)

/-- A directory that is read: the search is at its first record. -/
def openDir (dirRead : Record) (filename : List UInt8) (reads : Nat) : Option Scan :=
  (env.malloc reads dirRead.size).map fun buffer =>
    let blocks := readBlocks env (dirRead.size >>> 11).toNat dirRead.extent 0 buffer reads
    ⟨blocks.1, dirRead.size, 0, filename, [], blocks.2⟩

def dirTurn (search : List UInt8) (v : Scan) :
    Option (Turn Scan (Except Fault (Option Record × Nat))) :=
  match v.item search with
  | .last => some (.done (.ok (none, v.reads)))
  | .pass offset newfilename => some (.next (v.next offset newfilename))
  | .overflow => some (.done (.error .overflow))
  | .found dir => some (.done (.ok (some dir, v.reads)))
  | .enter dir newfilename =>
    match openDir env dir newfilename v.reads with
    | none => some (.done (.ok (none, v.reads)))
    | some w => some (.next w)

section
variable {env} {search : List UInt8} {v : Scan}

theorem dirTurn_last (h : v.item search = .last) :
    dirTurn env search v = some (.done (.ok (none, v.reads))) := by
  rw [dirTurn, h]

theorem dirTurn_pass {offset : UInt32} {newfilename : List UInt8}
    (h : v.item search = .pass offset newfilename) :
    dirTurn env search v = some (.next (v.next offset newfilename)) := by
  rw [dirTurn, h]

theorem dirTurn_overflow (h : v.item search = .overflow) :
    dirTurn env search v = some (.done (.error .overflow)) := by
  rw [dirTurn, h]

theorem dirTurn_found {dir : Record} (h : v.item search = .found dir) :
    dirTurn env search v = some (.done (.ok (some dir, v.reads))) := by
  rw [dirTurn, h]

theorem dirTurn_stop {dir : Record} {newfilename : List UInt8}
    (h : v.item search = .enter dir newfilename) (hopen : openDir env dir newfilename v.reads = none) :
    dirTurn env search v = some (.done (.ok (none, v.reads))) := by
  rw [dirTurn, h]
  simp only [hopen]

theorem dirTurn_enter {dir : Record} {newfilename : List UInt8} {w : Scan}
    (h : v.item search = .enter dir newfilename)
    (hopen : openDir env dir newfilename v.reads = some w) :
    dirTurn env search v = some (.next w) := by
  rw [dirTurn, h]
  simp only [hopen]

end

/-! ## The code -/

theorem openDir_some {dirRead : Record} {filename : List UInt8} {reads : Nat} {buffer : Nat → UInt8}
    (h : env.malloc reads dirRead.size = some buffer) : openDir env dirRead filename reads =
      some ⟨(readBlocks env (dirRead.size >>> 11).toNat dirRead.extent 0 buffer reads).1, dirRead.size,
        0, filename, [], (readBlocks env (dirRead.size >>> 11).toNat dirRead.extent 0 buffer reads).2⟩ := by
  rw [openDir, h, Option.map_some]

section
variable {env} {search : List UInt8} {fuel : Nat}

theorem dirLoop_mk (h : ∀ v : Scan, dirLoop env search fuel v.buffer v.readSize v.offset v.filename
      v.newfilename v.reads = (loop (dirTurn env search) fuel v).getD (.error .endless))
    (buffer : Nat → UInt8) (readSize offset : UInt32) (filename newfilename : List UInt8)
    (reads : Nat) : dirLoop env search fuel buffer readSize offset filename newfilename reads =
      (loop (dirTurn env search) fuel
        ⟨buffer, readSize, offset, filename, newfilename, reads⟩).getD (.error .endless) :=
  h ⟨buffer, readSize, offset, filename, newfilename, reads⟩

end

/-- **The loop over the records**, subdirectories and all. -/
theorem dirLoop_eq (search : List UInt8) (fuel : Nat) (v : Scan) :
    dirLoop env search fuel v.buffer v.readSize v.offset v.filename v.newfilename v.reads =
      (loop (dirTurn env search) fuel v).getD (.error .endless) := by
  induction fuel generalizing v with
  | zero => rfl
  | succ fuel ih =>
    rw [dirLoop]
    by_cases hlt : v.offset < v.readSize
    swap
    · rw [if_neg hlt, loop_done (dirTurn_last (v.item_last hlt))]
      rfl
    rw [if_pos hlt]
    by_cases h0 : v.dir 0 = 0
    · rw [loop_next (dirTurn_pass (v.item_padding hlt h0)), ← ih]
      exact if_pos h0
    refine (if_neg h0).trans ?_
    by_cases hlong : nameBuffer ≤ v.name.length
    · rw [loop_done (dirTurn_overflow (v.item_long hlt h0 hlong))]
      exact if_pos hlong
    refine (if_neg hlong).trans ?_
    by_cases hsame : v.name = search
    · rw [loop_done (dirTurn_found (v.item_found hlt h0 hlong hsame))]
      exact if_pos hsame
    refine (if_neg hsame).trans ?_
    by_cases hleads : v.Leads search
    · have hitem := v.item_enter hlt h0 hlong hsame hleads
      refine (if_pos hleads).trans ?_
      cases hmalloc : env.malloc v.reads v.dir.size with
      | none =>
        have hopen : openDir env v.dir v.name v.reads = none := by
          rw [openDir, hmalloc]
          rfl
        rw [loop_done (dirTurn_stop hitem hopen)]
        unfold Scan.dir at hmalloc
        rw [hmalloc]
        rfl
      | some buffer =>
        rw [loop_next (dirTurn_enter hitem (openDir_some env hmalloc)), ← dirLoop_mk ih]
        unfold Scan.dir at hmalloc
        rw [hmalloc]
        unfold Scan.dir
        rfl
    · rw [loop_next (dirTurn_pass (v.item_pass hlt h0 hlong hsame hleads)), ← ih]
      exact if_neg hleads

section
variable {env} {dirRead : Record} {filename : List UInt8} {reads : Nat}

theorem readDir_loop {buffer : Nat → UInt8} (h : env.malloc reads dirRead.size = some buffer)
    (fuel : Nat) (search : List UInt8) : readDir env fuel dirRead search filename reads =
      dirLoop env search fuel (readBlocks env (dirRead.size >>> 11).toNat dirRead.extent 0 buffer reads).1
        dirRead.size 0 filename []
        (readBlocks env (dirRead.size >>> 11).toNat dirRead.extent 0 buffer reads).2 := by
  rw [readDir, h]

theorem readDir_some {v : Scan} (h : openDir env dirRead filename reads = some v) (fuel : Nat)
    (search : List UInt8) : readDir env fuel dirRead search filename reads =
      (loop (dirTurn env search) fuel v).getD (.error .endless) := by
  cases hmalloc : env.malloc reads dirRead.size with
  | none =>
    rw [openDir, hmalloc] at h
    cases h
  | some buffer =>
    rw [openDir_some env hmalloc] at h
    rw [readDir_loop hmalloc, dirLoop_mk (dirLoop_eq env search fuel)]
    exact congrArg (fun v => (loop (dirTurn env search) fuel v).getD (.error .endless)) (Option.some.inj h)

end

end

/-! ## Within a directory -/

namespace Scan

/-- From one record of a directory to another. -/
def Passes (search : List UInt8) : Scan → Scan → Prop :=
  Relation.ReflTransGen fun v w =>
    ∃ offset newfilename, v.item search = .pass offset newfilename ∧ w = v.next offset newfilename

section
variable {search : List UInt8} {v w : Scan}

theorem pass_inv {offset : UInt32} {newfilename : List UInt8}
    (h : v.item search = .pass offset newfilename) : v.offset < v.readSize ∧
      (v.dir 0 = 0 ∧ offset = (v.offset + 2048) &&& 0xfffff800 ∧ newfilename = v.newfilename ∨
        v.dir 0 ≠ 0 ∧ offset = v.offset + (v.dir 0).toUInt32 ∧ newfilename = v.name) := by
  unfold item at h
  split_ifs at h with hlt h0
  · cases h
    exact ⟨hlt, .inl ⟨h0, rfl, rfl⟩⟩
  · cases h
    exact ⟨hlt, .inr ⟨h0, rfl, rfl⟩⟩

theorem enter_inv {dir : Record} {newfilename : List UInt8}
    (h : v.item search = .enter dir newfilename) :
    dir = v.dir ∧ newfilename = v.name ∧ v.Leads search := by
  unfold item at h
  split_ifs at h with _ _ _ _ hleads
  cases h
  exact ⟨rfl, rfl, hleads⟩

/-- In a directory of at most 2 GiB the offset does not wrap around. -/
theorem offset_lt {offset : UInt32} {newfilename : List UInt8}
    (h : v.item search = .pass offset newfilename) (hsize : v.readSize.toNat ≤ 2 ^ 31) :
    v.offset.toNat < offset.toNat := by
  obtain ⟨hlt, ⟨-, rfl, -⟩ | ⟨h0, rfl, -⟩⟩ := pass_inv h
  · have hlt' : v.offset.toNat < v.readSize.toNat := hlt
    rw [Words.and_mask (v.offset + 2048) (k := 11) (by decide) rfl, UInt32.toNat_add]
    show _ < (v.offset.toNat + 2048) % 2 ^ 32 / 2048 * 2048
    omega
  · have hlt' : v.offset.toNat < v.readSize.toNat := hlt
    have hbyte := (v.dir 0).toNat_lt
    have hpos : (v.dir 0).toNat ≠ 0 := fun h => h0 (UInt8.toNat_inj.1 h)
    rw [UInt32.toNat_add, UInt8.toNat_toUInt32]
    omega

end

end Scan

end Gentoox.Iso
