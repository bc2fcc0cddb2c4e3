import GentooxLoader.Heap.Allocator
import GentooxLoader.Iso.ReadFile
import GentooxLoader.Iso.Turns

/-!
# The blocks of a look-up (fs/cdrom/iso9660.c)

`BootIso9660GetFile` with the allocator it uses: a block for the descriptor and
one for the record that is found, two for every directory that is read, and one for
a block of the file.  A directory gives its two back only if the search comes to
the end of its records, and the call its first two only if nothing is found.

    heapGetFile_eq        the call is the one without the allocator
    heapLoop_passes       at the end of a directory its two blocks are freed
    heapLoop_leaks        otherwise the one for the name is out for good
    getFile_balanced_iff  the table is as it was ↔ the descriptor is not read, or
                          the search comes to the end of the root directory and the
                          block for that is cleared whole
-/

namespace Gentoox.Iso

open Cells Lib Loops Heap

/-! ## Algorithm -/

/-- The drive, and what is in the memory that `malloc` gives. -/
structure Host where
  readSector : Nat → UInt32 → Int × List UInt8
  memory : Nat → UInt32 → Nat → UInt8

/-- `malloc` gives no NULL, whatever the heap. -/
def Host.env (b : Host) : Env := ⟨b.readSector, fun reads size => some (b.memory reads size)⟩

/-- `malloc` for a caller that uses `size` bytes.  Where `t_malloc` finds no room,
or `size` wraps around, they are not in a block. -/
def alloc (size : UInt32) (h : Allocator) : Except Fault (UInt32 × Allocator) :=
  if (tMalloc h.manager (request size)).1 ≠ 0 ∧ size.toNat < 2 ^ 32 - 0x200 then .ok (h.malloc size)
  else .error .overflow

/-- The blocks of a directory: the buffer for its sectors and `newfilename`. -/
def dirBlocks (size : UInt32) (h : Allocator) : Except Fault (UInt32 × UInt32 × Allocator) := do
  let (buffer, h) ← alloc size h
  let (newfilename, h) ← alloc 1024 h
  return (buffer, newfilename, h)

section
variable (b : Host)

/-- The first record of a directory. -/
def Host.scan (dirRead : Record) (filename : List UInt8) (reads : Nat) : Scan :=
  let blocks := readBlocks b.env (dirRead.size >>> 11).toNat dirRead.extent 0
    (b.memory reads dirRead.size) reads
  ⟨blocks.1, dirRead.size, 0, filename, [], blocks.2⟩

/-- The loop over the records, with the blocks of the directory at hand. -/
def heapLoop (search : List UInt8) : Nat → Scan → UInt32 → UInt32 → Allocator →
    Except Fault (Option Record × Nat × Allocator)
  | 0, _, _, _, _ => .error .endless
  | fuel + 1, v, buffer, newfilename, h =>
    match v.item search with
    | .last => .ok (none, v.reads, (h.free buffer).free newfilename)
    | .pass offset name => heapLoop search fuel (v.next offset name) buffer newfilename h
    | .overflow => .error .overflow
    | .found dir => .ok (some dir, v.reads, h)
    | .enter dir name => do
      let (buffer, newfilename, h) ← dirBlocks dir.size h
      heapLoop search fuel (b.scan dir name v.reads) buffer newfilename h

def heapReadDir (fuel : Nat) (dirRead : Record) (search filename : List UInt8) (reads : Nat)
    (h : Allocator) : Except Fault (Option Record × Nat × Allocator) := do
  let (buffer, newfilename, h) ← dirBlocks dirRead.size h
  heapLoop b search fuel (b.scan dirRead filename reads) buffer newfilename h

/-- The record of the root directory in the descriptor. -/
def Host.root (reads : Nat) : Record := fun i =>
  write (fun _ => 0) 0 (b.readSector reads 16).2 (156 + i)

/-- What is returned, the memory of the caller, and the allocator. -/
def heapGetFile (fuel : Nat) (szcPath : List UInt8) (pbaFile : Nat) (max : UInt32)
    (ram : Nat → UInt8) (reads : Nat) (h : Allocator) :
    Except Fault (Int × (Nat → UInt8) × Allocator) := do
  let (pvd, h) ← alloc 2048 h
  let (dir, h) ← alloc 33 h
  if (b.readSector reads 16).1 ≠ 0 then
    return (-1, ram, (h.free pvd).free dir)
  else
    let (found, reads, h) ← heapReadDir b fuel (b.root reads) szcPath [] (reads + 1) h
    match found.filter fun dir => dir.extent > 0 with
    | none => return (-1, ram, (h.free pvd).free dir)
    | some found =>
      let (tmpbuff, h) ← alloc 2048 h
      let file := readFile b.env found pbaFile max ram reads
      return (signed file.1, file.2.1, h.free tmpbuff)

end

/-! ## Blocks -/

theorem bind_ok {α β : Type} {x : Except Fault α} {f : α → Except Fault β} {r : β} :
    x >>= f = .ok r ↔ ∃ a, x = .ok a ∧ f a = .ok r := by
  cases x with
  | error e => exact iff_of_false (by rintro ⟨⟩) (by rintro ⟨a, ⟨⟩, -⟩)
  | ok a =>
    constructor
    · exact fun h => ⟨a, rfl, h⟩
    · rintro ⟨a', h, hr⟩
      cases h
      exact hr

section
variable {size : UInt32} {h h' : Allocator} {ptr : UInt32}

theorem alloc_eq (ha : alloc size h = .ok (ptr, h')) : (ptr, h') = h.malloc size := by
  unfold alloc at ha
  split_ifs at ha
  exact (Except.ok.inj ha).symm

theorem alloc_gives (ha : alloc size h = .ok (ptr, h')) : ∃ c, h.Gives size ptr c h' := by
  have heq := alloc_eq ha
  unfold alloc at ha
  split_ifs at ha with hroom
  obtain ⟨c, hc⟩ := h.malloc_gives hroom.1 hroom.2
  rw [← heq] at hc
  exact ⟨c, hc⟩

theorem dirBlocks_ok {buffer newfilename : UInt32}
    (hd : dirBlocks size h = .ok (buffer, newfilename, h')) : ∃ h₁,
      alloc size h = .ok (buffer, h₁) ∧ alloc 1024 h₁ = .ok (newfilename, h') := by
  obtain ⟨⟨p, h₁⟩, h1, hd⟩ := bind_ok.1 hd
  obtain ⟨⟨q, h₂⟩, h2, hd⟩ := bind_ok.1 hd
  cases hd
  exact ⟨h₁, h1, h2⟩

/-- The two blocks of a directory have nothing in common, and nothing of another block. -/
structure Level (h : Allocator) (buffer newfilename : UInt32) (size : UInt32) (c d : Nat) : Prop where
  buffer : h.Out buffer c size
  name : h.Out newfilename d 1024
  apart : Allocator.Apart c (clusters (request size)) d 1

/-- A block that is neither of the two. -/
def Beside (ptr : UInt32) (h : Allocator) (a : Nat) (s : UInt32) (size : UInt32) (c d : Nat) : Prop :=
  h.Out ptr a s ∧ Allocator.Apart a (clusters (request s)) c (clusters (request size)) ∧
    Allocator.Apart a (clusters (request s)) d 1

theorem dirBlocks_level {buffer newfilename : UInt32}
    (hd : dirBlocks size h = .ok (buffer, newfilename, h')) : ∃ c d,
      Level h' buffer newfilename size c d ∧
        ∀ ptr a s, h.Out ptr a s → Beside ptr h' a s size c d := by
  obtain ⟨h₁, h1, h2⟩ := dirBlocks_ok hd
  obtain ⟨c, hc⟩ := alloc_gives h1
  obtain ⟨d, hd⟩ := alloc_gives h2
  obtain ⟨hbuffer, hapart⟩ := hd.keeps hc.out
  refine ⟨c, d, ⟨hbuffer, hd.out, hapart⟩, fun ptr a s ho => ?_⟩
  obtain ⟨ho1, hac⟩ := hc.keeps ho
  obtain ⟨ho2, had⟩ := hd.keeps ho1
  exact ⟨ho2, hac, had⟩

end

/-! ## Two blocks are given back -/

section
variable {h : Allocator} {p q ptr : UInt32} {c d a : Nat} {m n s : UInt32} {t : Nat → UInt8}
  {held : Set Nat}

theorem free_two (hp : h.Out p c m) (hq : h.Out q d n)
    (hapart : Allocator.Apart c (clusters (request m)) d (clusters (request n)))
    (hheld : Held t h.table held) (hc : Set.Ico c (c + clusters (request m)) ⊆ held)
    (hd : Set.Ico d (d + clusters (request n)) ⊆ held) : Held t ((h.free p).free q).table
      ((held \ Set.Ico c (c + cleared c (request m))) \ Set.Ico d (d + cleared d (request n))) := by
  refine (hq.free_other hp hapart.symm).held (hp.held hheld hc) fun i hi => ⟨hd hi, fun hi' => ?_⟩
  have hle := cleared_le c (request m)
  rw [Set.mem_Ico] at hi hi'
  unfold Allocator.Apart at hapart
  omega

theorem free_two_other (ho : h.Out ptr a s) (hp : h.Out p c m) (hq : h.Out q d n)
    (hpq : Allocator.Apart c (clusters (request m)) d (clusters (request n)))
    (hop : Allocator.Apart a (clusters (request s)) c (clusters (request m)))
    (hoq : Allocator.Apart a (clusters (request s)) d (clusters (request n))) :
    ((h.free p).free q).Out ptr a s :=
  (ho.free_other hp hop).free_other (hq.free_other hp hpq.symm) hoq

end

/-! ## The loop -/

section
variable {b : Host} {search : List UInt8} {fuel : Nat} {v w : Scan} {buffer newfilename : UInt32}
  {h : Allocator} {size : UInt32} {c d : Nat}

theorem openDir_scan (b : Host) (dir : Record) (filename : List UInt8) (reads : Nat) :
    openDir b.env dir filename reads = some (b.scan dir filename reads) := by
  unfold Host.scan
  exact openDir_some b.env rfl

/-- Without the blocks it is the loop of `read_dir`. -/
theorem heapLoop_eq {r : Option Record × Nat × Allocator}
    (hr : heapLoop b search fuel v buffer newfilename h = .ok r) :
    loop (dirTurn b.env search) fuel v = some (.ok (r.1, r.2.1)) := by
  induction fuel generalizing v buffer newfilename h with
  | zero => cases hr
  | succ fuel ih =>
    rw [heapLoop] at hr
    cases hitem : v.item search with
    | last =>
      rw [hitem] at hr
      cases hr
      exact loop_done (dirTurn_last hitem) fuel
    | pass offset name =>
      rw [hitem] at hr
      rw [loop_next (dirTurn_pass hitem)]
      exact ih hr
    | overflow =>
      rw [hitem] at hr
      cases hr
    | found dir =>
      rw [hitem] at hr
      cases hr
      exact loop_done (dirTurn_found hitem) fuel
    | enter dir name =>
      rw [hitem] at hr
      obtain ⟨blocks, -, hr⟩ := bind_ok.1 hr
      rw [loop_next (dirTurn_enter hitem (openDir_scan b dir name v.reads))]
      exact ih hr

/-- **At the end of a directory** its two blocks are freed. -/
theorem heapLoop_passes (hpass : v.Passes search w) (hlast : w.item search = .last)
    {r : Option Record × Nat × Allocator}
    (hr : heapLoop b search fuel v buffer newfilename h = .ok r) :
    r.1 = none ∧ r.2.2 = (h.free buffer).free newfilename := by
  induction hpass using Relation.ReflTransGen.head_induction_on generalizing fuel with
  | refl =>
    cases fuel with
    | zero => cases hr
    | succ fuel =>
      rw [heapLoop, hlast] at hr
      cases hr
      exact ⟨rfl, rfl⟩
  | head hstep _ ih =>
    obtain ⟨offset, name, hitem, rfl⟩ := hstep
    cases fuel with
    | zero => cases hr
    | succ fuel =>
      rw [heapLoop, hitem] at hr
      exact ih hr

/-- Blocks beside those of the directory stay out. -/
theorem heapLoop_keeps (hl : Level h buffer newfilename size c d) {r : Option Record × Nat × Allocator}
    (hr : heapLoop b search fuel v buffer newfilename h = .ok r) {ptr : UInt32} {a : Nat} {s : UInt32}
    (ho : Beside ptr h a s size c d) : r.2.2.Out ptr a s := by
  induction fuel generalizing v buffer newfilename h size c d with
  | zero => cases hr
  | succ fuel ih =>
    rw [heapLoop] at hr
    cases hitem : v.item search with
    | last =>
      rw [hitem] at hr
      cases hr
      exact free_two_other ho.1 hl.buffer hl.name hl.apart ho.2.1 ho.2.2
    | pass offset name =>
      rw [hitem] at hr
      exact ih hl hr ho
    | overflow =>
      rw [hitem] at hr
      cases hr
    | found dir =>
      rw [hitem] at hr
      cases hr
      exact ho.1
    | enter dir name =>
      rw [hitem] at hr
      obtain ⟨⟨p, q, h'⟩, hblocks, hr⟩ := bind_ok.1 hr
      obtain ⟨c', d', hl', hkeeps⟩ := dirBlocks_level hblocks
      exact ih hl' hr (hkeeps _ _ _ ho.1)

/-- **A search that does not come to the end** of the directory leaves its block for
the name. -/
theorem heapLoop_leaks (hl : Level h buffer newfilename size c d)
    (hpass : ¬ ∃ w, v.Passes search w ∧ w.item search = .last) {r : Option Record × Nat × Allocator}
    (hr : heapLoop b search fuel v buffer newfilename h = .ok r) : r.2.2.Out newfilename d 1024 := by
  induction fuel generalizing v with
  | zero => cases hr
  | succ fuel ih =>
    rw [heapLoop] at hr
    cases hitem : v.item search with
    | last => exact absurd ⟨v, .refl, hitem⟩ hpass
    | pass offset name =>
      rw [hitem] at hr
      refine ih ?_ hr
      rintro ⟨w, hw, hlast⟩
      exact hpass ⟨w, .head ⟨offset, name, hitem, rfl⟩ hw, hlast⟩
    | overflow =>
      rw [hitem] at hr
      cases hr
    | found dir =>
      rw [hitem] at hr
      cases hr
      exact hl.name
    | enter dir name =>
      rw [hitem] at hr
      obtain ⟨⟨p, q, h'⟩, hblocks, hr⟩ := bind_ok.1 hr
      obtain ⟨c', d', hl', hkeeps⟩ := dirBlocks_level hblocks
      exact heapLoop_keeps hl' hr (hkeeps _ _ _ hl.name)

end

/-! ## The call -/

section
variable {b : Host} {fuel : Nat} {path : List UInt8} {pbaFile : Nat} {max : UInt32}
  {ram : Nat → UInt8} {reads : Nat} {h : Allocator}

/-- How a call goes that does not leave its blocks. -/
theorem getFile_cases {r : Int × (Nat → UInt8) × Allocator}
    (hr : heapGetFile b fuel path pbaFile max ram reads h = .ok r) : ∃ pvd h₁ dir h₂,
      alloc 2048 h = .ok (pvd, h₁) ∧ alloc 33 h₁ = .ok (dir, h₂) ∧
      ((b.readSector reads 16).1 ≠ 0 ∧ r = (-1, ram, (h₂.free pvd).free dir) ∨
        (b.readSector reads 16).1 = 0 ∧ ∃ found,
          heapReadDir b fuel (b.root reads) path [] (reads + 1) h₂ = .ok found ∧
          (found.1.filter (fun dir => dir.extent > 0) = none ∧
              r = (-1, ram, (found.2.2.free pvd).free dir) ∨
            ∃ dir tmpbuff h₄, found.1.filter (fun dir => dir.extent > 0) = some dir ∧
              alloc 2048 found.2.2 = .ok (tmpbuff, h₄) ∧
              r = (signed (readFile b.env dir pbaFile max ram found.2.1).1,
                (readFile b.env dir pbaFile max ram found.2.1).2.1, h₄.free tmpbuff))) := by
  obtain ⟨⟨pvd, h₁⟩, h1, hr⟩ := bind_ok.1 hr
  obtain ⟨⟨dir, h₂⟩, h2, hr⟩ := bind_ok.1 hr
  refine ⟨pvd, h₁, dir, h₂, h1, h2, ?_⟩
  simp only at hr
  by_cases hstatus : (b.readSector reads 16).1 ≠ 0
  · rw [if_pos hstatus] at hr
    cases hr
    exact .inl ⟨hstatus, rfl⟩
  rw [if_neg hstatus] at hr
  obtain ⟨⟨found, reads', h₃⟩, h3, hr⟩ := bind_ok.1 hr
  refine .inr ⟨not_not.1 hstatus, ⟨found, reads', h₃⟩, h3, ?_⟩
  simp only at hr ⊢
  cases hfound : found.filter fun dir => dir.extent > 0 with
  | none =>
    rw [hfound] at hr
    cases hr
    exact .inl ⟨rfl, rfl⟩
  | some dirFound =>
    rw [hfound] at hr
    obtain ⟨⟨tmpbuff, h₄⟩, h4, hr⟩ := bind_ok.1 hr
    refine .inr ⟨dirFound, tmpbuff, h₄, rfl, h4, ?_⟩
    exact (Except.ok.inj hr).symm

theorem readDir_ok {dirRead : Record} {filename : List UInt8} {found : Option Record × Nat × Allocator}
    (hr : heapReadDir b fuel dirRead path filename reads h = .ok found) :
    readDir b.env fuel dirRead path filename reads = .ok (found.1, found.2.1) := by
  obtain ⟨blocks, -, hr⟩ := bind_ok.1 hr
  rw [readDir_some (openDir_scan b dirRead filename reads), heapLoop_eq hr]
  rfl

theorem lookUp_unread (h : (b.readSector reads 16).1 ≠ 0) :
    lookUp b.env fuel path reads = some (none, reads + 1) := if_pos h

theorem lookUp_read (h : (b.readSector reads 16).1 = 0) {dir : Option Record} {reads' : Nat}
    (hr : readDir b.env fuel (b.root reads) path [] (reads + 1) = .ok (dir, reads')) :
    lookUp b.env fuel path reads = some (dir.filter fun dir => dir.extent > 0, reads') := by
  have hread : b.env.readSector reads 16 = ((b.readSector reads 16).1, (b.readSector reads 16).2) :=
    rfl
  unfold Host.root at hr
  unfold lookUp
  rw [hread, h]
  simp only [ne_eq, not_true_eq_false, if_false, hr]

theorem some_firsts {α β γ : Type} {r : α × β × γ} {x : α} {y : β} {z : γ} (h : r = (x, y, z)) :
    some (x, y) = some (r.1, r.2.1) := by
  rw [h]

/-- **The call is the one without the allocator.** -/
theorem heapGetFile_eq {r : Int × (Nat → UInt8) × Allocator}
    (hr : heapGetFile b fuel path pbaFile max ram reads h = .ok r) :
    (bootIso9660GetFile b.env fuel path pbaFile max ram reads).map (fun r => (r.1, r.2.1)) =
      some (r.1, r.2.1) := by
  obtain ⟨pvd, h₁, dir, h₂, -, -, ⟨hstatus, hr⟩ | ⟨hstatus, found, hfound, hend⟩⟩ := getFile_cases hr
  · exact (call_none (lookUp_unread hstatus)).trans (some_firsts hr)
  have hlook := lookUp_read hstatus (readDir_ok hfound)
  rcases hend with ⟨hnone, hr⟩ | ⟨dirFound, tmpbuff, h₄, hsome, -, hr⟩
  · rw [hnone] at hlook
    exact (call_none hlook).trans (some_firsts hr)
  · rw [hsome] at hlook
    rw [readFile_bytes] at hr
    exact (call_some hlook).trans (some_firsts hr)

end

/-- A block of one cluster. -/
theorem cleared_one (size : UInt32) (h : request size ≤ 0x4000) (c : Nat) :
    clusters (request size) = 1 ∧ cleared c (request size) = 1 := by
  have hsmall : request size < 0x4000 + 1 := (lt_small_iff _).2 h
  have hmedium : request size < 0x10000 + 1 := by
    rw [lt_medium_iff]
    exact Nat.le_trans h (by decide)
  have hone : clusters (request size) = 1 := if_pos hsmall
  exact ⟨hone, (if_pos hmedium).trans hone⟩

/-! ## Top theorem -/

/-- The search comes to the end of the root directory: it finds nothing there, and
enters nothing. -/
def RootPasses (b : Host) (path : List UInt8) (reads : Nat) : Prop :=
  ∃ w, (b.scan (b.root reads) [] (reads + 1)).Passes path w ∧ w.item path = .last

/-- A block of up to 64 KiB, or one that has not five clusters and does not end
behind the table. -/
def WholeAt (c : Nat) (request : UInt32) : Prop :=
  request ≤ 0x10000 ∨ clusters request ≠ 5 ∧ c + clusters request ≤ 0x401

/-- The block for `size` bytes that `malloc` gives behind the first two is one that
`free` clears whole. -/
def ClearedWhole (h : Allocator) (size : UInt32) : Prop :=
  ∀ c, firstFree ((h.malloc 2048).2.malloc 33).2.table (clusters (request size)) = some c →
    WholeAt c (request size)

section
variable {b : Host} {fuel : Nat} {path : List UInt8} {reads : Nat} {h h₁ h₂ h₃ : Allocator}
  {pvd dir : UInt32}

/-- What the call holds once it has its first two blocks. -/
structure Opened (h h₂ : Allocator) (pvd dir : UInt32) (c d : Nat) : Prop where
  pvd : h₂.Out pvd c 2048
  dir : h₂.Out dir d 33
  apart : Allocator.Apart c 1 d 1
  held : Held h.table h₂.table (Set.Ico c (c + 1) ∪ Set.Ico d (d + 1))

theorem opened (h1 : alloc 2048 h = .ok (pvd, h₁)) (h2 : alloc 33 h₁ = .ok (dir, h₂)) :
    ∃ c d, Opened h h₂ pvd dir c d := by
  obtain ⟨c, hc⟩ := alloc_gives h1
  obtain ⟨d, hd⟩ := alloc_gives h2
  obtain ⟨hpvd, hapart⟩ := hd.keeps hc.out
  have hheld := hd.held (hc.held (.refl h.table))
  rw [Set.empty_union] at hheld
  exact ⟨c, d, hpvd, hd.out, hapart, hheld⟩

/-- They are freed. -/
theorem Opened.closed {c d : Nat} (ho : Opened h h₂ pvd dir c d) :
    ((h₂.free pvd).free dir).table = h.table := by
  have hheld := free_two ho.pvd ho.dir ho.apart ho.held (Set.subset_union_left) Set.subset_union_right
  rw [hheld.eq_iff, (cleared_one 2048 (by decide) c).2,
    (cleared_one 33 (by decide) d).2, Set.union_sdiff_left, Set.sdiff_sdiff]
  exact Set.sdiff_eq_empty.2 Set.subset_union_right

/-- A search that comes to the end of the root directory gives back what is cleared. -/
theorem passes_restores {c d : Nat} (ho : Opened h h₂ pvd dir c d) (hpass : RootPasses b path reads)
    {found : Option Record × Nat × Allocator}
    (hr : heapReadDir b fuel (b.root reads) path [] (reads + 1) h₂ = .ok found) : found.1 = none ∧
      (((found.2.2.free pvd).free dir).table = h.table ↔ ∀ e,
        firstFree h₂.table (clusters (request (b.root reads).size)) = some e →
          WholeAt e (request (b.root reads).size)) := by
  obtain ⟨w, hw, hlast⟩ := hpass
  obtain ⟨⟨buffer, newfilename, h₄⟩, hblocks, hr⟩ := bind_ok.1 hr
  obtain ⟨hnone, hfree⟩ := heapLoop_passes hw hlast hr
  refine ⟨hnone, ?_⟩
  obtain ⟨h₃, h3, h4⟩ := dirBlocks_ok hblocks
  obtain ⟨e, he⟩ := alloc_gives h3
  obtain ⟨f, hf⟩ := alloc_gives h4
  obtain ⟨hbuffer, hef⟩ := hf.keeps he.out
  obtain ⟨hpvd, hce⟩ := he.keeps ho.pvd
  obtain ⟨hdir, hde⟩ := he.keeps ho.dir
  obtain ⟨hpvd, hcf⟩ := hf.keeps hpvd
  obtain ⟨hdir, hdf⟩ := hf.keeps hdir
  have hheld := hf.held (he.held ho.held)
  have hheld := free_two hbuffer hf.out hef hheld
    (Set.subset_union_right.trans Set.subset_union_left) Set.subset_union_right
  have hpvd' := free_two_other hpvd hbuffer hf.out hef hce hcf
  have hdir' := free_two_other hdir hbuffer hf.out hef hde hdf
  have hle := cleared_le e (request (b.root reads).size)
  have hapart := ho.apart
  rw [(cleared_one 1024 (by decide) f).1, (cleared_one 1024 (by decide) f).2] at hheld
  rw [(cleared_one 1024 (by decide) f).1] at hcf hdf hef
  rw [(cleared_one 2048 (by decide) c).1] at hce hcf
  rw [(cleared_one 33 (by decide) d).1] at hde hdf
  unfold Allocator.Apart at hapart hce hde hcf hdf hef
  have hheld := free_two hpvd' hdir' ho.apart hheld
    (fun i hi => by
      rw [(cleared_one 2048 (by decide) c).1] at hi
      simp only [Set.mem_sdiff, Set.mem_union, Set.mem_Ico] at hi ⊢
      omega)
    (fun i hi => by
      rw [(cleared_one 33 (by decide) d).1] at hi
      simp only [Set.mem_sdiff, Set.mem_union, Set.mem_Ico] at hi ⊢
      omega)
  rw [hfree, hheld.eq_iff, Set.eq_empty_iff_forall_notMem, (cleared_one 2048 (by decide) c).2,
    (cleared_one 33 (by decide) d).2, he.first]
  unfold WholeAt
  simp only [Option.some.injEq, forall_eq']
  rw [← cleared_whole_iff he.out.first he.out.size_le]
  -- what is left is the part of the buffer's block that is not cleared
  simp only [Set.mem_sdiff, Set.mem_union, Set.mem_Ico]
  constructor
  · intro hempty
    by_contra hpart
    exact hempty (e + cleared e (request (b.root reads).size)) (by omega)
  · intro hwhole i hi
    omega

/-- Any other search leaves a block that was free before. -/
theorem leaves_name {c d : Nat} (ho : Opened h h₂ pvd dir c d) (hpass : ¬ RootPasses b path reads)
    {found : Option Record × Nat × Allocator}
    (hr : heapReadDir b fuel (b.root reads) path [] (reads + 1) h₂ = .ok found) :
    ∃ newfilename f, h.table f = 0 ∧ found.2.2.Out newfilename f 1024 ∧
      found.2.2.Out pvd c 2048 ∧ found.2.2.Out dir d 33 ∧
      Allocator.Apart f 1 c 1 ∧ Allocator.Apart f 1 d 1 := by
  obtain ⟨⟨buffer, newfilename, h₄⟩, hblocks, hr⟩ := bind_ok.1 hr
  obtain ⟨h₃, h3, h4⟩ := dirBlocks_ok hblocks
  obtain ⟨e, he⟩ := alloc_gives h3
  obtain ⟨f, hf⟩ := alloc_gives h4
  obtain ⟨hbuffer, hef⟩ := hf.keeps he.out
  obtain ⟨hpvd, hce⟩ := he.keeps ho.pvd
  obtain ⟨hdir, hde⟩ := he.keeps ho.dir
  obtain ⟨hpvd, hcf⟩ := hf.keeps hpvd
  obtain ⟨hdir, hdf⟩ := hf.keeps hdir
  have hlevel : Level h₄ buffer newfilename (b.root reads).size e f := ⟨hbuffer, hf.out, hef⟩
  have hzero : h₃.table f = 0 := ((firstFree_eq_some _ _ _).1 hf.first).1 0 hf.out.pos
  exact ⟨newfilename, f, ((he.held ho.held).free_before hzero).1, heapLoop_leaks hlevel hpass hr,
    heapLoop_keeps hlevel hr ⟨hpvd, hce, hcf⟩, heapLoop_keeps hlevel hr ⟨hdir, hde, hdf⟩,
    hcf.symm, hdf.symm⟩

theorem balanced_iff {pbaFile : Nat} {max : UInt32} {ram : Nat → UInt8}
    {r : Int × (Nat → UInt8) × Allocator}
    (hr : heapGetFile b fuel path pbaFile max ram reads h = .ok r) : r.2.2.table = h.table ↔
      (b.readSector reads 16).1 ≠ 0 ∨
        RootPasses b path reads ∧ ClearedWhole h (b.root reads).size := by
  obtain ⟨pvd, h₁, dir, h₂, h1, h2, ⟨hstatus, hr⟩ | ⟨hstatus, found, hfound, hend⟩⟩ :=
    getFile_cases hr
  · obtain ⟨c, d, ho⟩ := opened h1 h2
    rw [hr]
    exact iff_of_true ho.closed (.inl hstatus)
  obtain ⟨c, d, ho⟩ := opened h1 h2
  rw [or_iff_right (not_not.2 hstatus)]
  by_cases hpass : RootPasses b path reads
  · obtain ⟨hnone, hrestores⟩ := passes_restores ho hpass hfound
    rw [hnone] at hend
    rcases hend with ⟨-, hr⟩ | ⟨dirFound, tmpbuff, h₄, hsome, -, -⟩
    · have hheap : ((h.malloc 2048).2.malloc 33).2 = h₂ := by
        rw [← congrArg Prod.snd (alloc_eq h1), ← congrArg Prod.snd (alloc_eq h2)]
      rw [hr, hrestores, and_iff_right hpass, ClearedWhole, hheap]
    · cases hsome
  · -- the block for the name is out
    obtain ⟨newfilename, f, hfree, hname, hpvd, hdir, hcf, hdf⟩ := leaves_name ho hpass hfound
    have hout : r.2.2.Out newfilename f 1024 := by
      rcases hend with ⟨-, hr⟩ | ⟨dirFound, tmpbuff, h₄, -, h4, hr⟩
      · rw [hr]
        exact free_two_other hname hpvd hdir ho.apart hcf hdf
      · obtain ⟨g, hg⟩ := alloc_gives h4
        obtain ⟨hname', hfg⟩ := hg.keeps hname
        rw [hr]
        exact hname'.free_other hg.out hfg
    refine iff_of_false (fun htable => ?_) fun h => hpass h.1
    have hne := hout.table_ne_zero (Nat.le_refl f) (Nat.lt_add_of_pos_right hout.pos)
    rw [htable] at hne
    exact hne hfree

end

/-- **The balance of a call.**  The table is as it was exactly when the descriptor is
not read, or the search comes to the end of the root directory and the block for its
sectors is cleared whole: the blocks of a directory are lost where something in it
is found or entered. -/
theorem getFile_balanced_iff (b : Host) (fuel : Nat) (path : List UInt8) (pbaFile : Nat)
    (max : UInt32) (ram : Nat → UInt8) (reads : Nat) (h : Allocator)
    (r : Int × (Nat → UInt8) × Allocator)
    (hr : heapGetFile b fuel path pbaFile max ram reads h = .ok r) : r.2.2.table = h.table ↔
      (b.readSector reads 16).1 ≠ 0 ∨
        RootPasses b path reads ∧ ClearedWhole h (b.root reads).size :=
  balanced_iff hr

/-- The disc with the file "/c". -/
def fileHost : Host := ⟨fun _ block => (0, fileDisc block), fun _ _ _ => 0⟩

/-- A heap nothing has been taken from. -/
def freshHeap : Allocator := ⟨(start fun _ => 0).manager, fun _ => 0, rfl⟩

theorem root_passes_d : RootPasses fileHost (chars ['/', 'd']) 0 := by
  -- one record, and the zeros behind it
  refine ⟨_, .head ⟨_, _, Scan.item_pass ?_ ?_ ?_ ?_ ?_, rfl⟩
    (.head ⟨_, _, Scan.item_padding ?_ ?_, rfl⟩ .refl), Scan.item_last ?_⟩
  all_goals decide +kernel

/-- The file "/d" is not there. -/
theorem getFile_balanced_iff_d : ∃ r,
    heapGetFile fileHost 3 (chars ['/', 'd']) 0 16 (fun _ => 0) 0 freshHeap = .ok r ∧
      r.2.2.table = freshHeap.table := by
  have hok : (heapGetFile fileHost 3 (chars ['/', 'd']) 0 16 (fun _ => 0) 0 freshHeap).isOk := by
    decide +kernel
  cases hr : heapGetFile fileHost 3 (chars ['/', 'd']) 0 16 (fun _ => 0) 0 freshHeap with
  | error e =>
    rw [hr] at hok
    cases hok
  | ok r =>
    refine ⟨r, rfl, (getFile_balanced_iff fileHost 3 _ 0 16 _ 0 freshHeap r hr).2 (.inr
      ⟨root_passes_d, fun c _ => .inl ?_⟩)⟩
    decide +kernel

/-- The file "/c" is, and four blocks are lost. -/
theorem found_is_leaked : ¬ ∀ b fuel path pbaFile max ram reads h r,
    heapGetFile b fuel path pbaFile max ram reads h = .ok r → r.2.2.table = h.table := by
  intro h
  have hmark : ((heapGetFile fileHost 1 (chars ['/', 'c']) 0 2049 (fun _ => 0) 0 freshHeap).toOption.map
      fun r => r.2.2.table 4) = some 0xAA := by decide +kernel
  obtain ⟨r, hr, hbyte⟩ := Option.map_eq_some_iff.1 hmark
  cases hcall : heapGetFile fileHost 1 (chars ['/', 'c']) 0 2049 (fun _ => 0) 0 freshHeap with
  | error e =>
    rw [hcall] at hr
    cases hr
  | ok r' =>
    rw [hcall] at hr
    obtain rfl := Option.some.inj hr
    rw [h _ _ _ _ _ _ _ _ _ hcall] at hbyte
    revert hbyte
    decide

end Gentoox.Iso
