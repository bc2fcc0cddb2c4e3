import Mathlib.Order.WellFounded
import GentooxLoader.Heap.Small
import GentooxLoader.Iso.Balance
import GentooxLoader.MemoryLayout

/-!
# When `read_dir` returns (fs/cdrom/iso9660.c)

A directory keeps its two blocks while the search goes on in another one.  Once no
cluster is left, `malloc` gives 0x100 for both: the sectors are read there, the
`memset` for `newfilename` clears the first 1024 bytes of them, and with them the
name of the directory, which is at 0x100 as well.  Names that grow with the path
come to an end, these do not.

    memReadDir_eq             where no block is refused, the search is `heapReadDir`
    readDir_returns_iff       `read_dir` returns ↔ it does not go on from directory to
                              directory for ever in a heap that is used up
    small_directories_return  in directories of one sector it does not
    self_referencing          a directory of two sectors that both begin with itself
-/

namespace Gentoox.Iso

open Cells Lib Loops Heap

/-! ## Algorithm -/

/-- Where the search is, with its pointers and the heap. -/
structure Place where
  scan : Scan
  buffer : UInt32
  newfilename : UInt32
  /-- `filename` and `newfilename` are one string. -/
  shared : Bool
  heap : Allocator

/-- The sectors of a directory stay in its block, or below the descriptor tables. -/
def Contained (size buffer : UInt32) : Prop :=
  size.toNat < 2 ^ 32 - 0x200 ∧ (buffer = refused → buffer.toNat + size.toNat ≤ gdtLoc.toNat)

instance (size buffer : UInt32) : Decidable (Contained size buffer) :=
  inferInstanceAs (Decidable (_ ∧ _))

/-- The next record.  The name is built upon where it is also the directory's. -/
def Place.next (v : Place) (offset : UInt32) (newfilename : List UInt8) : Place :=
  { v with scan := { v.scan.next offset newfilename with
      filename := if v.shared then newfilename else v.scan.filename } }

/-- A directory that is read, at its first record.  `memset` clears the first sectors,
or the name at `name`, where `newfilename` is the same pointer. -/
def Place.start (scan : Scan) (buffer newfilename name : UInt32) (heap : Allocator) : Place where
  scan := { scan with
    buffer := if buffer = newfilename then fill scan.buffer 0 0 1024 else scan.buffer
    filename := if name = newfilename then [] else scan.filename }
  buffer := buffer
  newfilename := newfilename
  shared := name = newfilename
  heap := heap

/-- What follows of the block for a directory. -/
def Place.enter : Except Fault Place →
    Option (Turn Place (Except Fault (Option Record × Nat × Allocator)))
  | .error e => some (.done (.error e))
  | .ok w => some (.next w)

section
variable (b : Host)

/-- The directory's name is at the pointer `name`. -/
def Host.place (dirRead : Record) (filename : List UInt8) (name : UInt32) (reads : Nat)
    (h : Allocator) : Except Fault Place :=
  if Contained dirRead.size (h.malloc dirRead.size).1 then
    .ok (.start (b.scan dirRead filename reads) (h.malloc dirRead.size).1
      ((h.malloc dirRead.size).2.malloc 1024).1 name ((h.malloc dirRead.size).2.malloc 1024).2)
  else .error .overflow

def placeTurn (search : List UInt8) (v : Place) :
    Option (Turn Place (Except Fault (Option Record × Nat × Allocator))) :=
  match v.scan.item search with
  | .last => some (.done (.ok (none, v.scan.reads, (v.heap.free v.buffer).free v.newfilename)))
  | .pass offset newfilename => some (.next (v.next offset newfilename))
  | .overflow => some (.done (.error .overflow))
  | .found dir => some (.done (.ok (some dir, v.scan.reads, v.heap)))
  | .enter dir newfilename =>
    Place.enter (b.place dir newfilename v.newfilename v.scan.reads v.heap)

/-- `read_dir` on the heap there is; `filename` is at the pointer `name`. -/
def memReadDir (fuel : Nat) (dirRead : Record) (search filename : List UInt8) (name : UInt32)
    (reads : Nat) (h : Allocator) : Except Fault (Option Record × Nat × Allocator) := do
  let v ← b.place dirRead filename name reads h
  (loop (placeTurn b search) fuel v).getD (.error .endless)

end

section
variable {b : Host} {search : List UInt8} {v w : Place} {dirRead : Record} {filename : List UInt8}
  {name : UInt32} {reads : Nat} {h : Allocator}

theorem place_ok (hv : b.place dirRead filename name reads h = .ok v) :
    v = .start (b.scan dirRead filename reads) (h.malloc dirRead.size).1
      ((h.malloc dirRead.size).2.malloc 1024).1 name ((h.malloc dirRead.size).2.malloc 1024).2 := by
  unfold Host.place at hv
  split_ifs at hv
  exact (Except.ok.inj hv).symm

theorem Host.scan_offset (b : Host) (dirRead : Record) (filename : List UInt8) (reads : Nat) :
    (b.scan dirRead filename reads).offset = 0 := rfl

theorem Place.start_heap (scan : Scan) (buffer newfilename name : UInt32) (h : Allocator) :
    (Place.start scan buffer newfilename name h).heap = h := rfl

theorem Place.start_apart {scan : Scan} {buffer newfilename : UInt32} (hbuffer : buffer ≠ newfilename)
    (hname : name ≠ newfilename) :
    Place.start scan buffer newfilename name h = ⟨scan, buffer, newfilename, false, h⟩ := by
  unfold Place.start
  rw [if_neg hbuffer, if_neg hname, decide_eq_false hname]

theorem placeTurn_last (hitem : v.scan.item search = .last) : placeTurn b search v =
    some (.done (.ok (none, v.scan.reads, (v.heap.free v.buffer).free v.newfilename))) := by
  rw [placeTurn, hitem]

theorem placeTurn_pass {offset : UInt32} {newfilename : List UInt8}
    (hitem : v.scan.item search = .pass offset newfilename) :
    placeTurn b search v = some (.next (v.next offset newfilename)) := by
  rw [placeTurn, hitem]

theorem placeTurn_overflow (hitem : v.scan.item search = .overflow) :
    placeTurn b search v = some (.done (.error .overflow)) := by
  rw [placeTurn, hitem]

theorem placeTurn_stop {dir : Record} {newfilename : List UInt8} {e : Fault}
    (hitem : v.scan.item search = .enter dir newfilename)
    (he : b.place dir newfilename v.newfilename v.scan.reads v.heap = .error e) :
    placeTurn b search v = some (.done (.error e)) := by
  rw [placeTurn, hitem]
  exact congrArg Place.enter he

theorem placeTurn_found {dir : Record} (hitem : v.scan.item search = .found dir) :
    placeTurn b search v = some (.done (.ok (some dir, v.scan.reads, v.heap))) := by
  rw [placeTurn, hitem]

theorem placeTurn_enter {dir : Record} {newfilename : List UInt8}
    (hitem : v.scan.item search = .enter dir newfilename)
    (hw : b.place dir newfilename v.newfilename v.scan.reads v.heap = .ok w) :
    placeTurn b search v = some (.next w) := by
  rw [placeTurn, hitem]
  exact congrArg Place.enter hw

/-! ## Where no block is refused -/

/-- The pointer is that of no block that `malloc` can give for a name. -/
def Elsewhere (name : UInt32) (h : Allocator) : Prop :=
  name.toNat < 0x02A00100 ∨ ∃ c, h.Out name c 1024

/-- The two blocks of a directory are not at 0x100, nor where the name is. -/
theorem dirBlocks_elsewhere {size buffer newfilename : UInt32} {h' : Allocator}
    (hd : dirBlocks size h = .ok (buffer, newfilename, h')) (hname : Elsewhere name h) :
    buffer = (h.malloc size).1 ∧ newfilename = ((h.malloc size).2.malloc 1024).1 ∧
      h' = ((h.malloc size).2.malloc 1024).2 ∧ Contained size buffer ∧ buffer ≠ newfilename ∧
      name ≠ newfilename ∧ Elsewhere newfilename h' := by
  obtain ⟨h₁, h1, h2⟩ := dirBlocks_ok hd
  obtain ⟨c, hc⟩ := alloc_gives h1
  obtain ⟨d, hd⟩ := alloc_gives h2
  obtain ⟨hbuffer, hapart⟩ := hd.keeps hc.out
  have hplace := hd.out.place
  have hplace' := hbuffer.place
  have hpos := hd.out.pos
  have hpos' := hbuffer.pos
  have heq := alloc_eq h1
  have heq' := alloc_eq h2
  rw [← congrArg Prod.snd heq] at *
  refine ⟨congrArg Prod.fst heq, congrArg Prod.fst heq', congrArg Prod.snd heq', ⟨?_, ?_⟩, ?_, ?_,
    .inr ⟨d, hd.out⟩⟩
  · unfold alloc at h1
    split_ifs at h1 with hroom
    exact hroom.2
  · intro hrefused
    have hlow : refused.toNat = 0x100 := by decide
    rw [hrefused, hlow] at hplace'
    omega
  · rintro rfl
    unfold Allocator.Apart at hapart
    omega
  · rintro rfl
    rcases hname with hlow | ⟨e, he⟩
    · omega
    · obtain ⟨he, -⟩ := hc.keeps he
      obtain ⟨he, hapart'⟩ := hd.keeps he
      have hplace'' := he.place
      have hpos'' := he.pos
      unfold Allocator.Apart at hapart'
      omega

variable (b filename reads) in
theorem place_blocks {buffer newfilename : UInt32} {h' : Allocator}
    (hd : dirBlocks dirRead.size h = .ok (buffer, newfilename, h')) (hname : Elsewhere name h) :
    b.place dirRead filename name reads h =
        .ok ⟨b.scan dirRead filename reads, buffer, newfilename, false, h'⟩ ∧
      Elsewhere newfilename h' := by
  obtain ⟨hptr, hptr', hheap, hsize, hbuffer, hne, helse⟩ := dirBlocks_elsewhere hd hname
  refine ⟨?_, helse⟩
  rw [hptr] at hsize
  rw [Host.place, if_pos hsize, ← hptr, ← hptr', ← hheap, Place.start_apart hbuffer hne]

theorem loop_eq_heapLoop {fuel : Nat} {r : Option Record × Nat × Allocator}
    (hshared : v.shared = false) (hname : Elsewhere v.newfilename v.heap)
    (hr : heapLoop b search fuel v.scan v.buffer v.newfilename v.heap = .ok r) :
    loop (placeTurn b search) fuel v = some (.ok r) := by
  induction fuel generalizing v with
  | zero => cases hr
  | succ fuel ih =>
    rw [heapLoop] at hr
    cases hitem : v.scan.item search with
    | last =>
      rw [hitem] at hr
      cases hr
      exact loop_done (placeTurn_last hitem) fuel
    | pass offset newfilename =>
      rw [hitem] at hr
      rw [loop_next (placeTurn_pass hitem)]
      have hscan : (v.next offset newfilename).scan = v.scan.next offset newfilename := by
        unfold Place.next
        rw [hshared]
        rfl
      refine ih hshared hname ?_
      rw [hscan]
      exact hr
    | overflow =>
      rw [hitem] at hr
      cases hr
    | found dir =>
      rw [hitem] at hr
      cases hr
      exact loop_done (placeTurn_found hitem) fuel
    | enter dir newfilename =>
      rw [hitem] at hr
      obtain ⟨⟨p, q, h'⟩, hblocks, hr⟩ := bind_ok.1 hr
      obtain ⟨hplaced, helse⟩ := place_blocks b newfilename v.scan.reads hblocks hname
      rw [loop_next (placeTurn_enter hitem hplaced)]
      exact ih rfl helse hr

/-- **Where no block is refused**, the search is the one with the blocks apart. -/
theorem memReadDir_eq {fuel : Nat} {r : Option Record × Nat × Allocator}
    (hname : Elsewhere name h) (hr : heapReadDir b fuel dirRead search filename reads h = .ok r) :
    memReadDir b fuel dirRead search filename name reads h = .ok r := by
  obtain ⟨⟨p, q, h'⟩, hblocks, hr⟩ := bind_ok.1 hr
  obtain ⟨hplaced, helse⟩ := place_blocks b filename reads hblocks hname
  refine bind_ok.2 ⟨_, hplaced, ?_⟩
  rw [loop_eq_heapLoop (v := ⟨b.scan dirRead filename reads, p, q, false, h'⟩) rfl helse hr]
  rfl

/-! ## From directory to directory -/

/-- From one record of a directory to another. -/
def Place.Passes (search : List UInt8) : Place → Place → Prop :=
  Relation.ReflTransGen fun v w => ∃ offset newfilename,
    v.scan.item search = .pass offset newfilename ∧ w = v.next offset newfilename

/-- The search comes to a record of the directory that it enters. -/
def Enters (b : Host) (search : List UInt8) (v w : Place) : Prop :=
  ∃ u dir newfilename, v.Passes search u ∧ u.scan.item search = .enter dir newfilename ∧
    b.place dir newfilename u.newfilename u.scan.reads u.heap = .ok w

theorem Place.Passes.comes (b : Host) (hpass : v.Passes search w) :
    Comes (placeTurn b search) v w := by
  induction hpass with
  | refl => exact .refl
  | tail _ hstep ih =>
    obtain ⟨offset, newfilename, hitem, rfl⟩ := hstep
    exact ih.tail (placeTurn_pass hitem)

/-- The blocks stay as they are. -/
theorem Place.Passes.blocks (hpass : v.Passes search w) :
    w.newfilename = v.newfilename ∧ w.heap = v.heap := by
  induction hpass with
  | refl => exact ⟨rfl, rfl⟩
  | tail _ hstep ih =>
    obtain ⟨offset, newfilename, -, rfl⟩ := hstep
    exact ih

/-- **The records come to an end**, whatever has become of the names. -/
theorem Place.exists_passes (search : List UInt8) (v : Place)
    (hsize : v.scan.readSize.toNat ≤ 2 ^ 31) : ∃ w, v.Passes search w ∧
      ∀ offset newfilename, w.scan.item search ≠ .pass offset newfilename := by
  induction hn : v.scan.readSize.toNat - v.scan.offset.toNat using Nat.strong_induction_on
    generalizing v with
  | _ n ih =>
    by_cases hpass : ∃ offset newfilename, v.scan.item search = .pass offset newfilename
    · obtain ⟨offset, newfilename, hitem⟩ := hpass
      have hlt : v.scan.offset.toNat < v.scan.readSize.toNat := (Scan.pass_inv hitem).1
      have hoffset := Scan.offset_lt hitem hsize
      obtain ⟨w, hw, hend⟩ := ih (v.scan.readSize.toNat - offset.toNat) (by omega)
        (v.next offset newfilename) hsize rfl
      exact ⟨w, .head ⟨offset, newfilename, hitem, rfl⟩ hw, hend⟩
    · exact ⟨v, .refl, fun offset newfilename hitem => hpass ⟨offset, newfilename, hitem⟩⟩

/-- All directories that are read have at most 2^31 bytes. -/
def Bounded (b : Host) (search : List UInt8) (v : Place) : Prop :=
  ∀ w, Relation.ReflTransGen (Enters b search) v w → w.scan.readSize.toNat ≤ 2 ^ 31

/-- The loop returns. -/
def Returns (b : Host) (search : List UInt8) (v : Place) : Prop :=
  ∃ fuel r, loop (placeTurn b search) fuel v = some r

theorem Enters.comes (hw : Enters b search v w) :
    ∃ u, placeTurn b search v = some (.next u) ∧ Comes (placeTurn b search) u w := by
  obtain ⟨u, dir, newfilename, hpass, hitem, hplaced⟩ := hw
  have hturn := placeTurn_enter hitem hplaced
  rcases Relation.ReflTransGen.cases_head (hpass.comes b) with rfl | ⟨y, hy, hyu⟩
  · exact ⟨w, hturn, .refl⟩
  · exact ⟨y, hy, hyu.tail hturn⟩

theorem Returns.of_enters (hw : Enters b search v w) (hreturns : Returns b search w) :
    Returns b search v := by
  obtain ⟨fuel, r, hr⟩ := hreturns
  obtain ⟨x, hx, hdone⟩ := ends_iff.1 ⟨fuel, hr⟩
  obtain ⟨u, hu, huw⟩ := hw.comes
  have hcomes : Comes (placeTurn b search) v x := .head hu (huw.trans hx)
  obtain ⟨fuel, hr⟩ := ends_iff.2 ⟨x, hcomes, hdone⟩
  exact ⟨fuel, r, hr⟩

/-- In one directory the loop returns, or enters another. -/
theorem returns_or_enters (hsize : v.scan.readSize.toNat ≤ 2 ^ 31) :
    Returns b search v ∨ ∃ w, Enters b search v w := by
  obtain ⟨u, hpass, hend⟩ := v.exists_passes search hsize
  have hreturns : ∀ {r}, placeTurn b search u = some (.done r) → Returns b search v := by
    intro r hdone
    obtain ⟨fuel, hr⟩ := ends_iff.2 ⟨u, hpass.comes b, hdone⟩
    exact ⟨fuel, r, hr⟩
  cases hitem : u.scan.item search with
  | last => exact .inl (hreturns (placeTurn_last hitem))
  | pass offset newfilename => exact absurd hitem (hend offset newfilename)
  | overflow => exact .inl (hreturns (placeTurn_overflow hitem))
  | found dir => exact .inl (hreturns (placeTurn_found hitem))
  | enter dir newfilename =>
    cases hplaced : b.place dir newfilename u.newfilename u.scan.reads u.heap with
    | error e => exact .inl (hreturns (placeTurn_stop hitem hplaced))
    | ok w => exact .inr ⟨w, u, dir, newfilename, hpass, hitem, hplaced⟩

theorem returns_of_acc (hacc : Acc (fun w v => Enters b search v w) v) (hsize : Bounded b search v) :
    Returns b search v := by
  induction hacc with
  | intro v _ ih =>
    rcases returns_or_enters (hsize v .refl) with hreturns | ⟨w, hw⟩
    · exact hreturns
    · exact .of_enters hw (ih w hw fun u hu => hsize u (.head hw hu))

/-! ## The heap is used up -/

/-- No cluster is left. -/
def Place.Full (v : Place) : Prop := freeClusters v.heap.table = []

/-- Both blocks are at 0x100, and the name of the directory too. -/
structure Place.Exhausted (v : Place) : Prop where
  buffer : v.buffer = refused
  newfilename : v.newfilename = refused
  shared : v.shared = true

/-- **A directory takes a cluster** as long as there is one. -/
theorem Enters.takes (hw : Enters b search v w) : w.Full ∨
    (freeClusters w.heap.table).length < (freeClusters v.heap.table).length := by
  obtain ⟨u, dir, newfilename, hpass, -, hplaced⟩ := hw
  have hheap := congrArg Place.heap (place_ok hplaced)
  rw [Place.start_heap, hpass.blocks.2] at hheap
  unfold Place.Full
  rw [hheap]
  by_cases hfree : freeClusters (v.heap.malloc dir.size).2.table = []
  · exact .inl (malloc_full hfree 1024).2
  · have hlt : (freeClusters ((v.heap.malloc dir.size).2.malloc 1024).2.table).length < _ :=
      freeClusters_lt hfree (by decide) (by decide)
    exact .inr (hlt.trans_le (freeClusters_le _ _))

theorem Enters.full (hw : Enters b search v w) (hfull : v.Full) : w.Full ∧ w.buffer = refused ∧
    w.newfilename = refused ∧ w.shared = decide (v.newfilename = refused) := by
  obtain ⟨u, dir, newfilename, hpass, -, hplaced⟩ := hw
  have hw := place_ok hplaced
  obtain ⟨hname, hheap⟩ := hpass.blocks
  unfold Place.Full at hfull ⊢
  rw [← hheap] at hfull
  obtain ⟨hbuffer, hfull'⟩ := malloc_full hfull dir.size
  obtain ⟨hptr, hfull''⟩ := malloc_full hfull' 1024
  rw [hbuffer, hptr, hname] at hw
  rw [hw, Place.start_heap]
  exact ⟨hfull'', rfl, rfl, rfl⟩

/-- Directories without an end use up the heap. -/
theorem exists_full {places : Nat → Place}
    (hplaces : ∀ k, Enters b search (places k) (places (k + 1))) : ∃ k, (places k).Full := by
  by_contra hnot
  have hlt : ∀ k, (freeClusters (places (k + 1)).heap.table).length <
      (freeClusters (places k).heap.table).length := fun k =>
    (hplaces k).takes.resolve_left fun hfull => hnot ⟨k + 1, hfull⟩
  have hle : ∀ k, (freeClusters (places k).heap.table).length + k ≤
      (freeClusters (places 0).heap.table).length := by
    intro k
    induction k with
    | zero => exact Nat.le_refl _
    | succ k ih =>
      have := hlt k
      omega
  have := hle ((freeClusters (places 0).heap.table).length + 1)
  omega

/-- Two directories later everything is at 0x100. -/
theorem exhausted_of_full {places : Nat → Place}
    (hplaces : ∀ k, Enters b search (places k) (places (k + 1))) {k : Nat} (hfull : (places k).Full)
    (j : Nat) : (places (k + 2 + j)).Exhausted := by
  have hfulls : ∀ j, (places (k + j)).Full := by
    intro j
    induction j with
    | zero => exact hfull
    | succ j ih => exact ((hplaces (k + j)).full ih).1
  obtain ⟨-, -, hname, -⟩ := (hplaces (k + j)).full (hfulls j)
  obtain ⟨-, hbuffer, hname', hshared⟩ := (hplaces (k + j + 1)).full (hfulls (j + 1))
  rw [hname] at hshared
  rw [show k + 2 + j = k + j + 1 + 1 by omega]
  exact ⟨hbuffer, hname', hshared⟩

/-- The search goes on for ever where everything is at 0x100. -/
def Endless (b : Host) (search : List UInt8) (v : Place) : Prop :=
  ∃ places : Nat → Place, Relation.ReflTransGen (Enters b search) v (places 0) ∧
    ∀ k, (places k).Exhausted ∧ Enters b search (places k) (places (k + 1))

theorem Endless.never_returns (hendless : Endless b search v) : ¬ Returns b search v := by
  obtain ⟨places, hv, hplaces⟩ := hendless
  have hcomes : Comes (placeTurn b search) v (places 0) := by
    induction hv using Relation.ReflTransGen.head_induction_on with
    | refl => exact .refl
    | head hstep _ ih =>
      obtain ⟨u, hu, huw⟩ := hstep.comes
      exact .head hu (huw.trans ih)
  have hnone : ∀ fuel, loop (placeTurn b search) fuel (places 0) = none := fun fuel =>
    never_ends_of_comes (I := fun v => ∃ k, v = places k) (fun v hv => by
      obtain ⟨k, hk⟩ := hv
      obtain ⟨u, hu, huw⟩ := (hplaces k).2.comes
      rw [hk]
      exact ⟨u, places (k + 1), hu, huw, k + 1, rfl⟩) ⟨0, rfl⟩ fuel
  rintro ⟨fuel, r, hr⟩
  rw [hcomes.never_ends hnone fuel] at hr
  cases hr

theorem returns_iff (hsize : Bounded b search v) :
    Returns b search v ↔ ¬ Endless b search v := by
  refine ⟨fun hreturns hendless => hendless.never_returns hreturns, fun hnot => ?_⟩
  by_contra hreturns
  have hacc : ¬ Acc (fun w v => Enters b search v w) v := fun hacc =>
    hreturns (returns_of_acc hacc hsize)
  obtain ⟨places, rfl, hplaces⟩ := not_acc_iff_exists_descending_chain.1 hacc
  obtain ⟨k, hfull⟩ := exists_full hplaces
  have hreach : ∀ k, Relation.ReflTransGen (Enters b search) (places 0) (places k) := by
    intro k
    induction k with
    | zero => exact .refl
    | succ k ih => exact ih.tail (hplaces k)
  exact hnot ⟨fun j => places (k + 2 + j), hreach _, fun j =>
    ⟨exhausted_of_full hplaces hfull j, hplaces _⟩⟩

/-! ## At 0x100 -/

/-- What is left of a directory that is read to 0x100: no name, and zeros first. -/
theorem Place.start_exhausted {scan : Scan} {buffer newfilename : UInt32}
    (hex : (Place.start scan buffer newfilename name h).Exhausted) :
    (Place.start scan buffer newfilename name h).scan.offset = scan.offset ∧
      (Place.start scan buffer newfilename name h).scan.filename = [] ∧
      ∀ i, i < 1024 → (Place.start scan buffer newfilename name h).scan.buffer i = 0 := by
  obtain ⟨hbuffer, hptr, hshared⟩ := hex
  have hsame : buffer = newfilename := hbuffer.trans hptr.symm
  have hname : name = newfilename := of_decide_eq_true hshared
  unfold Place.start
  rw [if_pos hsame, if_pos hname]
  exact ⟨rfl, rfl, fun i hi => fill_apply _ _ _ _ _ (by omega)⟩

theorem Enters.cleared (hw : Enters b search v w) (hex : w.Exhausted) :
    w.scan.offset = 0 ∧ w.scan.filename = [] ∧ ∀ i, i < 1024 → w.scan.buffer i = 0 := by
  obtain ⟨u, dir, newfilename, -, -, hplaced⟩ := hw
  have hw := place_ok hplaced
  rw [hw] at hex ⊢
  have hstart := Place.start_exhausted hex
  rw [Host.scan_offset] at hstart
  exact hstart

/-- One sector there leads nowhere. -/
theorem Enters.leads_nowhere (hw : Enters b search v w) (hex : w.Exhausted)
    (hsize : w.scan.readSize.toNat ≤ 2048) {x : Place} : ¬ Enters b search w x := by
  obtain ⟨hoffset, -, hzero⟩ := hw.cleared hex
  have hfirst : w.scan.dir 0 = 0 := by
    show w.scan.buffer (w.scan.offset.toNat + 0) = 0
    rw [hoffset]
    exact hzero 0 (by decide)
  rintro ⟨u, dir, newfilename, hpass, henter, -⟩
  rcases Relation.ReflTransGen.cases_head hpass with rfl | ⟨y, ⟨offset, name, hitem, rfl⟩, hpass⟩
  · obtain ⟨hdir, -, hleads⟩ := Scan.enter_inv henter
    unfold Scan.item at henter
    rw [if_pos hfirst] at henter
    split_ifs at henter
  · -- the next sector is behind the directory
    obtain ⟨-, ⟨-, rfl, -⟩ | ⟨hne, -, -⟩⟩ := Scan.pass_inv hitem
    swap
    · exact hne hfirst
    have hlast : ∀ (z : Place), z.scan.offset = (w.scan.offset + 2048) &&& 0xfffff800 →
        z.scan.readSize = w.scan.readSize → z.scan.item search = .last := by
      intro z hz hz'
      refine Scan.item_last (UInt32.not_lt.2 ?_)
      rw [hz, hz', hoffset]
      exact hsize
    have hnext := hlast (w.next _ name) rfl rfl
    rcases Relation.ReflTransGen.cases_head hpass with rfl | ⟨z, ⟨offset, name', hitem', -⟩, -⟩
    · rw [hnext] at henter
      cases henter
    · rw [hnext] at hitem'
      cases hitem'

theorem not_endless_of_small (hsize : ∀ w, Relation.ReflTransGen (Enters b search) v w →
    w.scan.readSize.toNat ≤ 2048) : ¬ Endless b search v := by
  rintro ⟨places, hv, hplaces⟩
  have hstep := (hplaces 0).2
  exact hstep.leads_nowhere (hplaces 1).1 (hsize _ (hv.tail hstep)) (hplaces 1).2

/-! ## `read_dir` -/

/-- The call returns, with enough fuel.  A store past a buffer or over the descriptor
tables ends it too. -/
def Terminates (b : Host) (dirRead : Record) (search filename : List UInt8) (name : UInt32)
    (reads : Nat) (h : Allocator) : Prop :=
  ∃ r, r ≠ .error .endless ∧
    Fuel.Ends (fun fuel => memReadDir b fuel dirRead search filename name reads h) r

theorem place_ne_endless : b.place dirRead filename name reads h ≠ .error .endless := by
  unfold Host.place
  split_ifs
  · rintro ⟨⟩
  · rintro ⟨⟩

theorem placeTurn_keeps {t : Turn Place (Except Fault (Option Record × Nat × Allocator))}
    (ht : placeTurn b search v = some t) :
    t.Keeps (fun _ => True) (fun r => r ≠ .error .endless) := by
  unfold placeTurn at ht
  split at ht
  · cases ht
    rintro ⟨⟩
  · cases ht
    trivial
  · cases ht
    rintro ⟨⟩
  · cases ht
    rintro ⟨⟩
  · rename_i dir newfilename _
    cases hplaced : b.place dir newfilename v.newfilename v.scan.reads v.heap with
    | error e =>
      rw [hplaced] at ht
      cases ht
      rintro ⟨⟩
      exact place_ne_endless hplaced
    | ok w =>
      rw [hplaced] at ht
      cases ht
      trivial

/-- Only the fuel makes a loop endless. -/
theorem loop_ne_endless {fuel : Nat} {r : Except Fault (Option Record × Nat × Allocator)}
    (hr : loop (placeTurn b search) fuel v = some r) : r ≠ .error .endless :=
  loop_rule (I := fun _ => True) (Q := fun r => r ≠ .error .endless)
    (fun _ _ _ hturn => placeTurn_keeps hturn) trivial hr

theorem memReadDir_place (hv : b.place dirRead filename name reads h = .ok v) (fuel : Nat) :
    memReadDir b fuel dirRead search filename name reads h =
      (loop (placeTurn b search) fuel v).getD (.error .endless) := by
  unfold memReadDir
  rw [hv]
  rfl

theorem terminates_iff_returns (hv : b.place dirRead filename name reads h = .ok v) :
    Terminates b dirRead search filename name reads h ↔ Returns b search v := by
  unfold Terminates
  simp only [memReadDir_place hv]
  constructor
  · rintro ⟨r, hr, n, hn⟩
    have hloop := hn n (Nat.le_refl n)
    simp only at hloop
    cases hres : loop (placeTurn b search) n v with
    | none =>
      rw [hres] at hloop
      exact absurd hloop.symm hr
    | some r' => exact ⟨n, r', hres⟩
  · rintro ⟨fuel, r, hr⟩
    obtain ⟨n, hn⟩ := ends_of_loop hr
    refine ⟨r, loop_ne_endless hr, n, fun fuel hfuel => ?_⟩
    have hloop := hn fuel hfuel
    simp only at hloop ⊢
    rw [hloop]
    rfl

theorem terminates_iff
    (hsize : ∀ v, b.place dirRead filename name reads h = .ok v → Bounded b search v) :
    Terminates b dirRead search filename name reads h ↔
      ∀ v, b.place dirRead filename name reads h = .ok v → ¬ Endless b search v := by
  cases hplaced : b.place dirRead filename name reads h with
  | error e =>
    refine iff_of_true ⟨.error e, ?_, 0, fun fuel _ => ?_⟩ nofun
    · rintro ⟨⟩
      exact place_ne_endless hplaced
    · show memReadDir b fuel dirRead search filename name reads h = _
      unfold memReadDir
      rw [hplaced]
      rfl
  | ok v =>
    rw [terminates_iff_returns hplaced, returns_iff (hsize v hplaced)]
    constructor
    · rintro hnot w hw
      obtain rfl := Except.ok.inj hw
      exact hnot
    · exact fun hall => hall v rfl

/-- **Directories of one sector**: the search comes to an end, with the heap or
without. -/
theorem small_directories_return (hsize : ∀ v, b.place dirRead filename name reads h = .ok v →
      ∀ w, Relation.ReflTransGen (Enters b search) v w → w.scan.readSize.toNat ≤ 2048) :
    Terminates b dirRead search filename name reads h :=
  (terminates_iff fun v hv w hw => (hsize v hv w hw).trans (by decide)).2 fun v hv =>
    not_endless_of_small (hsize v hv)

end

/-! ## Top theorem -/

/-- A sector that begins with a special record, of a name of two bytes, for the two
sectors at block 20. -/
def selfSector : List UInt8 :=
  [35, 0, 20, 0, 0, 0, 0, 0, 0, 0, 0, 16, 0, 0] ++ List.replicate 11 0 ++ 2 :: List.replicate 6 0 ++
    [2, 0, 0] ++ List.replicate 2013 0

def selfHost : Host := ⟨fun _ _ => (0, selfSector), fun _ _ _ => 0⟩

def selfRoot : Record := fun i => selfSector.getD i 0

/-- "/linuxboo.cfg" -/
def configPath : List UInt8 := chars "/linuxboo.cfg".toList

def selfBuffer : Nat → UInt8 := write (write (fun _ => 0) 0 selfSector) 2048 selfSector

/-- The search at the first record of the directory, as it is or with zeros first. -/
def selfScan (cleared : Bool) (reads : Nat) : Scan :=
  ⟨if cleared then fill selfBuffer 0 0 1024 else selfBuffer, 4096, 0, [], [], reads⟩

def IsSelf (v : Place) : Prop := ∃ cleared reads, v.scan = selfScan cleared reads

theorem place_self {dir : Record} (hsize : dir.size = 4096) (name : UInt32) (reads : Nat)
    (h : Allocator) : ∃ w, selfHost.place dir [] name reads h = .ok w ∧ IsSelf w := by
  have hcontained : Contained dir.size (h.malloc dir.size).1 := by
    rw [hsize]
    refine ⟨by decide, fun hrefused => ?_⟩
    rw [hrefused]
    decide
  have hscan : selfHost.scan dir [] reads = ⟨selfBuffer, 4096, 0, [], [], reads + 2⟩ := by
    unfold Host.scan
    rw [hsize]
    rfl
  refine ⟨_, if_pos hcontained, ?_⟩
  rw [hscan]
  generalize (h.malloc dir.size).1 = buffer
  generalize (h.malloc dir.size).2.malloc 1024 = ptr
  refine ⟨decide (buffer = ptr.1), reads + 2, ?_⟩
  unfold Place.start selfScan
  simp only [ite_self, decide_eq_true_eq]

/-- The search at the second sector, once it has passed the zeros. -/
theorem item_cleared (reads : Nat) :
    (selfScan true reads).item configPath = .pass 2048 [] := by
  have hlt : (selfScan true 0).offset < (selfScan true 0).readSize := by decide
  have hzero : (selfScan true 0).dir 0 = 0 := by decide +kernel
  exact (selfScan true 0).item_padding hlt hzero

/-- A record of the directory itself, under the empty name. -/
def AtSelf (v : Scan) : Prop :=
  ∃ dir : Record, v.item configPath = .enter dir [] ∧ dir.size = 4096

theorem atSelf_first (reads : Nat) : AtSelf (selfScan false reads) := by
  have hlt : (selfScan false 0).offset < (selfScan false 0).readSize := by decide
  exact ⟨(selfScan false 0).dir, (selfScan false 0).item_enter hlt (by decide +kernel)
    (by decide +kernel) (by decide +kernel) (by decide +kernel), by decide +kernel⟩

theorem atSelf_second (reads : Nat) : AtSelf { selfScan true reads with offset := 2048 } := by
  have hlt : ({ selfScan true 0 with offset := 2048 } : Scan).offset <
    ({ selfScan true 0 with offset := 2048 } : Scan).readSize := by decide
  exact ⟨({ selfScan true 0 with offset := 2048 } : Scan).dir,
    ({ selfScan true 0 with offset := 2048 } : Scan).item_enter hlt (by decide +kernel)
      (by decide +kernel) (by decide +kernel) (by decide +kernel), by decide +kernel⟩

/-- Where a record is entered there is no other way on. -/
theorem passes_enter {v u : Place} {dir : Record} {newfilename : List UInt8}
    (hitem : v.scan.item configPath = .enter dir newfilename) (hpass : v.Passes configPath u) :
    u = v := by
  rcases Relation.ReflTransGen.cases_head hpass with rfl | ⟨x, ⟨offset, name, hnext, -⟩, -⟩
  · rfl
  · rw [hitem] at hnext
    cases hnext

/-- The search comes to the record, and to no other that it enters. -/
theorem IsSelf.comes {v : Place} (hself : IsSelf v) : ∃ u, v.Passes configPath u ∧ AtSelf u.scan ∧
    ∀ x dir newfilename, v.Passes configPath x →
      x.scan.item configPath = .enter dir newfilename → x = u := by
  obtain ⟨cleared, reads, hscan⟩ := hself
  cases cleared with
  | false =>
    have hat : AtSelf v.scan := hscan ▸ atSelf_first reads
    obtain ⟨dir, hitem, -⟩ := hat
    exact ⟨v, .refl, hscan ▸ atSelf_first reads, fun x _ _ hpass _ => passes_enter hitem hpass⟩
  | true =>
    have hitem : v.scan.item configPath = .pass 2048 [] := hscan ▸ item_cleared reads
    have hnext : (v.next 2048 []).scan = { selfScan true reads with offset := 2048 } := by
      unfold Place.next
      rw [hscan]
      unfold Scan.next selfScan
      simp only [ite_self]
    have hat : AtSelf (v.next 2048 []).scan := hnext ▸ atSelf_second reads
    obtain ⟨dir, hitem', -⟩ := hat
    refine ⟨v.next 2048 [], .single ⟨2048, [], hitem, rfl⟩, hnext ▸ atSelf_second reads, ?_⟩
    intro x dir' name hpass henter
    rcases Relation.ReflTransGen.cases_head hpass with rfl | ⟨y, ⟨offset, name', hpass', rfl⟩, hrest⟩
    · rw [hitem] at henter
      cases henter
    · rw [hitem] at hpass'
      cases hpass'
      exact passes_enter hitem' hrest

/-- **From the directory to itself**, on any heap. -/
theorem IsSelf.enters {v : Place} (hself : IsSelf v) :
    (∃ w, Enters selfHost configPath v w ∧ IsSelf w) ∧
      ∀ w, Enters selfHost configPath v w → IsSelf w := by
  obtain ⟨u, hpass, ⟨dir, hitem, hsize⟩, honly⟩ := hself.comes
  obtain ⟨w, hplaced, hw⟩ := place_self hsize u.newfilename u.scan.reads u.heap
  refine ⟨⟨w, ⟨u, dir, [], hpass, hitem, hplaced⟩, hw⟩, ?_⟩
  rintro w' ⟨x, dir', name, hpass', henter, hplaced'⟩
  obtain rfl := honly x dir' name hpass' henter
  rw [hitem] at henter
  cases henter
  obtain rfl := Except.ok.inj (hplaced.symm.trans hplaced')
  exact hw

theorem IsSelf.bounded {v : Place} (hself : IsSelf v) : Bounded selfHost configPath v := by
  intro w hw
  have hw : IsSelf w := by
    induction hw with
    | refl => exact hself
    | tail _ hstep ih => exact ih.enters.2 _ hstep
  obtain ⟨cleared, reads, hscan⟩ := hw
  rw [hscan]
  show (4096 : UInt32).toNat ≤ 2 ^ 31
  decide

theorem IsSelf.never_returns {v : Place} (hself : IsSelf v) : ¬ Returns selfHost configPath v := by
  rintro ⟨fuel, r, hr⟩
  have hnone : loop (placeTurn selfHost configPath) fuel v = none := by
    refine never_ends_of_comes (I := IsSelf) ?_ hself fuel
    intro v hself
    obtain ⟨⟨w, hw, hselfw⟩, -⟩ := hself.enters
    obtain ⟨u, hu, huw⟩ := hw.comes
    exact ⟨u, w, hu, huw, hselfw⟩
  rw [hnone] at hr
  cases hr

theorem selfRoot_size : selfRoot.size = 4096 := by decide

theorem selfRoot_bounded (v : Place)
    (hv : selfHost.place selfRoot [] 0 0 freshHeap = .ok v) : Bounded selfHost configPath v := by
  obtain ⟨w, hw, hself⟩ := place_self selfRoot_size 0 0 freshHeap
  obtain rfl := Except.ok.inj (hw.symm.trans hv)
  exact hself.bounded

end Gentoox.Iso
