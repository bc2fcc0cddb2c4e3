import GentooxLoader.Heap.Malloc

/-!
# The allocator between calls (lib/misc/BootLibrary.c)

`malloc` and `free` on the state they share: the cluster table and the words in
front of the blocks.  A block that is out (`Out`) stays out as other blocks come
and go.  What a caller has taken and not given back is a set of clusters: the
table it leaves is the one it found with these clusters marked (`Held`).

    malloc_gives   the block that is given out
    Out.free       what `free` clears
    Held.eq_iff    the table is as it was ↔ no cluster is held
-/

namespace Gentoox.Heap

/-! ## Algorithm -/

structure Allocator where
  manager : Manager
  ram : Nat → UInt8
  start : manager.memoryManagerStartAddress = memoryManagerStart

namespace Allocator

def table (h : Allocator) : Nat → UInt8 := h.manager.memsmall

theorem tMalloc_start (m : Manager) (size : UInt32) :
    (tMalloc m size).2.memoryManagerStartAddress = m.memoryManagerStartAddress := by
  rcases tMalloc_cases m size with he | ⟨c, -, -, he⟩
  · rw [he]
  · rw [he]

theorem tFree_start (m : Manager) (ptr : UInt32) :
    (tFree m ptr).memoryManagerStartAddress = m.memoryManagerStartAddress := by
  unfold tFree
  simp only
  split_ifs <;> rfl

theorem malloc_start (m : Manager) (ram : Nat → UInt8) (size : UInt32) :
    (Heap.malloc m ram size).2.1.memoryManagerStartAddress = m.memoryManagerStartAddress :=
  tMalloc_start m (request size)

theorem free_start (m : Manager) (ram : Nat → UInt8) (ptr : UInt32) :
    (Heap.free m ram ptr).memoryManagerStartAddress = m.memoryManagerStartAddress := by
  unfold Heap.free
  split
  · exact tFree_start m _
  · rfl

def malloc (h : Allocator) (size : UInt32) : UInt32 × Allocator :=
  ((Heap.malloc h.manager h.ram size).1,
    ⟨(Heap.malloc h.manager h.ram size).2.1, (Heap.malloc h.manager h.ram size).2.2,
      (malloc_start h.manager h.ram size).trans h.start⟩)

def free (h : Allocator) (ptr : UInt32) : Allocator :=
  ⟨Heap.free h.manager h.ram ptr, h.ram, (free_start h.manager h.ram ptr).trans h.start⟩

theorem address_eq (h h' : Allocator) (c : Nat) : h.manager.address c = h'.manager.address c := by
  unfold Manager.address
  rw [h.start, h'.start]

theorem toNat_address (h : Allocator) {c : Nat} (hlt : c < 0x400) :
    (h.manager.address c).toNat = 0x02A00000 + c * 0x4000 := by
  unfold Manager.address
  rw [UInt32.toNat_add, mul_clusterSize_toNat c hlt, h.start]
  show (0x02A00000 + c * 0x4000) % 2 ^ 32 = _
  omega

/-! ## A block that is out -/

/-- `ptr` is the pointer of a block of `size` bytes at cluster `c`: its marks are in
the table, and its two words in front of it. -/
structure Out (h : Allocator) (ptr : UInt32) (c : Nat) (size : UInt32) : Prop where
  size_le : request size ≤ maxSize
  first : c < 0x400
  place : ptr.toNat = 0x02A00100 + c * 0x4000
  marked : Marked h.table c (request size)
  words : freeArg h.ram ptr = some (h.manager.address c)

/-- The clusters from `c` on and those from `c'` on have none in common. -/
def Apart (c n c' n' : Nat) : Prop := c + n ≤ c' ∨ c' + n' ≤ c

theorem Apart.symm {c n c' n' : Nat} (h : Apart c n c' n') : Apart c' n' c n := Or.symm h

section
variable {h : Allocator} {ptr ptr' : UInt32} {c c' : Nat} {size size' : UInt32}

theorem Out.pos (ho : h.Out ptr c size) : 0 < clusters (request size) := clusters_pos _ ho.size_le

theorem Out.table_ne_zero (ho : h.Out ptr c size) {i : Nat} (h1 : c ≤ i)
    (h2 : i < c + clusters (request size)) : h.table i ≠ 0 := ho.marked.ne_zero h1 h2

/-- A free run meets no block. -/
theorem Out.apart (ho : h.Out ptr c size) {n : Nat} (hn : 0 < n) (hf : FreeRun h.table c' n) :
    Apart c (clusters (request size)) c' n := by
  have hpos := ho.pos
  unfold Apart
  by_contra hmeet
  -- the later of the two starts is in both
  have hzero := hf (max c c' - c') (by omega)
  rw [show c' + (max c c' - c') = max c c' by omega] at hzero
  exact ho.table_ne_zero (by omega) (by omega) hzero

/-- Words that are stored elsewhere leave those of a block alone. -/
theorem freeArg_write {ram : Nat → UInt8} {a : Nat} {l : List UInt8} (h8 : 8 ≤ ptr.toNat)
    (hout : ptr.toNat ≤ a ∨ a + l.length ≤ ptr.toNat - 8) :
    freeArg (Cells.write ram a l) ptr = freeArg ram ptr := by
  obtain ⟨e8, e4⟩ := words_toNat h8
  have hword : ∀ k, k = 0 ∨ k = 4 → Lib.longAt (Cells.write ram a l) (ptr.toNat - 8 + k) =
      Lib.longAt ram (ptr.toNat - 8 + k) := fun k hk =>
    Lib.longAt_congr fun i hi => Cells.write_of_outside _ _ _ _ (by omega)
  unfold freeArg
  rw [e8, e4, hword 4 (.inr rfl)]
  rw [show ptr.toNat - 8 = ptr.toNat - 8 + 0 from rfl, hword 0 (.inl rfl)]

/-! ## `malloc` -/

/-- What `malloc` does where there is room: the block is the first free run. -/
theorem malloc_out (h : Allocator) {size : UInt32} (h0 : (tMalloc h.manager (request size)).1 ≠ 0)
    (hsize : size.toNat < 2 ^ 32 - 0x200) : ∃ c,
      firstFree h.table (clusters (request size)) = some c ∧
      (h.malloc size).2.table = Cells.write h.table c (marks (request size)) ∧
      (h.malloc size).2.Out (h.malloc size).1 c size := by
  have hsound := sound_of_size h.start h.ram h0 hsize
  have hptr := malloc_ptr h.manager h.ram size
  rcases tMalloc_cases h.manager (request size) with he | ⟨c, hs, hc, he⟩
  · rw [he] at h0
    exact absurd rfl h0
  have hlt := ((firstFree_eq_some _ _ _).1 hc).2.1.2
  have haddress := h.toNat_address hlt
  have htable : (h.malloc size).2.table = Cells.write h.table c (marks (request size)) :=
    congrArg (fun r => r.2.memsmall) he
  refine ⟨c, hc, htable, hs, hlt, ?_, ?_, ?_⟩
  · show (Heap.malloc h.manager h.ram size).1.toNat = _
    rw [hptr, he, haddress]
    omega
  · unfold Marked
    rw [htable, ← length_marks _ hs]
    exact Cells.read_write _ _ _
  · show freeArg (Heap.malloc h.manager h.ram size).2.2 (Heap.malloc h.manager h.ram size).1 = _
    rw [hsound.free _ rfl, he, address_eq h]

/-- A block stays out when another one is given out. -/
theorem Out.malloc (ho : h.Out ptr c size) (h0 : (tMalloc h.manager (request size')).1 ≠ 0)
    (hsize : size'.toNat < 2 ^ 32 - 0x200) : (h.malloc size').2.Out ptr c size := by
  obtain ⟨c', hc', htable, hnew⟩ := malloc_out h h0 hsize
  have hrun := ((firstFree_eq_some _ _ _).1 hc').1
  have hapart := ho.apart hnew.pos hrun
  have hpos := ho.pos
  have hpos' := hnew.pos
  have hplace := ho.place
  have hplace' := hnew.place
  have hlen := length_marks _ hnew.size_le
  unfold Apart at hapart
  refine ⟨ho.size_le, ho.first, hplace, ?_, ?_⟩
  · unfold Marked
    rw [htable, ← ho.marked]
    refine Cells.read_congr fun i hi1 hi2 => ?_
    exact Cells.write_of_outside _ _ _ _ (by omega)
  · have hram : (h.malloc size').2.ram = _ := malloc_ram h.manager h.ram size' (by
      show 8 ≤ (h.malloc size').1.toNat
      omega)
    rw [hram, address_eq _ h, freeArg_write (by omega), ho.words]
    show ptr.toNat ≤ (h.malloc size').1.toNat - 8 ∨ (h.malloc size').1.toNat - 8 + 8 ≤ ptr.toNat - 8
    omega

/-- What `malloc` does: `ptr` is the first free run, at cluster `c`, and no other
block has anything of it. -/
structure Gives (h : Allocator) (size ptr : UInt32) (c : Nat) (h' : Allocator) : Prop where
  first : firstFree h.table (clusters (request size)) = some c
  table : h'.table = Cells.write h.table c (marks (request size))
  out : h'.Out ptr c size
  keeps : ∀ {ptr' : UInt32} {c' : Nat} {size' : UInt32}, h.Out ptr' c' size' →
    h'.Out ptr' c' size' ∧ Apart c' (clusters (request size')) c (clusters (request size))

theorem malloc_gives (h : Allocator) {size : UInt32} (h0 : (tMalloc h.manager (request size)).1 ≠ 0)
    (hsize : size.toNat < 2 ^ 32 - 0x200) :
    ∃ c, h.Gives size (h.malloc size).1 c (h.malloc size).2 := by
  obtain ⟨c, hfirst, htable, hout⟩ := malloc_out h h0 hsize
  have hrun := ((firstFree_eq_some _ _ _).1 hfirst).1
  exact ⟨c, hfirst, htable, hout, fun ho => ⟨ho.malloc h0 hsize, ho.apart hout.pos hrun⟩⟩

/-! ## `free` -/

theorem Out.free (ho : h.Out ptr c size) : (h.free ptr).table =
    Cells.fill h.table c 0 (cleared c (request size)) := by
  show (Heap.free h.manager h.ram ptr).memsmall = _
  unfold Heap.free
  rw [ho.words]
  exact congrArg Manager.memsmall (tFree_marked h.manager c _ ho.first ho.size_le ho.marked)

/-- A block stays out when another one is freed. -/
theorem Out.free_other (ho : h.Out ptr c size) (ho' : h.Out ptr' c' size')
    (hapart : Apart c (clusters (request size)) c' (clusters (request size'))) :
    (h.free ptr').Out ptr c size := by
  have hle := cleared_le c' (request size')
  unfold Apart at hapart
  refine ⟨ho.size_le, ho.first, ho.place, ?_, ?_⟩
  · unfold Marked
    rw [ho'.free, ← ho.marked]
    refine Cells.read_congr fun i hi1 hi2 => ?_
    exact Cells.fill_of_outside _ _ _ _ _ (by omega)
  · rw [address_eq _ h]
    exact ho.words

end

end Allocator

/-! ## What is held -/

/-- The table `u` is the table `t` with the clusters of `s` taken. -/
structure Held (t u : Nat → UInt8) (s : Set Nat) : Prop where
  taken : ∀ i ∈ s, t i = 0 ∧ u i ≠ 0
  rest : ∀ i, i ∉ s → u i = t i

section
variable {t u : Nat → UInt8} {s : Set Nat} {c n : Nat}

theorem Held.refl (t : Nat → UInt8) : Held t t ∅ :=
  ⟨fun _ hi => absurd hi (Set.notMem_empty _), fun _ _ => rfl⟩

/-- What is free now was free before. -/
theorem Held.free_before (h : Held t u s) {i : Nat} (hi : u i = 0) : t i = 0 ∧ i ∉ s := by
  have hout : i ∉ s := fun hs => (h.taken i hs).2 hi
  exact ⟨(h.rest i hout).symm.trans hi, hout⟩

theorem Held.take (h : Held t u s) {l : List UInt8} (hrun : FreeRun u c l.length)
    (hmarks : ∀ b ∈ l, b ≠ 0) : Held t (Cells.write u c l) (s ∪ Set.Ico c (c + l.length)) := by
  constructor
  · rintro i hi
    by_cases hin : c ≤ i ∧ i < c + l.length
    · obtain ⟨k, rfl⟩ := Nat.exists_eq_add_of_le hin.1
      refine ⟨(h.free_before (hrun k (by omega))).1, ?_⟩
      rw [Cells.write_apply _ _ _ _ (by omega)]
      exact hmarks _ (List.getElem_mem _)
    · rw [Cells.write_of_outside _ _ _ _ (by omega)]
      exact h.taken i (hi.resolve_right fun hi => hin hi)
  · intro i hi
    rw [Set.mem_union, not_or, Set.mem_Ico] at hi
    rw [Cells.write_of_outside _ _ _ _ (by omega)]
    exact h.rest i hi.1

theorem Held.give (h : Held t u s) (hsub : Set.Ico c (c + n) ⊆ s) :
    Held t (Cells.fill u c 0 n) (s \ Set.Ico c (c + n)) := by
  constructor
  · rintro i ⟨hi, hout⟩
    rw [Set.mem_Ico] at hout
    rw [Cells.fill_of_outside _ _ _ _ _ (by omega)]
    exact h.taken i hi
  · intro i hi
    by_cases hin : c ≤ i ∧ i < c + n
    · rw [Cells.fill_apply _ _ _ _ _ hin, (h.taken i (hsub hin)).1]
    · rw [Cells.fill_of_outside _ _ _ _ _ (by omega)]
      exact h.rest i fun hs => hi ⟨hs, hin⟩

/-- **Nothing is held** exactly if the table is as it was. -/
theorem Held.eq_iff (h : Held t u s) : u = t ↔ s = ∅ := by
  constructor
  · rintro rfl
    exact Set.eq_empty_of_forall_notMem fun i hi => (h.taken i hi).2 (h.taken i hi).1
  · rintro rfl
    exact funext fun i => h.rest i (Set.notMem_empty i)

/-- What is given out is held. -/
theorem Allocator.Gives.held {h h' : Allocator} {size ptr : UInt32} (hg : h.Gives size ptr c h')
    (hh : Held t h.table s) :
    Held t h'.table (s ∪ Set.Ico c (c + clusters (request size))) := by
  have hlen := length_marks _ hg.out.size_le
  have hrun := ((firstFree_eq_some _ _ _).1 hg.first).1
  rw [hg.table, ← hlen]
  rw [← hlen] at hrun
  exact hh.take hrun (marks_ne_zero _)

/-- What is freed is held no more, as far as it is cleared. -/
theorem Allocator.Out.held {h : Allocator} {ptr size : UInt32} (ho : h.Out ptr c size)
    (hh : Held t h.table s) (hsub : Set.Ico c (c + clusters (request size)) ⊆ s) :
    Held t (h.free ptr).table (s \ Set.Ico c (c + cleared c (request size))) := by
  have hle := cleared_le c (request size)
  rw [ho.free]
  exact hh.give ((Set.Ico_subset_Ico_right (by omega)).trans hsub)

end

end Gentoox.Heap
