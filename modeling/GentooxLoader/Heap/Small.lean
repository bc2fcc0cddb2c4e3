import GentooxLoader.Heap.Allocator

/-!
# Blocks of one cluster (lib/misc/BootLibrary.c)

A block that is not larger than a cluster is the first free cluster of the table.
A program that takes such blocks one after the other gets the free clusters in
their order, each with the bytes in it that were there before.

    freeClusters_take    what is free behind a block
    block_none           without a free cluster there is no block
    block_some           the block is the first free cluster
    malloc_full          without a free cluster every pointer is 0x100
    freeClusters_lt      a block of one cluster leaves one less
-/

namespace Gentoox.Heap

/-! ## Algorithm -/

def freeClusters (t : Nat → UInt8) : List Nat := (List.range' 1 0x3ff).filter fun c => t c == 0

/-- Where the caller's bytes begin in a block at cluster `c`. -/
def inCluster (c : Nat) : Nat := 0x02A00100 + c * 0x4000

def pointer (c : Nat) : UInt32 := UInt32.ofNat (inCluster c)

/-- What `malloc` gives for a block that is not there. -/
def refused : UInt32 := 0x100

/-- `malloc`, where there is room: without, it gives `refused`, which is no block. -/
def Allocator.block (h : Allocator) (size : UInt32) : Option (UInt32 × Allocator) :=
  if (tMalloc h.manager (request size)).1 = 0 then none else some (h.malloc size)

/-! ## Free clusters -/

variable {t : Nat → UInt8} {c : Nat} {rest : List Nat}

theorem freeClusters_nodup (t : Nat → UInt8) : (freeClusters t).Nodup :=
  (List.nodup_range' ..).filter _

theorem lt_of_mem_freeClusters (h : c ∈ freeClusters t) : c < 0x400 := by
  obtain ⟨hmem, -⟩ := List.mem_filter.1 h
  rw [List.mem_range'_1] at hmem
  omega

theorem firstFree_one (t : Nat → UInt8) : firstFree t 1 = (freeClusters t).head? := by
  rw [← search_small, freeClusters, List.head?_filter]
  rfl

/-- In a new heap all clusters but the one of the table are free. -/
theorem freeClusters_new (mem : Nat → UInt8) (pvStartAddress : UInt32) :
    freeClusters (memoryManagementInitialization mem pvStartAddress).memsmall =
      List.range' 1 0x3ff := by
  unfold freeClusters
  rw [List.filter_eq_self]
  intro c hc
  rw [List.mem_range'_1] at hc
  show (Function.update (Cells.fill mem 0 0 0x4000) 0 0xff c == 0) = true
  rw [Function.update_of_ne (by omega), Cells.fill_apply _ _ _ _ _ (by omega)]
  rfl

/-- The first free cluster is taken. -/
theorem freeClusters_take (h : freeClusters t = c :: rest) {m : UInt8} (hm : m ≠ 0) :
    freeClusters (Cells.write t c [m]) = rest := by
  have hnodup := freeClusters_nodup t
  rw [h, List.nodup_cons] at hnodup
  have hmarked : ∀ x, (Cells.write t c [m] x == 0) = (decide (x ≠ c) && (t x == 0)) := by
    intro x
    by_cases hx : x = c
    · have hput : Cells.write t c [m] c = m := Cells.write_apply t c [m] 0 Nat.one_pos
      rw [hx, hput]
      simpa using hm
    · rw [Cells.write_of_outside t c [m] x (by rw [List.length_singleton]; omega)]
      simp [hx]
  calc freeClusters (Cells.write t c [m])
      = (freeClusters t).filter fun x => decide (x ≠ c) := by
        rw [freeClusters, freeClusters, List.filter_filter]
        exact List.filter_congr fun x _ => hmarked x
    _ = rest := by
        rw [h, List.filter_cons_of_neg (by simp), List.filter_eq_self]
        intro x hx
        have hne : x ≠ c := fun he => hnodup.1 (he ▸ hx)
        simpa using hne

/-! ## Blocks -/

theorem toNat_pointer (hc : c < 0x400) : (pointer c).toNat = inCluster c := by
  unfold pointer inCluster
  rw [UInt32.toNat_ofNat']
  omega

variable {h : Allocator} {size : UInt32}

theorem tMalloc_zero_iff (h : Allocator) (hsize : request size ≤ maxSize)
    (hone : clusters (request size) = 1) :
    (tMalloc h.manager (request size)).1 = 0 ↔ freeClusters h.table = [] := by
  have htable : h.table = h.manager.memsmall := rfl
  rw [← List.head?_eq_none_iff, ← firstFree_one, tMalloc_eq, if_pos hsize, hone, htable]
  cases hc : firstFree h.manager.memsmall 1 with
  | none => exact iff_of_true rfl rfl
  | some c =>
    refine iff_of_false (fun hzero => ?_) (Option.some_ne_none c)
    have hlt := ((firstFree_eq_some _ _ _).1 hc).2.1.2
    have haddress := h.toNat_address hlt
    rw [show h.manager.address c = 0 from hzero] at haddress
    change 0 = _ at haddress
    omega

theorem block_zero_iff (h : Allocator) (hsize : request size = 0x200) :
    (tMalloc h.manager (request size)).1 = 0 ↔ freeClusters h.table = [] :=
  tMalloc_zero_iff h (by rw [hsize]; decide) (by rw [hsize]; rfl)

theorem block_none (hsize : request size = 0x200) (hfree : freeClusters h.table = []) :
    h.block size = none := if_pos ((block_zero_iff h hsize).2 hfree)

/-- The block at `c` is taken: nothing in it is written. -/
structure Fresh (h : Allocator) (c : Nat) (rest : List Nat) (h' : Allocator) : Prop where
  free : freeClusters h'.table = rest
  ram : ∀ i, i + 8 < inCluster c ∨ inCluster c ≤ i → h'.ram i = h.ram i

variable (size) in
theorem block_some (hsize : request size = 0x200) (hfree : freeClusters h.table = c :: rest) :
    ∃ h', h.block size = some (pointer c, h') ∧ Fresh h c rest h' := by
  have h0 : (tMalloc h.manager (request size)).1 ≠ 0 := by
    rw [Ne, block_zero_iff h hsize, hfree]
    exact List.cons_ne_nil c rest
  have hsmall : size.toNat < 2 ^ 32 - 0x200 := by
    have hreq := congrArg UInt32.toNat hsize
    have hlt := size.toNat_lt
    rw [request_toNat] at hreq
    change _ = 0x200 at hreq
    omega
  obtain ⟨c', hfirst, htable, hout⟩ := Allocator.malloc_out h h0 hsmall
  have hone : clusters (request size) = 1 := by rw [hsize]; rfl
  rw [hone, firstFree_one, hfree] at hfirst
  obtain rfl : c = c' := Option.some.inj hfirst
  have hptr : (h.malloc size).1 = pointer c := by
    apply UInt32.toNat_inj.1
    rw [toNat_pointer hout.first, hout.place]
    rfl
  refine ⟨(h.malloc size).2, (if_neg h0).trans (congrArg some (Prod.ext hptr rfl)), ?_, ?_⟩
  · rw [htable]
    have hmarks : marks (request size) = [0xAA] := by rw [hsize]; rfl
    rw [hmarks]
    exact freeClusters_take hfree (by decide)
  · intro i hi
    have hplace := hout.place
    have hram : (h.malloc size).2.ram = _ := malloc_ram h.manager h.ram size (by
      show 8 ≤ (h.malloc size).1.toNat
      omega)
    rw [hram]
    refine Cells.write_of_outside _ _ _ _ ?_
    show i < (h.malloc size).1.toNat - 8 ∨ (h.malloc size).1.toNat - 8 + 8 ≤ i
    rw [hplace]
    unfold inCluster at hi
    omega

/-! ## A heap that is used up -/

/-- Where `t_malloc` finds no room, the table stays as it is. -/
theorem malloc_refused (h0 : (tMalloc h.manager (request size)).1 = 0) :
    (h.malloc size).1 = refused ∧ (h.malloc size).2.table = h.table := by
  constructor
  · show ((tMalloc h.manager (request size)).1 + 0x100) &&& 0xffffff00 = _
    rw [h0]
    decide
  · rcases tMalloc_cases h.manager (request size) with he | ⟨c, -, hc, he⟩
    · exact congrArg (fun r => r.2.memsmall) he
    · have hlt := ((firstFree_eq_some _ _ _).1 hc).2.1.2
      have haddress := h.toNat_address hlt
      rw [show h.manager.address c = 0 from (congrArg Prod.fst he).symm.trans h0] at haddress
      change 0 = _ at haddress
      omega

/-- `malloc` frees nothing. -/
theorem free_before_malloc (h : Allocator) (size : UInt32) {c : Nat}
    (hc : (h.malloc size).2.table c = 0) : h.table c = 0 := by
  change (tMalloc h.manager (request size)).2.memsmall c = 0 at hc
  rcases tMalloc_cases h.manager (request size) with he | ⟨c', -, -, he⟩
  · rw [he] at hc
    exact hc
  · rw [he] at hc
    by_cases hin : c' ≤ c ∧ c < c' + (marks (request size)).length
    · obtain ⟨k, rfl⟩ := Nat.exists_eq_add_of_le hin.1
      change Cells.write _ _ _ _ = _ at hc
      rw [Cells.write_apply _ _ _ _ (by omega)] at hc
      exact absurd hc (marks_ne_zero _ _ (List.getElem_mem _))
    · change Cells.write _ _ _ _ = _ at hc
      rwa [Cells.write_of_outside _ _ _ _ (by omega)] at hc

theorem freeClusters_le (h : Allocator) (size : UInt32) :
    (freeClusters (h.malloc size).2.table).length ≤ (freeClusters h.table).length := by
  refine (List.monotone_filter_right _ fun c hc => ?_).length_le
  rw [beq_iff_eq] at hc ⊢
  exact free_before_malloc h size hc

/-- **A heap that is used up** has no block of any size. -/
theorem malloc_full (hfree : freeClusters h.table = []) (size : UInt32) :
    (h.malloc size).1 = refused ∧ freeClusters (h.malloc size).2.table = [] := by
  have h0 : (tMalloc h.manager (request size)).1 = 0 := by
    by_contra h0
    obtain ⟨hs, -⟩ := tMalloc_ptr h.start h0
    rcases tMalloc_cases h.manager (request size) with he | ⟨c, -, hc, -⟩
    · rw [he] at h0
      exact h0 rfl
    · obtain ⟨hrun, ⟨h1, hlt⟩, -⟩ := (firstFree_eq_some _ _ _).1 hc
      have hzero : h.table c = 0 := hrun 0 (clusters_pos _ hs)
      have hmem : c ∈ freeClusters h.table :=
        List.mem_filter.2 ⟨List.mem_range'_1.2 (by omega), by simpa using hzero⟩
      rw [hfree] at hmem
      exact List.not_mem_nil hmem
  obtain ⟨hptr, htable⟩ := malloc_refused h0
  exact ⟨hptr, by rw [htable, hfree]⟩

theorem freeClusters_lt (hfree : freeClusters h.table ≠ []) (hsize : request size ≤ maxSize)
    (hone : clusters (request size) = 1) :
    (freeClusters (h.malloc size).2.table).length < (freeClusters h.table).length := by
  obtain ⟨c, rest, hfree⟩ := List.exists_cons_of_ne_nil hfree
  have h0 : (tMalloc h.manager (request size)).1 ≠ 0 := by
    rw [Ne, tMalloc_zero_iff h hsize hone, hfree]
    exact List.cons_ne_nil c rest
  rcases tMalloc_cases h.manager (request size) with he | ⟨c', -, hc, he⟩
  · rw [he] at h0
    exact absurd rfl h0
  have htable : (h.malloc size).2.table = Cells.write h.table c' (marks (request size)) :=
    congrArg (fun r => r.2.memsmall) he
  have hfirst : firstFree h.table 1 = some c' := hone ▸ hc
  rw [firstFree_one, hfree] at hfirst
  obtain rfl : c = c' := Option.some.inj hfirst
  have hlen := length_marks _ hsize
  rw [hone, List.length_eq_one_iff] at hlen
  obtain ⟨m, hm⟩ := hlen
  have hne : m ≠ 0 := marks_ne_zero (request size) m (by rw [hm]; exact List.mem_singleton_self m)
  rw [htable, hm, freeClusters_take hfree hne, hfree, List.length_cons]
  exact Nat.lt_succ_self _

end Gentoox.Heap
