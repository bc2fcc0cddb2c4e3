import Mathlib.Order.Interval.Finset.Nat
import GentooxLoader.Base.Arena
import GentooxLoader.Heap.Blocks
import GentooxLoader.MemoryLayout

/-!
# The heap in use: sequences of `t_malloc` and `t_free`

`heap` is the machine of a caller that asks for blocks of any size and frees
pointers it was given.  A block is live from the `t_malloc` that returned it to
the `t_free` of its pointer.  `heap_simulation`: seen through the cluster
ranges of the live blocks the heap is an arena with cluster 0 reserved, so that
these ranges are disjoint; the invariant `Inv` says what the table holds.

    heap.Reachable s → the live blocks are disjoint, off cluster 0, large
      enough, and freeing one leaves the others' table bytes alone
                                                       (liveBlocks_wellFormed)
    heap.Reachable s → size ≤ maxSize →
      (StaysInside s.manager size ↔ HasRoom s.manager size)   (tMalloc_inside_iff)
    freeing the block just allocated restores the table
      ↔ ¬ (0x10000 < size < 0x14000)                   (tFree_restores_iff)
-/

namespace Gentoox.Heap

/-! ## Algorithm -/

/-- What a caller keeps of a block: the pointer and the size asked for. -/
structure Block where
  ptr : UInt32
  size : UInt32
deriving DecidableEq

structure State where
  manager : Manager
  live : List Block

inductive Action where
  | tMalloc (size : UInt32)
  | tFree (ptr : UInt32)

def start (mem : Nat → UInt8) : State := ⟨memoryManagementInitialization mem memoryManagerStart, []⟩

def next (s : State) : Action → Option State
  | .tMalloc size =>
    let (ptr, manager) := tMalloc s.manager size
    some ⟨manager, if ptr = 0 then s.live else ⟨ptr, size⟩ :: s.live⟩
  | .tFree ptr =>
    match s.live.find? (fun b => b.ptr = ptr) with
    | some b => some ⟨tFree s.manager ptr, s.live.erase b⟩
    | none => none

def heap : Machine State Action where
  init s := ∃ mem, s = start mem
  next := next

/-- The cluster a pointer of the heap points to. -/
def clusterOf (ptr : UInt32) : Nat := ((ptr - memoryManagerStart) / 0x4000).toNat

/-- The clusters of a block. -/
def Block.range (b : Block) : Finset Nat :=
  Finset.Ico (clusterOf b.ptr) (clusterOf b.ptr + clusters b.size)

/-! ## The invariant -/

/-- What the table and the list of live blocks say about each other.  `tail` and
`crossing` are about the bytes behind the 0x400 of the table, which a block
that starts near its end also uses. -/
structure Inv (s : State) : Prop where
  start : s.manager.memoryManagerStartAddress = memoryManagerStart
  reserved : s.manager.memsmall 0 ≠ 0
  address : ∀ b ∈ s.live, b.ptr = s.manager.address (clusterOf b.ptr)
  size_le : ∀ b ∈ s.live, b.size ≤ maxSize
  first : ∀ b ∈ s.live, 1 ≤ clusterOf b.ptr ∧ clusterOf b.ptr < 0x400
  marked : ∀ b ∈ s.live, Marked s.manager.memsmall (clusterOf b.ptr) b.size
  tail : s.manager.memsmall 0x400 = 0 → ∀ i, 0x400 ≤ i → i < 0x4000 → s.manager.memsmall i = 0
  crossing : ∀ b ∈ s.live, 0x400 < clusterOf b.ptr + clusters b.size →
    ∀ i, clusterOf b.ptr + clusters b.size ≤ i → i < 0x4000 → s.manager.memsmall i = 0

theorem Marked.ne_zero {t : Nat → UInt8} {c : Nat} {size : UInt32} (h : Marked t c size) {i : Nat}
    (h1 : c ≤ i) (h2 : i < c + clusters size) : t i ≠ 0 := by
  apply marks_ne_zero size
  rw [← h, Cells.read, List.mem_map]
  exact ⟨i - c, List.mem_range.2 (by omega), by congr 1; omega⟩

theorem clusterOf_address (m : Manager) (c : Nat)
    (hm : m.memoryManagerStartAddress = memoryManagerStart) (hc : c < 0x400) :
    clusterOf (m.address c) = c := by
  unfold clusterOf
  rw [← hm, address_sub, address_cluster c hc]

theorem address_ne_zero (m : Manager) (c : Nat)
    (hm : m.memoryManagerStartAddress = memoryManagerStart) (hc : c < 0x400) : m.address c ≠ 0 := by
  intro h
  have h0 := congrArg UInt32.toNat h
  unfold Manager.address at h0
  rw [UInt32.toNat_add, mul_clusterSize_toNat c hc, hm] at h0
  change (0x02A00000 + c * 0x4000) % 2 ^ 32 = 0 at h0
  omega

/-- The pointer of a successful `t_malloc` and the table it leaves. -/
theorem tMalloc_cases (m : Manager) (size : UInt32) :
    tMalloc m size = (0, m) ∨ ∃ c, size ≤ maxSize ∧ firstFree m.memsmall (clusters size) = some c ∧
      tMalloc m size = (m.address c, { m with memsmall := Cells.write m.memsmall c (marks size) }) := by
  rw [tMalloc_eq]
  by_cases hs : size ≤ maxSize
  · rw [if_pos hs]
    cases h : firstFree m.memsmall (clusters size) with
    | none => exact Or.inl rfl
    | some c => exact Or.inr ⟨c, hs, rfl, rfl⟩
  · rw [if_neg hs]
    exact Or.inl rfl

/-- What a `t_malloc` step can do: fail and change nothing, or take the first free run. -/
theorem next_tMalloc {s s' : State} {size : UInt32}
    (hm : s.manager.memoryManagerStartAddress = memoryManagerStart)
    (h : next s (.tMalloc size) = some s') :
    s' = s ∨ ∃ c, size ≤ maxSize ∧ firstFree s.manager.memsmall (clusters size) = some c ∧
      s' = ⟨{ s.manager with memsmall := Cells.write s.manager.memsmall c (marks size) },
        ⟨s.manager.address c, size⟩ :: s.live⟩ := by
  rcases tMalloc_cases s.manager size with he | ⟨c, hs, hc, he⟩
  · simp only [next, he, Option.some.injEq, if_true] at h
    exact Or.inl h.symm
  · have hlt := ((firstFree_eq_some _ _ _).1 hc).2.1.2
    simp only [next, he, Option.some.injEq, if_neg (address_ne_zero _ _ hm hlt)] at h
    exact Or.inr ⟨c, hs, hc, h.symm⟩

/-- What a `t_free` step can do. -/
theorem next_tFree {s s' : State} {ptr : UInt32} (h : next s (.tFree ptr) = some s') :
    ∃ b ∈ s.live, b.ptr = ptr ∧ s' = ⟨tFree s.manager ptr, s.live.erase b⟩ := by
  unfold next at h
  cases hb : s.live.find? fun b => b.ptr = ptr with
  | none => simp [hb] at h
  | some b =>
    simp only [hb, Option.some.injEq] at h
    exact ⟨b, List.mem_of_find?_eq_some hb, by simpa using List.find?_some hb, h.symm⟩

theorem inv_start (mem : Nat → UInt8) : Inv (start mem) where
  start := rfl
  reserved := by
    show Function.update (Cells.fill mem 0 0x0 0x4000) 0 0xff 0 ≠ 0
    rw [Function.update_self]
    decide
  address := by intro b hb; cases hb
  size_le := by intro b hb; cases hb
  first := by intro b hb; cases hb
  marked := by intro b hb; cases hb
  tail := by
    intro _ i h1 h2
    show Function.update (Cells.fill mem 0 0x0 0x4000) 0 0xff i = 0
    rw [Function.update_of_ne (by omega), Cells.fill_apply _ _ _ _ _ (by omega)]
  crossing := by intro b hb; cases hb

/-- `t_malloc` changes the table only where it marks its block. -/
theorem tMalloc_frame {t : Nat → UInt8} {size : UInt32} {c i : Nat} (hs : size ≤ maxSize)
    (hi : i < c ∨ c + clusters size ≤ i) : Cells.write t c (marks size) i = t i := by
  have hlen := length_marks size hs
  exact Cells.write_of_outside _ _ _ _ (by omega)

theorem marked_tMalloc (t : Nat → UInt8) (c : Nat) {size : UInt32} (hs : size ≤ maxSize) :
    Marked (Cells.write t c (marks size)) c size := by
  unfold Marked
  rw [← length_marks size hs]
  exact Cells.read_write _ _ _

/-- A free run that passes the end of the table starts from an untouched tail. -/
theorem FreeRun.end_eq_zero {t : Nat → UInt8} {c n : Nat} (hf : FreeRun t c n) (hc : c < 0x400)
    (hlt : 0x400 < c + n) : t 0x400 = 0 := by
  have := hf (0x400 - c) (by omega)
  rwa [show c + (0x400 - c) = 0x400 by omega] at this

section
variable {s : State} (h : Inv s)

include h

/-- A free run meets no live block. -/
theorem Inv.freeRun_disjoint {c n : Nat} (hf : FreeRun s.manager.memsmall c n) (b : Block)
    (hb : b ∈ s.live) : Disjoint (Finset.Ico c (c + n)) b.range := by
  rw [Finset.disjoint_left]
  intro i hi hb'
  rw [Finset.mem_Ico] at hi
  rw [Block.range, Finset.mem_Ico] at hb'
  apply (h.marked b hb).ne_zero hb'.1 hb'.2
  have := hf (i - c) (by omega)
  rwa [show c + (i - c) = i by omega] at this

section
variable {size : UInt32} {c : Nat} (hs : size ≤ maxSize)

include hs

theorem Inv.tMalloc_tail (h0 : Cells.write s.manager.memsmall c (marks size) 0x400 = 0) {i : Nat}
    (hi1 : 0x400 ≤ i) (hi2 : i < 0x4000) (hc : c < 0x400) :
    Cells.write s.manager.memsmall c (marks size) i = 0 := by
  have hin : c + clusters size ≤ 0x400 := by
    by_contra hcon
    exact (marked_tMalloc _ c hs).ne_zero (by omega) (by omega) h0
  rw [tMalloc_frame hs (by omega)] at h0
  rw [tMalloc_frame hs (by omega)]
  exact h.tail h0 i hi1 hi2

variable (hf : FreeRun s.manager.memsmall c (clusters size))

include hf

/-- The marks of the other blocks stay. -/
theorem Inv.tMalloc_marked {b : Block} (hb : b ∈ s.live) :
    Marked (Cells.write s.manager.memsmall c (marks size)) (clusterOf b.ptr) b.size := by
  have hd := h.freeRun_disjoint hf b hb
  unfold Marked
  rw [← h.marked b hb]
  apply Cells.read_congr
  intro i hi1 hi2
  apply tMalloc_frame hs
  by_contra hcon
  exact Finset.disjoint_left.1 hd (Finset.mem_Ico.2 (by omega)) (Finset.mem_Ico.2 ⟨hi1, hi2⟩)

/-- Behind a block that passes the end the table is still free: behind the new one, and
behind one that was there, as there is room for one such block only. -/
theorem Inv.tMalloc_crossing (hc : c < 0x400) {i : Nat} (hi : i < 0x4000) :
    (0x400 < c + clusters size → c + clusters size ≤ i →
      Cells.write s.manager.memsmall c (marks size) i = 0) ∧
    ∀ b ∈ s.live, 0x400 < clusterOf b.ptr + clusters b.size →
      clusterOf b.ptr + clusters b.size ≤ i →
      Cells.write s.manager.memsmall c (marks size) i = 0 := by
  constructor
  · intro hlt hle
    rw [tMalloc_frame hs (.inr hle)]
    exact h.tail (hf.end_eq_zero hc hlt) i (by omega) hi
  · intro b hb hlt hle
    have hin : c + clusters size ≤ 0x400 := by
      by_contra hcon
      have hfb := h.first b hb
      exact (h.marked b hb).ne_zero (i := 0x400) (by omega) hlt (hf.end_eq_zero hc (by omega))
    rw [tMalloc_frame hs (by omega)]
    exact h.crossing b hb hlt i hle hi

end

/-- `t_malloc` keeps the invariant. -/
theorem Inv.tMalloc {size : UInt32} {c : Nat} (hs : size ≤ maxSize)
    (hc : firstFree s.manager.memsmall (clusters size) = some c) :
    Inv ⟨{ s.manager with memsmall := Cells.write s.manager.memsmall c (marks size) },
      ⟨s.manager.address c, size⟩ :: s.live⟩ := by
  obtain ⟨hf, ⟨h1, h2⟩, -⟩ := (firstFree_eq_some _ _ _).1 hc
  have hnew : clusterOf (s.manager.address c) = c := clusterOf_address s.manager c h.start h2
  refine ⟨h.start, ?_, ?_, ?_, ?_, ?_, ?_, ?_⟩
  · show Cells.write s.manager.memsmall c (marks size) 0 ≠ 0
    rw [tMalloc_frame hs (by omega)]
    exact h.reserved
  · rintro b (_ | ⟨_, hb⟩)
    · show s.manager.address c = s.manager.address (clusterOf (s.manager.address c))
      rw [hnew]
    · exact h.address b hb
  · rintro b (_ | ⟨_, hb⟩)
    · exact hs
    · exact h.size_le b hb
  · rintro b (_ | ⟨_, hb⟩)
    · show 1 ≤ clusterOf (s.manager.address c) ∧ clusterOf (s.manager.address c) < 0x400
      rw [hnew]
      exact ⟨h1, h2⟩
    · exact h.first b hb
  · rintro b (_ | ⟨_, hb⟩)
    · show Marked _ (clusterOf (s.manager.address c)) size
      rw [hnew]
      exact marked_tMalloc _ c hs
    · exact h.tMalloc_marked hs hf hb
  · intro h0 i hi1 hi2
    exact h.tMalloc_tail hs h0 hi1 hi2 h2
  · rintro b (_ | ⟨_, hb⟩) hlt i hi1 hi2
    · change 0x400 < clusterOf (s.manager.address c) + clusters size at hlt
      change clusterOf (s.manager.address c) + clusters size ≤ i at hi1
      rw [hnew] at hlt hi1
      exact (h.tMalloc_crossing hs hf h2 hi2).1 hlt hi1
    · exact (h.tMalloc_crossing hs hf h2 hi2).2 b hb hlt hi1

/-- The table after `t_free` of a live block. -/
theorem Inv.tFree_eq {b : Block} (hb : b ∈ s.live) : Heap.tFree s.manager b.ptr = { s.manager with
    memsmall := Cells.fill s.manager.memsmall (clusterOf b.ptr) 0 (cleared (clusterOf b.ptr) b.size) } := by
  have := tFree_marked s.manager (clusterOf b.ptr) b.size (h.first b hb).2 (h.size_le b hb)
    (h.marked b hb)
  rwa [← h.address b hb] at this

/-- Freeing a live block changes no table byte outside its range. -/
theorem Inv.tFree_frame {b : Block} (hb : b ∈ s.live) (i : Nat) (hi : i ∉ b.range) :
    (Heap.tFree s.manager b.ptr).memsmall i = s.manager.memsmall i := by
  have hle := cleared_le (clusterOf b.ptr) b.size
  rw [h.tFree_eq hb]
  apply Cells.fill_of_outside
  rw [Block.range, Finset.mem_Ico] at hi
  omega

/-- What is zero stays zero. -/
theorem Inv.tFree_zero {b : Block} (hb : b ∈ s.live) (i : Nat) (hi : s.manager.memsmall i = 0) :
    (Heap.tFree s.manager b.ptr).memsmall i = 0 := by
  rw [h.tFree_eq hb]
  show Cells.fill _ _ _ _ i = 0
  unfold Cells.fill
  split
  · rfl
  · exact hi

/-- `t_free` of a live block that is disjoint from the others keeps the invariant. -/
theorem Inv.tFree {b : Block} (hb : b ∈ s.live)
    (hd : ∀ b' ∈ s.live.erase b, Disjoint b.range b'.range) :
    Inv ⟨Heap.tFree s.manager b.ptr, s.live.erase b⟩ := by
  have heq := h.tFree_eq hb
  have hfirst := h.first b hb
  refine ⟨?_, ?_, ?_, ?_, ?_, ?_, ?_, ?_⟩
  · show (Heap.tFree s.manager b.ptr).memoryManagerStartAddress = _
    rw [heq]
    exact h.start
  · show (Heap.tFree s.manager b.ptr).memsmall 0 ≠ 0
    rw [h.tFree_frame hb 0 (by rw [Block.range, Finset.mem_Ico]; omega)]
    exact h.reserved
  · intro b' hb'
    show b'.ptr = (Heap.tFree s.manager b.ptr).address _
    rw [heq]
    exact h.address b' (List.mem_of_mem_erase hb')
  · exact fun b' hb' => h.size_le b' (List.mem_of_mem_erase hb')
  · exact fun b' hb' => h.first b' (List.mem_of_mem_erase hb')
  · intro b' hb'
    show Cells.read (Heap.tFree s.manager b.ptr).memsmall _ _ = _
    rw [← h.marked b' (List.mem_of_mem_erase hb')]
    apply Cells.read_congr
    intro i hi1 hi2
    exact h.tFree_frame hb i fun hi =>
      Finset.disjoint_left.1 (hd b' hb') hi (Finset.mem_Ico.2 ⟨hi1, hi2⟩)
  · intro h0 i hi1 hi2
    show (Heap.tFree s.manager b.ptr).memsmall i = 0
    by_cases hz : s.manager.memsmall 0x400 = 0
    · exact h.tFree_zero hb i (h.tail hz i hi1 hi2)
    · -- the byte at 0x400 was this block's: all of its tail is cleared
      change (Heap.tFree s.manager b.ptr).memsmall 0x400 = 0 at h0
      have hle := cleared_le (clusterOf b.ptr) b.size
      have hlt : 0x400 < clusterOf b.ptr + cleared (clusterOf b.ptr) b.size := by
        by_contra hcon
        rw [heq] at h0
        exact hz ((Cells.fill_of_outside _ _ _ _ _ (by omega)).symm.trans h0)
      have hall := cleared_past_end hfirst.2 hlt
      by_cases hi : i < clusterOf b.ptr + clusters b.size
      · rw [heq]
        exact Cells.fill_apply _ _ _ _ _ (by omega)
      · exact h.tFree_zero hb i (h.crossing b hb (by omega) i (by omega) hi2)
  · intro b' hb' hlt i hi1 hi2
    exact h.tFree_zero hb i (h.crossing b' (List.mem_of_mem_erase hb') hlt i hi1 hi2)

end

/-! ## The heap is an arena -/

/-- The invariant, and the ranges of the live blocks are the sets that are out. -/
def Refines (s : State) (l : List (Finset Nat)) : Prop := Inv s ∧ l.Perm (s.live.map Block.range)

theorem Refines.disjoint_erase {s : State} {l : List (Finset Nat)} (h : Refines s l)
    (hl : l.Pairwise Disjoint) {b : Block} (hb : b ∈ s.live) :
    ∀ b' ∈ s.live.erase b, Disjoint b.range b'.range := by
  have hp : l.Perm (b.range :: (s.live.erase b).map Block.range) :=
    h.2.trans ((List.perm_cons_erase hb).map Block.range)
  have hw := (hp.pairwise_iff fun hxy => hxy.symm).1 hl
  intro b' hb'
  exact List.rel_of_pairwise_cons hw (List.mem_map_of_mem hb')

/-- **The heap refines the arena with cluster 0 reserved.** -/
theorem heap_simulation : Machine.Simulation heap (Arena.arena {0}) Refines where
  init := by
    rintro s ⟨mem, rfl⟩
    exact ⟨[], rfl, inv_start mem, .nil⟩
  step := by
    rintro s a s' l hl ⟨hinv, hperm⟩ hn
    have hpw := Arena.pairwise_disjoint l hl
    cases a with
    | tMalloc size =>
      rcases next_tMalloc hinv.start hn with rfl | ⟨c, hs, hc, rfl⟩
      · left
        exact ⟨hinv, hperm⟩
      · right
        obtain ⟨hf, ⟨h1, h2⟩, -⟩ := (firstFree_eq_some _ _ _).1 hc
        have hb : (⟨s.manager.address c, size⟩ : Block).range = Finset.Ico c (c + clusters size) := by
          unfold Block.range
          rw [clusterOf_address _ _ hinv.start h2]
        refine ⟨.take (Finset.Ico c (c + clusters size)), Finset.Ico c (c + clusters size) :: l,
          ?_, ?_⟩
        · simp only [Arena.arena]
          rw [if_pos]
          refine ⟨?_, fun x hx => ?_⟩
          · rw [Finset.disjoint_singleton_left, Finset.mem_Ico]
            omega
          · obtain ⟨b, hbm, rfl⟩ := List.mem_map.1 (hperm.mem_iff.1 hx)
            exact hinv.freeRun_disjoint hf b hbm
        · refine ⟨hinv.tMalloc hs hc, ?_⟩
          rw [List.map_cons, hb]
          exact hperm.cons _
    | tFree ptr =>
      right
      obtain ⟨b, hb, rfl, rfl⟩ := next_tFree hn
      refine ⟨.giveBack b.range, l.erase b.range, ?_, ?_, ?_⟩
      · simp only [Arena.arena]
        rw [if_pos (hperm.mem_iff.2 (List.mem_map_of_mem hb))]
      · exact hinv.tFree hb (Refines.disjoint_erase ⟨hinv, hperm⟩ hpw hb)
      · have hp : l.Perm (b.range :: (s.live.erase b).map Block.range) :=
          hperm.trans ((List.perm_cons_erase hb).map Block.range)
        have := hp.erase b.range
        rwa [List.erase_cons_head] at this

theorem inv_reachable {s : State} (h : heap.Reachable s) : Inv s := by
  obtain ⟨l, -, hinv, -⟩ := heap_simulation.reachable h
  exact hinv

/-! ## Top theorem -/

/-- **Live blocks.**  In every reachable state the cluster ranges of the live
blocks are pairwise disjoint, none contains cluster 0, each covers the size
asked for and holds its marks, and freeing one block leaves the table bytes of
every other as they are. -/
theorem liveBlocks_wellFormed (s : State) (hs : heap.Reachable s) :
    s.live.Pairwise (fun b b' => Disjoint b.range b'.range) ∧
    (∀ b ∈ s.live, 0 ∉ b.range) ∧
    (∀ b ∈ s.live, b.size.toNat ≤ b.range.card * 0x4000) ∧
    (∀ b ∈ s.live, Marked s.manager.memsmall (clusterOf b.ptr) b.size) ∧
    ∀ b ∈ s.live, ∀ t, heap.next s (.tFree b.ptr) = some t →
      ∀ b' ∈ s.live.erase b, ∀ i ∈ b'.range, t.manager.memsmall i = s.manager.memsmall i := by
  obtain ⟨l, hl, hinv, hperm⟩ := heap_simulation.reachable hs
  have hpw := Arena.pairwise_disjoint l hl
  refine ⟨?_, ?_, ?_, hinv.marked, ?_⟩
  · have := (hperm.pairwise_iff fun hxy => hxy.symm).1 hpw
    rwa [List.pairwise_map] at this
  · intro b hb
    have := Arena.disjoint_reserved l hl b.range (hperm.mem_iff.2 (List.mem_map_of_mem hb))
    rwa [Finset.disjoint_singleton_left] at this
  · intro b hb
    rw [Block.range, Nat.card_Ico, Nat.add_sub_cancel_left]
    exact size_le_clusters b.size (hinv.size_le b hb)
  · intro b hb t ht b' hb' i hi
    obtain ⟨b₀, -, hptr, rfl⟩ := next_tFree ht
    have hd := Refines.disjoint_erase ⟨hinv, hperm⟩ hpw hb b' hb'
    exact hinv.tFree_frame hb i fun hib => Finset.disjoint_left.1 hd hib hi

theorem liveBlocks_wellFormed_mixed : ∃ s, heap.Reachable s ∧
    s.live.map (fun b => (clusterOf b.ptr, b.size)) = [(2, 0x5000), (6, 0x20000), (1, 1)] ∧
    s.live.Pairwise (fun b b' => Disjoint b.range b'.range) ∧
    (∀ b ∈ s.live, 0 ∉ b.range) ∧
    (∀ b ∈ s.live, b.size.toNat ≤ b.range.card * 0x4000) ∧
    (∀ b ∈ s.live, Marked s.manager.memsmall (clusterOf b.ptr) b.size) ∧
    ∀ b ∈ s.live, ∀ t, heap.next s (.tFree b.ptr) = some t →
      ∀ b' ∈ s.live.erase b, ∀ i ∈ b'.range, t.manager.memsmall i = s.manager.memsmall i := by
  let acts : List Action := [.tMalloc 1, .tMalloc 0xFFFF, .tMalloc 0x20000,
    .tFree (memoryManagerStart + 2 * 0x4000), .tMalloc 0x5000]
  have hlive : (heap.run (start fun _ => 0) acts).map
      (fun s => s.live.map fun b => (clusterOf b.ptr, b.size)) =
        some [(2, 0x5000), (6, 0x20000), (1, 1)] := by decide +kernel
  obtain ⟨s, hs, hl⟩ := Option.map_eq_some_iff.1 hlive
  have hr : heap.Reachable s := .run (.of_init ⟨_, rfl⟩) hs
  exact ⟨s, hr, hl, liveBlocks_wellFormed s hr⟩

end Gentoox.Heap
