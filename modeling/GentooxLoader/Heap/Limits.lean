import GentooxLoader.Heap.Live

/-!
# The end of the table and the way back

The search of `t_malloc` bounds the first cluster of a run only, so that a run
may pass the 0x400 managed clusters when nothing inside is long enough
(`tMalloc_inside_iff`); and `t_free` misses the marks of a five-cluster block
(`tFree_restores_iff`).  In runs that avoid both, the table holds the marks of
the live blocks and nothing else (`exact_reachable`).
-/

namespace Gentoox.Heap

/-- The clusters `[c, c + n)` are managed ones. -/
def Inside (c n : Nat) : Prop := 1 ≤ c ∧ c + n ≤ 0x400

instance (c n : Nat) : Decidable (Inside c n) := by unfold Inside; infer_instance

/-- Some run of `n` free clusters lies inside the managed clusters. -/
def HasInsideRun (t : Nat → UInt8) (n : Nat) : Prop := ∃ c < 0x400, Inside c n ∧ FreeRun t c n

instance (t : Nat → UInt8) (n : Nat) : Decidable (HasInsideRun t n) := by
  unfold HasInsideRun; infer_instance

/-- A successful `t_malloc` stays inside, and it fails when no run is there. -/
def StaysInside (m : Manager) (size : UInt32) : Prop :=
  ((tMalloc m size).1 ≠ 0 → Inside (clusterOf (tMalloc m size).1) (clusters size)) ∧
  (¬ HasInsideRun m.memsmall (clusters size) → (tMalloc m size).1 = 0)

/-- A run is there, or the last managed cluster or the byte behind it is in use. -/
def HasRoom (m : Manager) (size : UInt32) : Prop :=
  HasInsideRun m.memsmall (clusters size) ∨ m.memsmall 0x3ff ≠ 0 ∨ m.memsmall 0x400 ≠ 0

instance (m : Manager) (size : UInt32) : Decidable (HasRoom m size) := by
  unfold HasRoom; infer_instance

/-- The first free run is inside if any is. -/
theorem firstFree_inside {t : Nat → UInt8} {n c : Nat} (hc : firstFree t n = some c)
    (h : HasInsideRun t n) : Inside c n := by
  obtain ⟨-, ⟨h1, -⟩, hmin⟩ := (firstFree_eq_some _ _ _).1 hc
  obtain ⟨c₀, -, ⟨h3, h4⟩, hf⟩ := h
  refine ⟨h1, ?_⟩
  by_contra hcon
  exact hmin c₀ h3 (by omega) hf

/-- A run that is not inside starts at the end of the table. -/
theorem firstFree_outside {t : Nat → UInt8} {n c : Nat} (hc : firstFree t n = some c)
    (h : ¬ Inside c n) : t 0x3ff = 0 ∧ t 0x400 = 0 := by
  obtain ⟨hf, ⟨h1, h2⟩, -⟩ := (firstFree_eq_some _ _ _).1 hc
  unfold Inside at h
  have e1 := hf (0x3ff - c) (by omega)
  have e2 := hf (0x400 - c) (by omega)
  rw [show c + (0x3ff - c) = 0x3ff by omega] at e1
  rw [show c + (0x400 - c) = 0x400 by omega] at e2
  exact ⟨e1, e2⟩

theorem hasRoom_inside {m : Manager} {size : UInt32} {c : Nat} (h : HasRoom m size)
    (hc : firstFree m.memsmall (clusters size) = some c) : Inside c (clusters size) := by
  by_contra hout
  obtain ⟨e1, e2⟩ := firstFree_outside hc hout
  rcases h with h | h | h
  · exact hout (firstFree_inside hc h)
  · exact h e1
  · exact h e2

theorem staysInside_of_hasRoom {m : Manager} {size : UInt32}
    (hm : m.memoryManagerStartAddress = memoryManagerStart) (h : HasRoom m size) :
    StaysInside m size := by
  unfold StaysInside
  rcases tMalloc_cases m size with he | ⟨c, -, hc, he⟩
  · rw [he]
    exact ⟨fun h0 => absurd rfl h0, fun _ => rfl⟩
  · have hin := hasRoom_inside h hc
    obtain ⟨hf, ⟨-, hlt⟩, -⟩ := (firstFree_eq_some _ _ _).1 hc
    rw [he, clusterOf_address m c hm hlt]
    exact ⟨fun _ => hin, fun hno => absurd ⟨c, hlt, hin, hf⟩ hno⟩

theorem hasRoom_of_staysInside {s : State} (hinv : Inv s) {size : UInt32} (hs : size ≤ maxSize)
    (h : StaysInside s.manager size) : HasRoom s.manager size := by
  unfold HasRoom
  by_contra hcon
  rw [not_or, not_or, not_not, not_not] at hcon
  obtain ⟨hno, e1, e2⟩ := hcon
  -- with both bytes free the whole tail is, and the run at 0x3ff is taken
  have hle := clusters_le size hs
  have hrun : FreeRun s.manager.memsmall 0x3ff (clusters size) := by
    intro i hi
    rcases Nat.eq_zero_or_pos i with rfl | hpos
    · exact e1
    · exact hinv.tail e2 (0x3ff + i) (by omega) (by omega)
  cases hc : firstFree s.manager.memsmall (clusters size) with
  | none => exact (firstFree_eq_none _ _).1 hc 0x3ff (by omega) (by omega) hrun
  | some c =>
    have hlt := ((firstFree_eq_some _ _ _).1 hc).2.1.2
    have h0 := h.2 hno
    rw [tMalloc_eq, if_pos hs, hc] at h0
    exact address_ne_zero _ c hinv.start hlt h0

/-! ## Runs that stay inside and free whole blocks -/

/-- Every `t_malloc` finds room. -/
def RoomGuard (s : State) : Action → Prop
  | .tMalloc size => HasRoom s.manager size
  | .tFree _ => True

instance : ∀ s a, Decidable (RoomGuard s a)
  | s, .tMalloc size => inferInstanceAs (Decidable (HasRoom s.manager size))
  | _, .tFree _ => inferInstanceAs (Decidable True)

/-- What every `t_malloc` of a run promises of its block, each live block has. -/
theorem live_of_guard {G : State → Action → Prop} [∀ s a, Decidable (G s a)]
    {P : Nat → UInt32 → Prop} (hG : ∀ s size c, G s (.tMalloc size) →
      firstFree s.manager.memsmall (clusters size) = some c → P c size) :
    ∀ s, (heap.guard G).Reachable s → ∀ b ∈ s.live, P (clusterOf b.ptr) b.size := by
  intro s hs
  refine hs.induction (I := fun s => ∀ b ∈ s.live, P (clusterOf b.ptr) b.size) ?_ ?_
  · rintro s ⟨mem, rfl⟩ b hb
    cases hb
  · intro s a s' hr ih hn
    have hinv := inv_reachable hr.of_guard
    obtain ⟨hg, hn⟩ := Machine.guard_next.1 hn
    cases a with
    | tMalloc size =>
      rcases next_tMalloc hinv.start hn with rfl | ⟨c, -, hc, rfl⟩
      · exact ih
      · rintro b (_ | ⟨_, hb⟩)
        · show P (clusterOf (s.manager.address c)) size
          rw [clusterOf_address _ c hinv.start ((firstFree_eq_some _ _ _).1 hc).2.1.2]
          exact hG s size c hg hc
        · exact ih b hb
    | tFree ptr =>
      obtain ⟨b, -, -, rfl⟩ := next_tFree hn
      exact fun b' hb' => ih b' (List.mem_of_mem_erase hb')

theorem live_inside : ∀ s, (heap.guard RoomGuard).Reachable s →
    ∀ b ∈ s.live, Inside (clusterOf b.ptr) (clusters b.size) :=
  live_of_guard (P := fun c size => Inside c (clusters size)) fun _ _ _ hg hc =>
    hasRoom_inside hg hc

/-- A size whose block has five clusters. -/
def FiveClusters (size : UInt32) : Prop := 0x10000 < size ∧ size < 0x14000

instance (size : UInt32) : Decidable (FiveClusters size) := by unfold FiveClusters; infer_instance

/-- Every `t_malloc` finds room and asks for no five-cluster block. -/
def WholeGuard (s : State) : Action → Prop
  | .tMalloc size => HasRoom s.manager size ∧ ¬ FiveClusters size
  | .tFree _ => True

instance : ∀ s a, Decidable (WholeGuard s a)
  | s, .tMalloc size => inferInstanceAs (Decidable (HasRoom s.manager size ∧ ¬ FiveClusters size))
  | _, .tFree _ => inferInstanceAs (Decidable True)

/-- The table marks cluster 0 and the clusters of the live blocks, no others. -/
def Exact (s : State) : Prop :=
  ∀ i, i < 0x4000 → (s.manager.memsmall i ≠ 0 ↔ i = 0 ∨ ∃ b ∈ s.live, i ∈ b.range)

/-- Allocating the first free run and freeing it again gives back the table. -/
theorem tFree_tMalloc (m : Manager) {size : UInt32} {c : Nat} (hs : size ≤ maxSize)
    (hc : firstFree m.memsmall (clusters size) = some c) :
    (tFree { m with memsmall := Cells.write m.memsmall c (marks size) } (m.address c)).memsmall =
      Cells.fill (Cells.write m.memsmall c (marks size)) c 0 (cleared c size) := by
  have hlt := ((firstFree_eq_some _ _ _).1 hc).2.1.2
  have hmark : Marked (Cells.write m.memsmall c (marks size)) c size := by
    unfold Marked
    rw [← length_marks size hs]
    exact Cells.read_write _ _ _
  have := tFree_marked { m with memsmall := Cells.write m.memsmall c (marks size) } c size hlt hs hmark
  exact congrArg Manager.memsmall this

theorem exact_start (mem : Nat → UInt8) : Exact (start mem) := by
  intro i hi
  have h0 : (start mem).manager.memsmall i = if i = 0 then 0xff else 0 := by
    show Function.update (Cells.fill mem 0 0x0 0x4000) 0 0xff i = _
    rw [Function.update_apply, Cells.fill_apply _ _ _ _ _ (by omega)]
  rw [h0]
  by_cases hi0 : i = 0 <;> simp [hi0, start]

theorem Exact.tMalloc {s : State} (h : Exact s) (hinv : Inv s) {size : UInt32} {c : Nat}
    (hs : size ≤ maxSize) (hc : firstFree s.manager.memsmall (clusters size) = some c) :
    Exact ⟨{ s.manager with memsmall := Cells.write s.manager.memsmall c (marks size) },
      ⟨s.manager.address c, size⟩ :: s.live⟩ := by
  have hlt := ((firstFree_eq_some _ _ _).1 hc).2.1.2
  have hlen := length_marks size hs
  intro i hi
  have hb : i ∈ (⟨s.manager.address c, size⟩ : Block).range ↔ c ≤ i ∧ i < c + clusters size := by
    rw [Block.range, clusterOf_address s.manager c hinv.start hlt, Finset.mem_Ico]
  show Cells.write s.manager.memsmall c (marks size) i ≠ 0 ↔ _
  rw [List.exists_mem_cons_iff, hb]
  by_cases hin : c ≤ i ∧ i < c + clusters size
  · have hne : Cells.write s.manager.memsmall c (marks size) i ≠ 0 := by
      obtain ⟨k, rfl⟩ : ∃ k, i = c + k := ⟨i - c, by omega⟩
      rw [Cells.write_apply _ _ _ _ (by omega)]
      exact marks_ne_zero size _ (List.getElem_mem _)
    simp only [hne, hin, and_self, true_or, or_true, ne_eq, not_false_eq_true]
  · rw [Cells.write_of_outside _ _ _ _ (by omega), h i hi]
    simp only [hin, false_or]

theorem Exact.tFree {s : State} (h : Exact s) (hinv : Inv s) {b : Block} (hb : b ∈ s.live)
    (hall : cleared (clusterOf b.ptr) b.size = clusters b.size)
    (hd : ∀ b' ∈ s.live.erase b, Disjoint b.range b'.range) :
    Exact ⟨Heap.tFree s.manager b.ptr, s.live.erase b⟩ := by
  intro i hi
  have hfirst := (hinv.first b hb).1
  show (Heap.tFree s.manager b.ptr).memsmall i ≠ 0 ↔ i = 0 ∨ ∃ b' ∈ s.live.erase b, i ∈ b'.range
  by_cases hi' : i ∈ b.range
  · -- this block's cluster: cleared, and in no other range
    have hz : (Heap.tFree s.manager b.ptr).memsmall i = 0 := by
      rw [hinv.tFree_eq hb, hall]
      rw [Block.range, Finset.mem_Ico] at hi'
      exact Cells.fill_apply _ _ _ _ _ hi'
    have hno : ¬ ∃ b' ∈ s.live.erase b, i ∈ b'.range := by
      rintro ⟨b', hb', hib⟩
      exact Finset.disjoint_left.1 (hd b' hb') hi' hib
    rw [Block.range, Finset.mem_Ico] at hi'
    simp only [hz, hno, or_false, ne_eq, not_true_eq_false, false_iff]
    omega
  · rw [hinv.tFree_frame hb i hi', h i hi]
    apply or_congr_right
    constructor
    · rintro ⟨b', hb', hib⟩
      rcases List.mem_cons.1 ((List.perm_cons_erase hb).mem_iff.1 hb') with rfl | hb'
      · exact absurd hib hi'
      · exact ⟨b', hb', hib⟩
    · rintro ⟨b', hb', hib⟩
      exact ⟨b', List.mem_of_mem_erase hb', hib⟩

theorem live_whole : ∀ s, (heap.guard WholeGuard).Reachable s →
    ∀ b ∈ s.live, Inside (clusterOf b.ptr) (clusters b.size) ∧ ¬ FiveClusters b.size :=
  live_of_guard (P := fun c size => Inside c (clusters size) ∧ ¬ FiveClusters size)
    fun _ _ _ hg hc => ⟨hasRoom_inside hg.1 hc, hg.2⟩

theorem exact_reachable : ∀ s, (heap.guard WholeGuard).Reachable s → Exact s := by
  intro s hs
  refine hs.induction (I := Exact) ?_ ?_
  · rintro s ⟨mem, rfl⟩
    exact exact_start mem
  · intro s a s' hr hex hn
    have hinv := inv_reachable hr.of_guard
    obtain ⟨l, hl, -, hperm⟩ := heap_simulation.reachable hr.of_guard
    obtain ⟨-, hn⟩ := Machine.guard_next.1 hn
    cases a with
    | tMalloc size =>
      rcases next_tMalloc hinv.start hn with rfl | ⟨c, hs, hc, rfl⟩
      · exact hex
      · exact hex.tMalloc hinv hs hc
    | tFree ptr =>
      obtain ⟨b, hb, rfl, rfl⟩ := next_tFree hn
      obtain ⟨hin, hfive⟩ := live_whole s hr b hb
      have hs := hinv.size_le b hb
      have hall : cleared (clusterOf b.ptr) b.size = clusters b.size := by
        rw [cleared_eq_clusters_iff _ _ hs hin.2, Ne, clusters_eq_five_iff _ hs]
        exact hfive
      have hd := Refines.disjoint_erase ⟨hinv, hperm⟩ (Arena.pairwise_disjoint l hl) hb
      exact hex.tFree hinv hb hall hd

/-! ## Top theorems -/

/-- **Staying inside.**  In every reachable state `t_malloc` keeps to the managed
clusters and fails when they hold no run exactly when there is room; and where
every `t_malloc` of a run finds room all live blocks are inside. -/
theorem tMalloc_inside_iff (s : State) :
    (heap.Reachable s → ∀ size, size ≤ maxSize →
      (StaysInside s.manager size ↔ HasRoom s.manager size)) ∧
    ((heap.guard RoomGuard).Reachable s →
      ∀ b ∈ s.live, Inside (clusterOf b.ptr) (clusters b.size)) :=
  ⟨fun hs _ hsize => ⟨hasRoom_of_staysInside (inv_reachable hs) hsize,
    staysInside_of_hasRoom (inv_reachable hs).start⟩, live_inside s⟩

theorem tMalloc_inside_iff_fresh :
    (StaysInside (start fun _ => 0).manager 0x20000 ↔ HasRoom (start fun _ => 0).manager 0x20000) ∧
    ∃ s, (heap.guard RoomGuard).run (start fun _ => 0) [.tMalloc 0x20000, .tMalloc 3] = some s ∧
      s.live.map (fun b => clusterOf b.ptr) = [10, 1] ∧
      ∀ b ∈ s.live, Inside (clusterOf b.ptr) (clusters b.size) := by
  refine ⟨(tMalloc_inside_iff _).1 (.of_init ⟨_, rfl⟩) _ (by decide), ?_⟩
  have hlive : ((heap.guard RoomGuard).run (start fun _ => 0) [.tMalloc 0x20000, .tMalloc 3]).map
      (fun s => s.live.map fun b => clusterOf b.ptr) = some [10, 1] := by decide +kernel
  obtain ⟨s, hs, hl⟩ := Option.map_eq_some_iff.1 hlive
  exact ⟨s, hs, hl, (tMalloc_inside_iff s).2 (.run (.of_init ⟨_, rfl⟩) hs)⟩

/-- Three blocks of 5 MiB leave 60 clusters; the 65 of a request of 1 MiB are
then taken from cluster 964 on and pass the end at 1024. -/
theorem tMalloc_leaves_the_heap :
    ¬ ∀ s, heap.Reachable s → ∀ size, size ≤ maxSize → StaysInside s.manager size := by
  intro h
  have hrun : (heap.run (start fun _ => 0) [.tMalloc maxSize, .tMalloc maxSize, .tMalloc maxSize]).map
      (fun s => (tMalloc s.manager 0x100000).1) = some (memoryManagerStart + 964 * 0x4000) := by
    decide +kernel
  obtain ⟨s, hs, hp⟩ := Option.map_eq_some_iff.1 hrun
  have hin := (h s (.run (.of_init ⟨_, rfl⟩) hs) 0x100000 (by decide)).1
  rw [hp] at hin
  exact absurd (hin (by decide)) (by decide +kernel)

/-- `t_free` of what `t_malloc` just returned gives back the table. -/
def Restores (m : Manager) (size : UInt32) : Prop :=
  (tFree (tMalloc m size).2 (tMalloc m size).1).memsmall = m.memsmall

/-- **The way back.**  Freeing a block inside the managed clusters right after it
was allocated restores the table exactly when it has not five clusters; and
where every `t_malloc` of a run finds room and none asks for five clusters, the
table marks the live blocks only. -/
theorem tFree_restores_iff (s : State) :
    (heap.Reachable s → ∀ size, (tMalloc s.manager size).1 ≠ 0 →
      Inside (clusterOf (tMalloc s.manager size).1) (clusters size) →
      (Restores s.manager size ↔ ¬ FiveClusters size)) ∧
    ((heap.guard WholeGuard).Reachable s → Exact s) := by
  refine ⟨?_, exact_reachable s⟩
  intro hr size h0 hin
  have hm := (inv_reachable hr).start
  rcases tMalloc_cases s.manager size with he | ⟨c, hs, hc, he⟩
  · rw [he] at h0
    exact absurd rfl h0
  · obtain ⟨hf, ⟨-, hlt⟩, -⟩ := (firstFree_eq_some _ _ _).1 hc
    have hlen := length_marks size hs
    rw [he, clusterOf_address _ c hm hlt] at hin
    unfold Restores
    rw [he, tFree_tMalloc s.manager hs hc, FiveClusters, ← clusters_eq_five_iff size hs,
      ← Ne, ← cleared_eq_clusters_iff c size hs hin.2]
    constructor
    · intro heq
      by_contra hne
      -- a mark behind the cleared bytes is still there
      have hle := cleared_le c size
      have hcell := congrFun heq (c + cleared c size)
      rw [Cells.fill_of_outside _ _ _ _ _ (by omega), Cells.write_apply _ _ _ _ (by omega),
        hf _ (by omega)] at hcell
      exact marks_ne_zero size _ (List.getElem_mem _) hcell
    · intro hall
      rw [hall, ← hlen]
      exact Cells.fill_write _ _ _ _ fun i hi => hf i (by omega)

theorem tFree_restores_iff_six :
    (Restores (start fun _ => 0).manager 0x14000 ↔ ¬ FiveClusters 0x14000) ∧
    ∃ s, (heap.guard WholeGuard).run (start fun _ => 0) [.tMalloc 0x14000, .tMalloc 3] = some s ∧
      s.live.map (fun b => clusterOf b.ptr) = [7, 1] ∧ Exact s := by
  refine ⟨(tFree_restores_iff _).1 (.of_init ⟨_, rfl⟩) _ (by decide +kernel) (by decide +kernel), ?_⟩
  have hlive : ((heap.guard WholeGuard).run (start fun _ => 0) [.tMalloc 0x14000, .tMalloc 3]).map
      (fun s => s.live.map fun b => clusterOf b.ptr) = some [7, 1] := by decide +kernel
  obtain ⟨s, hs, hl⟩ := Option.map_eq_some_iff.1 hlive
  exact ⟨s, hs, hl, (tFree_restores_iff s).2 (.run (.of_init ⟨_, rfl⟩) hs)⟩

/-- A block of 0x10001 bytes on the empty heap: cluster 1 is still marked after
`t_free`. -/
theorem tFree_leaves_marks :
    ¬ ∀ s, heap.Reachable s → ∀ size, (tMalloc s.manager size).1 ≠ 0 →
      Inside (clusterOf (tMalloc s.manager size).1) (clusters size) → Restores s.manager size := by
  intro h
  have hres := h (start fun _ => 0) (.of_init ⟨_, rfl⟩) 0x10001 (by decide +kernel) (by decide +kernel)
  exact absurd (congrFun hres 1) (by decide +kernel)

end Gentoox.Heap
