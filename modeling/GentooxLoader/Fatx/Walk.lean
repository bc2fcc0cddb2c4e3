import GentooxLoader.Fatx.Entries
import GentooxLoader.Fatx.Open
import Mathlib.Data.Int.Interval
import Mathlib.Order.Interval.Set.Infinite
import Mathlib.Logic.Function.Iterate

/-!
# Walks along the chain map

Every cluster loop loads a cluster, does something with the buffer and follows
the link in the chain map.  Where the walk goes depends on the map alone, what
the buffers hold on the reads; what a loop does with a buffer is its body:

    repeats_iff       a walk without an end comes to a cluster twice
    walk_cases        the walk ends, or the body ends it, or neither ever
    Walks.comes       a loop comes as far as the walk and the body let it
    Walks.never_ends  and does not return where neither ends
-/

namespace Gentoox.Fatx

open Cells Ide Lib Loops

/-! ## Walks -/

/-- The variables that all the cluster loops have. -/
structure Walk where
  clusterId : Int
  clusterData : Nat → UInt8
  reads : Nat

/-- Before the first turn of a loop. -/
def Walk.start (env : Env) (clusterId : Int) (reads : Nat) : Walk :=
  ⟨clusterId, env.stack reads, reads⟩

/-- `clusterId = getNextClusterInChain(partition, clusterId)` -/
def link (p : FATXPartition) (clusterId : Int) : Int := signed (getNextClusterInChain p clusterId)

/-- After `LoadFATXCluster`. -/
def Walk.load (env : Env) (p : FATXPartition) (w : Walk) : Walk :=
  match loadFATXCluster env p w.clusterId w.clusterData w.reads with
  | none => w
  | some (clusterData, reads) => { w with clusterData, reads }

/-- On to the next cluster. -/
def Walk.next (env : Env) (p : FATXPartition) (w : Walk) : Walk :=
  { w.load env p with clusterId := link p w.clusterId }

def Walk.after (env : Env) (p : FATXPartition) : Nat → Walk → Walk
  | 0, w => w
  | n + 1, w => (w.next env p).after env p n

/-- The first `n` buffers of the walk. -/
def buffers (env : Env) (p : FATXPartition) : Nat → Walk → List (Nat → UInt8)
  | 0, _ => []
  | n + 1, w => (w.load env p).clusterData :: buffers env p n (w.next env p)

/-- The entries in them. -/
def seen (env : Env) (p : FATXPartition) (n : Nat) (w : Walk) : List DirEntry :=
  (buffers env p n w).flatMap entriesOf

/-- The walk has `n` clusters at least. -/
def Long (p : FATXPartition) (clusterId : Int) (n : Nat) : Prop :=
  ∀ k, k < n → (link p)^[k] clusterId ≠ -1

/-- The walk comes to a cluster twice. -/
def Repeats (p : FATXPartition) (clusterId : Int) : Prop :=
  ∃ i j, i < j ∧ (link p)^[i] clusterId = (link p)^[j] clusterId ∧
    ∀ k, k ≤ j → (link p)^[k] clusterId ≠ -1

section
variable {env : Env} {p : FATXPartition}

theorem load_eq (hg : Geometry p) (w : Walk) :
    loadFATXCluster env p w.clusterId w.clusterData w.reads =
      some ((w.load env p).clusterData, (w.load env p).reads) := by
  obtain ⟨clusterData', n, h, -⟩ :=
    loadFATXCluster_reads env hg w.clusterId w.clusterData w.reads
  unfold Walk.load
  rw [h]

variable (env p) in
theorem after_clusterId (n : Nat) (w : Walk) :
    (w.after env p n).clusterId = (link p)^[n] w.clusterId := by
  induction n generalizing w with
  | zero => rfl
  | succ n ih => exact ih (w.next env p)

theorem after_succ (n : Nat) (w : Walk) :
    w.after env p (n + 1) = (w.after env p n).next env p := by
  induction n generalizing w with
  | zero => rfl
  | succ n ih => exact ih (w.next env p)

theorem buffers_succ (n : Nat) (w : Walk) : buffers env p (n + 1) w =
    buffers env p n w ++ [((w.after env p n).load env p).clusterData] := by
  induction n generalizing w with
  | zero => rfl
  | succ n ih => exact congrArg (_ :: ·) (ih (w.next env p))

theorem seen_succ (n : Nat) (w : Walk) : seen env p (n + 1) w =
    seen env p n w ++ entriesOf ((w.after env p n).load env p).clusterData := by
  unfold seen
  rw [buffers_succ, List.flatMap_append, List.flatMap_singleton]

theorem long_succ {clusterId : Int} {n : Nat} :
    Long p clusterId (n + 1) ↔ Long p clusterId n ∧ (link p)^[n] clusterId ≠ -1 := by
  constructor
  · exact fun h => ⟨fun k hk => h k (by omega), h n (by omega)⟩
  · rintro ⟨h, hn⟩ k hk
    rcases Nat.lt_succ_iff_lt_or_eq.1 hk with hk | rfl
    · exact h k hk
    · exact hn

theorem long_cons {clusterId : Int} {n : Nat} :
    Long p clusterId (n + 1) ↔ clusterId ≠ -1 ∧ Long p (link p clusterId) n := by
  constructor
  · exact fun h => ⟨h 0 (by omega), fun k hk => h (k + 1) (by omega)⟩
  · rintro ⟨h0, h⟩ k hk
    cases k with
    | zero => exact h0
    | succ k => exact h k (by omega)

theorem long_le {clusterId : Int} {n k : Nat} (h : Long p clusterId n) (hk : k ≤ n) :
    Long p clusterId k := fun i hi => h i (Nat.lt_of_lt_of_le hi hk)

variable (env p) in
theorem seen_prefix (w : Walk) {n k : Nat} (hk : k ≤ n) :
    ∃ l, seen env p n w = seen env p k w ++ l := by
  induction n with
  | zero => exact ⟨[], by rw [Nat.le_zero.1 hk, List.append_nil]⟩
  | succ n ih =>
    rcases Nat.le_succ_iff.1 hk with hk | rfl
    · obtain ⟨l, hl⟩ := ih hk
      exact ⟨l ++ _, by rw [seen_succ, hl, List.append_assoc]⟩
    · exact ⟨[], (List.append_nil _).symm⟩

/-! ## Walks without an end -/

theorem signed_range (x : UInt32) : -0x80000000 ≤ signed x ∧ signed x < 0x80000000 := by
  have hx := x.toNat_lt
  unfold signed
  split <;> omega

/-- There are only so many clusters. -/
theorem repeats_iff (p : FATXPartition) (clusterId : Int) :
    Repeats p clusterId ↔ ∀ n, (link p)^[n] clusterId ≠ -1 := by
  constructor
  · rintro ⟨i, j, hij, heq, hlong⟩ n
    induction n using Nat.strong_induction_on with
    | _ n ih =>
      by_cases hn : n ≤ j
      · exact hlong n hn
      -- from the second time on the walk is where it was a round before
      · have hback : (link p)^[n] clusterId = (link p)^[n - j + i] clusterId := by
          obtain ⟨k, rfl⟩ := Nat.exists_eq_add_of_le (Nat.le_of_lt (Nat.lt_of_not_le hn))
          rw [Nat.add_sub_cancel_left, Nat.add_comm j k, Function.iterate_add_apply,
            Function.iterate_add_apply, heq]
        rw [hback]
        exact ih _ (by omega)
  · intro hlong
    by_contra hnot
    have hinj : Function.Injective fun n => (link p)^[n + 1] clusterId := by
      intro i j hij
      by_contra hne
      rcases Nat.lt_or_gt_of_ne hne with h | h
      · exact hnot ⟨i + 1, j + 1, by omega, hij, fun k _ => hlong k⟩
      · exact hnot ⟨j + 1, i + 1, by omega, hij.symm, fun k _ => hlong k⟩
    refine Set.infinite_of_injective_forall_mem hinj (fun n => ?_)
      (Set.finite_Ico (-0x80000000 : Int) 0x80000000)
    rw [Function.iterate_succ_apply']
    exact Set.mem_Ico.2 (signed_range _)

end

/-! ## Loops -/

section
variable {env : Env} {p : FATXPartition} {α ρ ν τ : Type}
  {body : α → (Nat → UInt8) → Turn α ρ} {turn : ν → Option (Turn ν τ)} {vars : Walk → α → ν}

variable (env p) in
/-- The three ways of a walk: to its end, to a buffer at which the body ends
it, or on and on. -/
theorem walk_cases (body : α → (Nat → UInt8) → Turn α ρ) (w : Walk) (acc : α) :
    (∃ n acc', Long p w.clusterId n ∧ (link p)^[n] w.clusterId = -1 ∧
      forEach body (buffers env p n w) acc = .next acc') ∨
    (∃ n acc' r, Long p w.clusterId (n + 1) ∧ forEach body (buffers env p n w) acc = .next acc' ∧
      body acc' ((w.after env p n).load env p).clusterData = .done r) ∨
    (Repeats p w.clusterId ∧ ∀ n, ∃ acc', forEach body (buffers env p n w) acc = .next acc') := by
  classical
  by_cases hpass : ∀ n, Long p w.clusterId n →
    ∃ acc', forEach body (buffers env p n w) acc = .next acc'
  · by_cases hend : ∃ n, (link p)^[n] w.clusterId = -1
    · have hlong : Long p w.clusterId (Nat.find hend) := fun k hk => Nat.find_min hend hk
      obtain ⟨acc', hacc⟩ := hpass _ hlong
      exact .inl ⟨_, acc', hlong, Nat.find_spec hend, hacc⟩
    · rw [not_exists] at hend
      exact .inr (.inr ⟨(repeats_iff p _).2 hend, fun n => hpass n fun k _ => hend k⟩)
  · rw [not_forall] at hpass
    have hfind := Nat.find_spec hpass
    rw [Classical.not_imp] at hfind
    obtain ⟨hlong, hstop⟩ := hfind
    have hmin := fun m (hm : m < Nat.find hpass) => Nat.find_min hpass hm
    generalize Nat.find hpass = m at hlong hstop hmin
    cases m with
    | zero => exact absurd ⟨acc, rfl⟩ hstop
    | succ n =>
      obtain ⟨acc', hacc⟩ : ∃ acc', forEach body (buffers env p n w) acc = .next acc' := by
        by_contra h
        exact hmin n (Nat.lt_succ_self n) fun hn => h (hn (long_succ.1 hlong).1)
      cases hbody : body acc' ((w.after env p n).load env p).clusterData with
      | done r => exact .inr (.inl ⟨n, acc', r, hlong, hacc, hbody⟩)
      | next acc'' =>
        refine absurd ⟨acc'', ?_⟩ hstop
        rw [buffers_succ, forEach_append, hacc]
        show forEach body [_] acc' = _
        rw [forEach_cons, hbody]
        rfl

/-- The loop with these turns follows the links as long as the body lets it. -/
def Walks (env : Env) (p : FATXPartition) (body : α → (Nat → UInt8) → Turn α ρ)
    (turn : ν → Option (Turn ν τ)) (vars : Walk → α → ν) : Prop :=
  ∀ w acc acc', w.clusterId ≠ -1 → body acc (w.load env p).clusterData = .next acc' →
    turn (vars w acc) = some (.next (vars (w.next env p) acc'))

theorem Walks.comes (h : Walks env p body turn vars) {n : Nat} {w : Walk} {acc acc' : α}
    (hlong : Long p w.clusterId n) (hacc : forEach body (buffers env p n w) acc = .next acc') :
    Comes turn (vars w acc) (vars (w.after env p n) acc') := by
  induction n generalizing w acc with
  | zero =>
    cases hacc
    exact .refl
  | succ n ih =>
    obtain ⟨hid, hlong⟩ := long_cons.1 hlong
    unfold buffers at hacc
    rw [forEach_cons] at hacc
    cases hbody : body acc (w.load env p).clusterData with
    | done r =>
      rw [hbody] at hacc
      cases hacc
    | next acc'' =>
      rw [hbody] at hacc
      exact .head (h w acc acc'' hid hbody) (ih hlong hacc)

theorem Walks.never_ends (h : Walks env p body turn vars) {w : Walk} {acc : α}
    (hrepeats : Repeats p w.clusterId)
    (hpass : ∀ n, ∃ acc', forEach body (buffers env p n w) acc = .next acc') (fuel : Nat) :
    loop turn fuel (vars w acc) = none := by
  -- what lies ahead of the walk is let pass
  refine Loops.never_ends (I := fun v => ∃ w acc, v = vars w acc ∧
    (∀ n, (link p)^[n] w.clusterId ≠ -1) ∧
      ∀ n, ∃ acc', forEach body (buffers env p n w) acc = .next acc') ?_
    ⟨w, acc, rfl, (repeats_iff p _).1 hrepeats, hpass⟩ fuel
  rintro _ ⟨w, acc, rfl, hlong, hpass⟩
  obtain ⟨acc', hacc⟩ := hpass 1
  have hbody : body acc (w.load env p).clusterData = .next acc' := by
    unfold buffers at hacc
    rw [forEach_cons] at hacc
    cases hbody : body acc (w.load env p).clusterData with
    | done r =>
      rw [hbody] at hacc
      cases hacc
    | next acc'' =>
      rw [hbody] at hacc
      exact hacc
  refine ⟨_, h w acc acc' (hlong 0) hbody, w.next env p, acc', rfl, fun n => hlong (n + 1),
    fun n => ?_⟩
  obtain ⟨acc'', hacc⟩ := hpass (n + 1)
  unfold buffers at hacc
  rw [forEach_cons, hbody] at hacc
  exact ⟨acc'', hacc⟩

end

/-! ## Small disks -/

/-- A partition at sector 0 with a table of one sector; `data` is what the sectors
of the clusters begin with, cluster 1 at sector 16. -/
def diskOf (table : List UInt8) (data : UInt32 → List UInt8) : Env where
  sector _ block :=
    if block = 0 then paddedSector [0x46, 0x41, 0x54, 0x58] 0
    else if block = 8 then paddedSector table 0
    else if block < 16 then paddedSector [] 0
    else paddedSector (data block) 0
  fails _ := false
  stack _ _ := 0

def partitionOf (table : List UInt8) : FATXPartition where
  nDriveIndex := 0
  partitionStart := 0
  partitionSize := 0x10000
  clusterSize := 0x4000
  clusterCount := 4
  chainMapEntrySize := 2
  clusterChainMap := withTail (fun _ => 0)
    (write (tail fun _ => 0) 0 (((diskOf table fun _ => []).sectors 0 8 8).take 4096))
  cluster1Address := 0x2000

theorem partitionOf_opened (table : List UInt8) : Opened (partitionOf table) := by
  refine ⟨diskOf table fun _ => [], fun _ _ => some fun _ => 0, 0, 0, 0x10000, 0, 16, ?_⟩
  unfold openFATXPartition
  rw [show signed fatxPartitionHeaderSize = ((4096 : Nat) : Int) from rfl,
    fatxRawRead_ok _ _ _ _ (by decide) _ _ _ fun _ _ => rfl]
  simp only
  have hmagic := (magic_iff (diskOf table fun _ => []) 0 0 fun _ => 0).2 rfl
  rw [if_neg (by decide), if_neg fun h => h hmagic, if_neg (by decide),
    show signed (chainTableBytes (0x10000 / 0x4000 : UInt64).toUInt32 _) = ((4096 : Nat) : Int) from
      by decide,
    fatxRawRead_ok _ _ _ _ (by decide) _ _ _ fun _ _ => rfl]
  rfl

end Gentoox.Fatx
