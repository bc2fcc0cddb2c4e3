import GentooxLoader.Lib.Strings
import GentooxLoader.Fatx.RawRead

/-!
# Partitions and cluster chains (OpenFATXPartition, getNextClusterInChain, LoadFATXCluster)

The chain map of an opened partition has 16 bit or 32 bit entries, and its
clusters start on a sector boundary (`Opened.geometry`).  `Clusters p id ids`
says that a walk from `id` along the map visits `ids` and ends; loading one of
them reads its 32 sectors, or stops at a failing one and drops the status:

    loadFATXCluster_ok      no read fails: the bytes of the cluster
    loadFATXCluster_reads   reads go on until the cluster is read or one fails
-/

namespace Gentoox.Fatx

open Cells Ide Lib

/-! ## Algorithm -/

structure FATXPartition where
  nDriveIndex : Int
  partitionStart : UInt64
  partitionSize : UInt64
  clusterSize : UInt32
  clusterCount : UInt32
  chainMapEntrySize : UInt32
  /-- The memory around the table, from its first byte on. -/
  clusterChainMap : Int → UInt8
  cluster1Address : UInt64

def fatxPartitionHeaderSize : UInt32 := 0x1000
def fatxPartitionMagic : UInt32 := 0x58544146
def fatxChainTableBlockSize : UInt32 := 4096
def fatxRootFatCluster : Int := 1

/-- The `u16` and the `u32` with index `i` of a table. -/
def word (m : Int → UInt8) (i : Int) : UInt32 :=
  (m (2 * i)).toUInt32 + (m (2 * i + 1)).toUInt32 * 2 ^ 8

def dword (m : Int → UInt8) (i : Int) : UInt32 :=
  (m (4 * i)).toUInt32 + (m (4 * i + 1)).toUInt32 * 2 ^ 8 + (m (4 * i + 2)).toUInt32 * 2 ^ 16 +
    (m (4 * i + 3)).toUInt32 * 2 ^ 24

/-- The memory from a pointer on, seen as an array. -/
def tail (m : Int → UInt8) : Nat → UInt8 := fun i => m i

/-- The same memory with the array from the pointer on stored back. -/
def withTail (m : Int → UInt8) (a : Nat → UInt8) : Int → UInt8 := fun i => if 0 ≤ i then a i.toNat else m i

def chainTableBytes (clusterCount chainMapEntrySize : UInt32) : UInt32 :=
  let chainTableSize := clusterCount * chainMapEntrySize
  if chainTableSize % fatxChainTableBlockSize ≠ 0 then
    (chainTableSize / fatxChainTableBlockSize + 1) * fatxChainTableBlockSize
  else chainTableSize

/-- `malloc` gives the memory at the pointer returned, or NULL. -/
def openFATXPartition (env : Env) (malloc : Nat → UInt32 → Option (Int → UInt8)) (nDriveIndex : Int)
    (partitionOffset : UInt32) (partitionSize : UInt64) (reads : Nat) :
    Option (Option FATXPartition × Nat) :=
  match fatxRawRead env nDriveIndex partitionOffset 0 (signed fatxPartitionHeaderSize)
      (env.stack reads) reads with
  | none => none
  | some (readSize, partitionInfo, reads) =>
    if readSize ≠ signed fatxPartitionHeaderSize then some (none, reads)
    else if dword (withTail (fun _ => 0) partitionInfo) 0 ≠ fatxPartitionMagic then some (none, reads)
    else if (malloc reads 44).isNone then some (none, reads)
    else
      let clusterCount := (partitionSize / 0x4000).toUInt32
      let chainMapEntrySize := if clusterCount ≥ 0xfff4 then 4 else 2
      let chainTableSize := chainTableBytes clusterCount chainMapEntrySize
      match malloc reads chainTableSize with
      | none => some (none, reads)
      | some words =>
        -- a table that could not be read is only reported
        match fatxRawRead env nDriveIndex partitionOffset fatxPartitionHeaderSize.toUInt64
            (signed chainTableSize) (tail words) reads with
        | none => none
        | some (_, table, reads) =>
          some (some {
            nDriveIndex
            partitionStart := partitionOffset.toUInt64
            partitionSize
            clusterSize := 0x4000
            clusterCount
            chainMapEntrySize
            clusterChainMap := withTail words table
            cluster1Address := (fatxPartitionHeaderSize + chainTableSize).toUInt64 }, reads)

def getNextClusterInChain (p : FATXPartition) (clusterId : Int) : UInt32 :=
  let (nextClusterId, eocMarker, rootFatMarker) : UInt32 × UInt32 × UInt32 :=
    if p.chainMapEntrySize = 2 then (word p.clusterChainMap clusterId, 0xffff, 0xfff8)
    else if p.chainMapEntrySize = 4 then
      (dword p.clusterChainMap clusterId, 0xffffffff, 0xfffffff8)
    else (0, 0, 0)
  -- a free or an invalid entry is only reported
  if nextClusterId = eocMarker ∨ nextClusterId = rootFatMarker then 0xffffffff else nextClusterId

/-- The buffer and the number of reads; what `FATXRawRead` returned is only printed. -/
def loadFATXCluster (env : Env) (p : FATXPartition) (clusterId : Int) (clusterData : Nat → UInt8)
    (reads : Nat) : Option ((Nat → UInt8) × Nat) :=
  let clusterAddress := p.cluster1Address + UInt64.ofInt (clusterId - 1) * p.clusterSize.toUInt64
  (fatxRawRead env p.nDriveIndex p.partitionStart.toUInt32 clusterAddress (signed p.clusterSize)
    clusterData reads).map fun r => (r.2.1, r.2.2)

/-! ## Opened partitions -/

/-- `p` was returned by a call of `OpenFATXPartition`. -/
def Opened (p : FATXPartition) : Prop :=
  ∃ env malloc nDriveIndex partitionOffset partitionSize reads reads',
    openFATXPartition env malloc nDriveIndex partitionOffset partitionSize reads = some (some p, reads')

theorem chainTableBytes_mod (count size : UInt32) : (chainTableBytes count size).toNat % 4096 = 0 := by
  have hb : fatxChainTableBlockSize.toNat = 4096 := rfl
  unfold chainTableBytes
  simp only
  split
  · rw [UInt32.toNat_mul, hb]
    omega
  · rename_i h
    rw [ne_eq, not_not] at h
    have := congrArg UInt32.toNat h
    rw [UInt32.toNat_mod, hb] at this
    exact this

/-- What opening a partition settles about its clusters. -/
structure Geometry (p : FATXPartition) : Prop where
  clusterSize : p.clusterSize = 0x4000
  entrySize : p.chainMapEntrySize = 2 ∨ p.chainMapEntrySize = 4
  aligned : p.cluster1Address.toNat % 512 = 0

theorem Opened.geometry {p : FATXPartition} (h : Opened p) : Geometry p := by
  obtain ⟨env, malloc, n, offset, size, reads, reads', h⟩ := h
  unfold openFATXPartition at h
  split at h
  · cases h
  split at h
  · cases h
  split at h
  · cases h
  split at h
  · cases h
  simp only at h
  split at h
  · cases h
  split at h
  · cases h
  cases h
  refine ⟨rfl, ?_, ?_⟩
  · simp only
    split
    · exact Or.inr rfl
    · exact Or.inl rfl
  · have hm := chainTableBytes_mod (size / 0x4000).toUInt32
      (if (size / 0x4000).toUInt32 ≥ 0xfff4 then 4 else 2)
    have hh : fatxPartitionHeaderSize.toNat = 0x1000 := rfl
    rw [UInt32.toNat_toUInt64, UInt32.toNat_add, hh]
    omega

/-! ## Clusters -/

/-- The sector a cluster starts in. -/
def clusterSector (p : FATXPartition) (clusterId : Int) : UInt32 :=
  UInt32.ofInt (p.partitionStart.toNat + p.cluster1Address.toNat / 512 + 32 * (clusterId - 1))

/-- The bytes of a cluster, as stored on the drive. -/
def clusterBytes (env : Env) (p : FATXPartition) (clusterId : Int) : List UInt8 :=
  env.sectors p.nDriveIndex (clusterSector p clusterId) 32

@[simp] theorem length_clusterBytes (env : Env) (p : FATXPartition) (clusterId : Int) :
    (clusterBytes env p clusterId).length = 0x4000 := length_sectors _ _ _ _

theorem clusterAddress_toNat {p : FATXPartition} (hg : Geometry p) (clusterId : Int) :
    ((p.cluster1Address + UInt64.ofInt (clusterId - 1) * p.clusterSize.toUInt64).toNat : Int) =
      (p.cluster1Address.toNat + 0x4000 * (clusterId - 1)) % 2 ^ 64 := by
  rw [hg.clusterSize, UInt64.toNat_add, UInt64.toNat_mul]
  have hx : ((UInt64.ofInt (clusterId - 1)).toNat : Int) = (clusterId - 1) % 2 ^ 64 := by
    rw [UInt64.ofInt, UInt64.toNat_ofNat']
    omega
  rw [show (0x4000 : UInt32).toUInt64.toNat = 0x4000 from rfl]
  omega

theorem clusterAddress_sector {p : FATXPartition} (hg : Geometry p) (clusterId : Int) :
    p.partitionStart.toUInt32 + ((p.cluster1Address + UInt64.ofInt (clusterId - 1) *
      p.clusterSize.toUInt64) / 512).toUInt32 = clusterSector p clusterId := by
  apply UInt32.toNat_inj.1
  have ha := clusterAddress_toNat hg clusterId
  have h1 := hg.aligned
  rw [UInt32.toNat_add, UInt64.toNat_toUInt32, UInt64.toNat_toUInt32, UInt64.toNat_div]
  unfold clusterSector
  rw [UInt32.ofInt, UInt32.toNat_ofNat', show (512 : UInt64).toNat = 512 from rfl]
  omega

theorem clusterAddress_aligned {p : FATXPartition} (hg : Geometry p) (clusterId : Int) :
    (p.cluster1Address + UInt64.ofInt (clusterId - 1) * p.clusterSize.toUInt64).toNat % 512 = 0 := by
  have ha := clusterAddress_toNat hg clusterId
  have h1 := hg.aligned
  omega

section
variable {env : Env} {p : FATXPartition} (hg : Geometry p) (clusterId : Int)
  (clusterData : Nat → UInt8) (reads : Nat)

include hg

theorem loadFATXCluster_ok (hok : ∀ i, i < 32 → env.fails (reads + i) = false) :
    loadFATXCluster env p clusterId clusterData reads =
      some (write clusterData 0 (clusterBytes env p clusterId), reads + 32) := by
  have h := fatxRawRead_ok env p.nDriveIndex p.partitionStart.toUInt32 _
    (clusterAddress_aligned hg clusterId) 0x4000 clusterData reads hok
  unfold loadFATXCluster
  rw [show signed p.clusterSize = ((0x4000 : Nat) : Int) by rw [hg.clusterSize]; rfl]
  simp only [h, clusterAddress_sector hg, Option.map_some]
  have htake : (env.sectors p.nDriveIndex (clusterSector p clusterId) (sectorsFor 0x4000)).take 0x4000 =
      clusterBytes env p clusterId := List.take_of_length_le (by rw [length_sectors]; decide)
  rw [htake]
  rfl

variable (env) in
/-- Either way some sectors are read; if none of these reads fails it was all 32. -/
theorem loadFATXCluster_reads : ∃ clusterData' n,
    loadFATXCluster env p clusterId clusterData reads = some (clusterData', reads + n) ∧
      ((∀ i, i < n → env.fails (reads + i) = false) → n = 32) := by
  by_cases hok : ∀ i, i < 32 → env.fails (reads + i) = false
  · exact ⟨_, 32, loadFATXCluster_ok hg clusterId clusterData reads hok, fun _ => rfl⟩
  · simp only [not_forall, Bool.not_eq_false] at hok
    obtain ⟨i, hi, hf⟩ := hok
    obtain ⟨n, buf', he, hn, -⟩ := fatxRawRead_fail env p.nDriveIndex p.partitionStart.toUInt32 _
      (clusterAddress_aligned hg clusterId) 0x4000 clusterData reads ⟨i, hi, hf⟩
    refine ⟨buf', n + 1, ?_, ?_⟩
    · unfold loadFATXCluster
      rw [show signed p.clusterSize = ((0x4000 : Nat) : Int) by rw [hg.clusterSize]; rfl]
      simp only [he, Option.map_some, Nat.add_assoc]
    · intro h
      have := h n (Nat.lt_succ_self n)
      rw [hn] at this
      cases this

end

/-! ## Chains -/

/-- The walk from `id` along the chain map visits these clusters and ends. -/
def Clusters (p : FATXPartition) : Int → List Int → Prop
  | id, [] => id = -1
  | id, c :: cs => id = c ∧ c ≠ -1 ∧ Clusters p (signed (getNextClusterInChain p c)) cs

theorem Clusters.unique {p : FATXPartition} {id : Int} {cs ds : List Int} (hc : Clusters p id cs)
    (hd : Clusters p id ds) : cs = ds := by
  induction cs generalizing id ds with
  | nil =>
    cases ds with
    | nil => rfl
    | cons d ds =>
      obtain ⟨h, hne, -⟩ := hd
      exact absurd (h.symm.trans hc) hne
  | cons c cs ih =>
    obtain ⟨rfl, hne, hc⟩ := hc
    cases ds with
    | nil => exact absurd hd hne
    | cons d ds =>
      obtain ⟨rfl, -, hd⟩ := hd
      rw [ih hc hd]

/-- The entry of the chain map for a cluster. -/
def entry (p : FATXPartition) (clusterId : Int) : UInt32 :=
  if p.chainMapEntrySize = 2 then word p.clusterChainMap clusterId
  else dword p.clusterChainMap clusterId

/-- The entries that end a chain. -/
def IsMarker (p : FATXPartition) (x : UInt32) : Prop :=
  if p.chainMapEntrySize = 2 then x = 0xffff ∨ x = 0xfff8 else x = 0xffffffff ∨ x = 0xfffffff8

/-- The number of entries loaded. -/
def entries (p : FATXPartition) : Nat :=
  (chainTableBytes p.clusterCount p.chainMapEntrySize).toNat / p.chainMapEntrySize.toNat

/-- A chain of clusters in range, each the entry of the one before, the last
with an end-of-chain marker. -/
inductive Chain (p : FATXPartition) : List Int → Prop where
  | last {c : Int} (hlo : 1 ≤ c) (hhi : c < entries p) (hend : IsMarker p (entry p c)) : Chain p [c]
  | link {c d : Int} {cs : List Int} (hlo : 1 ≤ c) (hhi : c < entries p)
      (hmore : ¬ IsMarker p (entry p c)) (hnext : (entry p c).toNat = d) (hrest : Chain p (d :: cs)) :
      Chain p (c :: d :: cs)

theorem getNextClusterInChain_eq {p : FATXPartition} (hg : Geometry p) (c : Int) :
    (IsMarker p (entry p c) → getNextClusterInChain p c = 0xffffffff) ∧
      (¬ IsMarker p (entry p c) → getNextClusterInChain p c = entry p c) := by
  unfold getNextClusterInChain IsMarker entry
  rcases hg.entrySize with h | h <;> rw [h]
  · exact ⟨fun hm => if_pos hm, fun hm => if_neg hm⟩
  · exact ⟨fun hm => if_pos hm, fun hm => if_neg hm⟩

theorem entries_lt {p : FATXPartition} (hg : Geometry p) : entries p < 2 ^ 31 := by
  have h := (chainTableBytes p.clusterCount p.chainMapEntrySize).toNat_lt
  unfold entries
  rcases hg.entrySize with h2 | h4
  · rw [h2] at h ⊢
    show _ / 2 < _
    omega
  · rw [h4] at h ⊢
    show _ / 4 < _
    omega

/-- The walk along the chain map visits a chain and ends with it. -/
theorem Chain.clusters {p : FATXPartition} (hg : Geometry p) {cs : List Int} (h : Chain p cs) :
    ∀ c, cs.head? = some c → Clusters p c cs := by
  have hlt := entries_lt hg
  induction h with
  | last hlo hhi hend =>
    rintro c ⟨⟩
    refine ⟨rfl, by omega, ?_⟩
    rw [(getNextClusterInChain_eq hg _).1 hend]
    rfl
  | @link c d cs hlo hhi hmore hnext hrest ih =>
    rintro e ⟨⟩
    refine ⟨rfl, by omega, ?_⟩
    have hd : d < entries p := by
      cases hrest <;> assumption
    rw [(getNextClusterInChain_eq hg _).2 hmore]
    have hs : signed (entry p c) = d := by
      unfold signed
      rw [if_pos (by omega), hnext]
    rw [hs]
    exact ih d rfl

end Gentoox.Fatx
