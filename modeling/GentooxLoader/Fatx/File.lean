import GentooxLoader.Fatx.Partition

/-!
# Loading a file (FATXLoadFromDisk)

The loop copies cluster after cluster until the walk along the chain ends; the
last copy is cut at the file size, those after it are empty.  It never looks at
whether a cluster could be read, so what it returns depends on the chain and on
the size alone:

    loadLoop_ok       no read fails: the truncated clusters, nothing beyond
    loadLoop_returns  true ↔ the chain holds fileSize bytes, whatever fails
    fatxLoadFromDisk_loads   the two for a call, from a chain of the map
-/

namespace Gentoox.Fatx

open Cells Ide Lib

/-! ## Algorithm -/

/-- `FATXFILEINFO`; `buffer` is the memory from the destination on. -/
structure FATXFILEINFO where
  filename : List UInt8
  clusterId : Int
  fileSize : UInt32
  fileRead : UInt32
  buffer : Nat → UInt8

/-- The `while(clusterId != -1)` loop and the test after it. -/
def loadLoop (env : Env) (p : FATXPartition) : Nat → Int → (Nat → UInt8) → UInt32 → Nat →
    FATXFILEINFO → Nat → Option (Bool × FATXFILEINFO × Nat)
  | 0, _, _, _, _, _, _ => none
  | fuel + 1, clusterId, clusterData, fileSize, ptr, fileinfo, reads =>
    if clusterId = -1 then some (decide (fileSize = 0), fileinfo, reads)
    else
      match loadFATXCluster env p clusterId clusterData reads with
      | none => none
      | some (clusterData, reads) =>
        let written := if fileSize ≤ p.clusterSize then fileSize else p.clusterSize
        loadLoop env p fuel (signed (getNextClusterInChain p clusterId)) clusterData
          (fileSize - written) (ptr + written.toNat)
          { fileinfo with
            buffer := copy fileinfo.buffer ptr clusterData 0 written.toNat
            fileRead := fileinfo.fileRead + written } reads

/-- The return value, `fileinfo` and the number of reads so far. -/
def fatxLoadFromDisk (env : Env) (p : FATXPartition) (fuel : Nat) (fileinfo : FATXFILEINFO)
    (reads : Nat) : Option (Bool × FATXFILEINFO × Nat) :=
  loadLoop env p fuel fileinfo.clusterId (env.stack reads) fileinfo.fileSize 0
    { fileinfo with fileRead := 0 } reads

/-! ## The loop -/

/-- The bytes stored in a chain of clusters. -/
def chainBytes (env : Env) (p : FATXPartition) (cs : List Int) : List UInt8 :=
  cs.flatMap (clusterBytes env p)

@[simp] theorem length_chainBytes (env : Env) (p : FATXPartition) (cs : List Int) :
    (chainBytes env p cs).length = cs.length * 0x4000 := by
  induction cs with
  | nil => rfl
  | cons c cs ih =>
    rw [chainBytes, List.flatMap_cons, List.length_append, length_clusterBytes]
    unfold chainBytes at ih
    rw [ih, List.length_cons]
    omega

/-- What one cluster takes off the size. -/
theorem written_toNat (fileSize : UInt32) :
    (if fileSize ≤ 0x4000 then fileSize else (0x4000 : UInt32)).toNat = min fileSize.toNat 0x4000 := by
  split
  · rename_i h
    have : fileSize.toNat ≤ 0x4000 := h
    omega
  · rename_i h
    have : 0x4000 < fileSize.toNat := UInt32.not_le.1 h
    show 0x4000 = _
    omega

theorem remaining_toNat (fileSize : UInt32) :
    (fileSize - (if fileSize ≤ 0x4000 then fileSize else (0x4000 : UInt32))).toNat =
      fileSize.toNat - min fileSize.toNat 0x4000 := by
  rw [UInt32.toNat_sub_of_le, written_toNat]
  split
  · exact UInt32.le_refl _
  · rename_i h
    exact UInt32.le_of_lt (UInt32.not_le.1 h)

theorem decide_zero (fileSize : UInt32) : decide (fileSize = 0) = decide (fileSize.toNat ≤ 0) := by
  rw [decide_eq_decide, ← UInt32.toNat_inj]
  show fileSize.toNat = 0 ↔ _
  omega

section
variable {env : Env} {p : FATXPartition} (hg : Geometry p)

include hg

omit hg in
/-- The part of a cluster that is copied is the head of what is to be stored. -/
theorem copy_cluster (buffer clusterData : Nat → UInt8) (ptr : Nat) (id : Int) (n : Nat) :
    copy buffer ptr (write clusterData 0 (clusterBytes env p id)) 0 (min n 0x4000) =
      write buffer ptr ((clusterBytes env p id).take n) := by
  have hr := read_write clusterData 0 (clusterBytes env p id)
  have ht := take_read (write clusterData 0 (clusterBytes env p id)) 0 0x4000 n
  rw [length_clusterBytes] at hr
  unfold copy
  rw [← ht, hr]

omit hg in
theorem take_chainBytes (id : Int) (cs : List Int) (n : Nat) :
    (chainBytes env p (id :: cs)).take n =
      (clusterBytes env p id).take n ++ (chainBytes env p cs).take (n - min n 0x4000) := by
  rw [chainBytes, List.flatMap_cons, List.take_append, length_clusterBytes,
    show n - 0x4000 = n - min n 0x4000 by omega]
  rfl

/-- **No read fails.**  The clusters of the walk, cut at the file size, are
stored from `ptr` on. -/
theorem loadLoop_ok : ∀ (cs : List Int) (fuel : Nat) (id : Int) (clusterData : Nat → UInt8)
    (fileSize : UInt32) (ptr : Nat) (fileinfo : FATXFILEINFO) (reads : Nat),
    Clusters p id cs → cs.length < fuel →
    (∀ i, i < cs.length * 32 → env.fails (reads + i) = false) →
    loadLoop env p fuel id clusterData fileSize ptr fileinfo reads =
      some (decide (fileSize.toNat ≤ cs.length * 0x4000),
        { fileinfo with
          buffer := write fileinfo.buffer ptr ((chainBytes env p cs).take fileSize.toNat)
          fileRead := fileinfo.fileRead + UInt32.ofNat (min fileSize.toNat (cs.length * 0x4000)) },
        reads + cs.length * 32) := by
  intro cs
  induction cs with
  | nil =>
    intro fuel id clusterData fileSize ptr fileinfo reads hcs hfuel _
    obtain ⟨fuel, rfl⟩ : ∃ f, fuel = f + 1 := ⟨fuel - 1, by simp at hfuel; omega⟩
    obtain rfl : id = -1 := hcs
    simp [loadLoop, chainBytes, decide_zero]
  | cons c cs ih =>
    intro fuel id clusterData fileSize ptr fileinfo reads hcs hfuel hok
    obtain ⟨fuel, rfl⟩ : ∃ f, fuel = f + 1 := ⟨fuel - 1, by simp at hfuel; omega⟩
    obtain ⟨rfl, hne, hrest⟩ := hcs
    rw [List.length_cons] at hfuel hok
    have hload := loadFATXCluster_ok hg id clusterData reads fun i hi => hok i (by omega)
    rw [loadLoop, if_neg hne, hload]
    simp only [hg.clusterSize]
    rw [ih _ _ _ _ _ _ _ hrest (by omega) fun i hi => by
      rw [show reads + 32 + i = reads + (32 + i) by omega]
      exact hok _ (by omega)]
    rw [written_toNat, remaining_toNat]
    have hhead : ((clusterBytes env p id).take fileSize.toNat).length = min fileSize.toNat 0x4000 := by
      rw [List.length_take, length_clusterBytes]
    rw [copy_cluster, take_chainBytes, write_append, hhead, List.length_cons]
    have hread : ∀ fileRead : UInt32, fileRead + (if fileSize ≤ 0x4000 then fileSize else 0x4000) +
        UInt32.ofNat (min (fileSize.toNat - min fileSize.toNat 0x4000) (cs.length * 0x4000)) =
          fileRead + UInt32.ofNat (min fileSize.toNat ((cs.length + 1) * 0x4000)) := by
      intro fileRead
      apply UInt32.toNat_inj.1
      simp only [UInt32.toNat_add, UInt32.toNat_ofNat', written_toNat]
      omega
    have hdec : decide (fileSize.toNat - min fileSize.toNat 0x4000 ≤ cs.length * 0x4000) =
        decide (fileSize.toNat ≤ (cs.length + 1) * 0x4000) := by
      rw [decide_eq_decide]
      omega
    rw [hread, hdec]
    congr 3
    omega

variable (env) in
/-- **Whatever fails.**  What is returned depends on the walk and the size
alone, and unless one of the reads made fails they are those of the whole walk. -/
theorem loadLoop_returns : ∀ (cs : List Int) (fuel : Nat) (id : Int) (clusterData : Nat → UInt8)
    (fileSize : UInt32) (ptr : Nat) (fileinfo : FATXFILEINFO) (reads : Nat),
    Clusters p id cs → cs.length < fuel →
    ∃ fileinfo' n, loadLoop env p fuel id clusterData fileSize ptr fileinfo reads =
        some (decide (fileSize.toNat ≤ cs.length * 0x4000), fileinfo', reads + n) ∧
      ((∀ i, i < n → env.fails (reads + i) = false) → n = cs.length * 32) := by
  intro cs
  induction cs with
  | nil =>
    intro fuel id clusterData fileSize ptr fileinfo reads hcs hfuel
    obtain ⟨fuel, rfl⟩ : ∃ f, fuel = f + 1 := ⟨fuel - 1, by simp at hfuel; omega⟩
    obtain rfl : id = -1 := hcs
    refine ⟨fileinfo, 0, ?_, fun _ => by simp⟩
    simp [loadLoop, decide_zero]
  | cons c cs ih =>
    intro fuel id clusterData fileSize ptr fileinfo reads hcs hfuel
    obtain ⟨fuel, rfl⟩ : ∃ f, fuel = f + 1 := ⟨fuel - 1, by simp at hfuel; omega⟩
    obtain ⟨rfl, hne, hrest⟩ := hcs
    rw [List.length_cons] at hfuel
    obtain ⟨clusterData', n, hload, hn⟩ := loadFATXCluster_reads env hg id clusterData reads
    rw [loadLoop, if_neg hne, hload]
    simp only [hg.clusterSize]
    obtain ⟨fileinfo', m, hrun, hm⟩ := ih fuel _ clusterData'
      (fileSize - if fileSize ≤ 0x4000 then fileSize else 0x4000)
      (ptr + (if fileSize ≤ 0x4000 then fileSize else (0x4000 : UInt32)).toNat)
      { fileinfo with
        buffer := copy fileinfo.buffer ptr clusterData' 0
          (if fileSize ≤ 0x4000 then fileSize else (0x4000 : UInt32)).toNat
        fileRead := fileinfo.fileRead + if fileSize ≤ 0x4000 then fileSize else 0x4000 }
      (reads + n) hrest (by omega)
    refine ⟨fileinfo', n + m, ?_, ?_⟩
    · rw [hrun, remaining_toNat, List.length_cons, Nat.add_assoc]
      congr 2
      rw [decide_eq_decide]
      omega
    · intro hok
      have h1 : n = 32 := hn fun i hi => hok i (by omega)
      have h2 : m = cs.length * 32 := hm fun i hi => by
        rw [Nat.add_assoc]
        exact hok (n + i) (by omega)
      rw [List.length_cons]
      omega

omit hg in
/-- A loop that returns has come to the end of a walk. -/
theorem loadLoop_clusters : ∀ (fuel : Nat) (id : Int) (clusterData : Nat → UInt8) (fileSize : UInt32)
    (ptr : Nat) (fileinfo : FATXFILEINFO) (reads : Nat) {r : Bool × FATXFILEINFO × Nat},
    loadLoop env p fuel id clusterData fileSize ptr fileinfo reads = some r →
    ∃ cs, Clusters p id cs ∧ cs.length < fuel := by
  intro fuel
  induction fuel with
  | zero =>
    intro id clusterData fileSize ptr fileinfo reads r h
    cases h
  | succ fuel ih =>
    intro id clusterData fileSize ptr fileinfo reads r h
    by_cases hid : id = -1
    · exact ⟨[], hid, Nat.succ_pos _⟩
    · rw [loadLoop, if_neg hid] at h
      split at h
      · cases h
      · obtain ⟨cs, hcs, hlen⟩ := ih _ _ _ _ _ _ h
        exact ⟨id :: cs, ⟨rfl, hid, hcs⟩, Nat.succ_lt_succ hlen⟩

omit hg in
/-- Nothing is written but the `fileSize` bytes from `ptr` on, whatever fails. -/
theorem loadLoop_outside : ∀ (fuel : Nat) (id : Int) (clusterData : Nat → UInt8) (fileSize : UInt32)
    (ptr : Nat) (fileinfo : FATXFILEINFO) (reads : Nat) {r : Bool × FATXFILEINFO × Nat},
    loadLoop env p fuel id clusterData fileSize ptr fileinfo reads = some r →
    ∀ i, i < ptr ∨ ptr + fileSize.toNat ≤ i → r.2.1.buffer i = fileinfo.buffer i := by
  intro fuel
  induction fuel with
  | zero =>
    intro id clusterData fileSize ptr fileinfo reads r h
    cases h
  | succ fuel ih =>
    intro id clusterData fileSize ptr fileinfo reads r h i hi
    rw [loadLoop] at h
    split at h
    · cases h
      rfl
    split at h
    · cases h
    simp only at h
    -- what this cluster takes is part of what is left
    have hw : (if fileSize ≤ p.clusterSize then fileSize else p.clusterSize) ≤ fileSize := by
      split
      · exact UInt32.le_refl _
      · rename_i hc
        exact UInt32.le_of_lt (UInt32.not_le.1 hc)
    generalize (if fileSize ≤ p.clusterSize then fileSize else p.clusterSize) = written at h hw
    have hle : written.toNat ≤ fileSize.toNat := hw
    have hrest := ih _ _ _ _ _ _ h i (by rw [UInt32.toNat_sub_of_le _ _ hw]; omega)
    rw [hrest]
    exact write_of_outside _ _ _ _ (by rw [length_read]; omega)

omit hg in
theorem loadLoop_fileSize : ∀ (fuel : Nat) (id : Int) (clusterData : Nat → UInt8) (fileSize : UInt32)
    (ptr : Nat) (fileinfo : FATXFILEINFO) (reads : Nat) {r : Bool × FATXFILEINFO × Nat},
    loadLoop env p fuel id clusterData fileSize ptr fileinfo reads = some r →
    r.2.1.fileSize = fileinfo.fileSize := by
  intro fuel
  induction fuel with
  | zero =>
    intro id clusterData fileSize ptr fileinfo reads r h
    cases h
  | succ fuel ih =>
    intro id clusterData fileSize ptr fileinfo reads r h
    rw [loadLoop] at h
    split at h
    · cases h
      rfl
    split at h
    · cases h
    · have hsize := ih _ _ _ _ _ _ h
      exact hsize

omit hg in
theorem fatxLoadFromDisk_fileSize {fuel : Nat} {fileinfo : FATXFILEINFO} {reads : Nat}
    {r : Bool × FATXFILEINFO × Nat} (h : fatxLoadFromDisk env p fuel fileinfo reads = some r) :
    r.2.1.fileSize = fileinfo.fileSize := by
  unfold fatxLoadFromDisk at h
  have hsize := loadLoop_fileSize _ _ _ _ _ _ _ h
  exact hsize

end

/-! ## Top theorem -/

/-- **Loading along a chain.**  Let the start cluster's chain be in range and
end in a marker, and let no read fail.  The call returns, with true exactly
when the chain holds `fileSize` bytes; these are then in the buffer and counted,
and nothing past them is written in any case. -/
theorem fatxLoadFromDisk_loads (env : Env) (p : FATXPartition) (hp : Opened p) (cs : List Int)
    (hcs : Chain p cs) (fileinfo : FATXFILEINFO) (hstart : cs.head? = some fileinfo.clusterId)
    (reads : Nat) (hok : ∀ i, reads ≤ i → env.fails i = false) (fuel : Nat) (hfuel : cs.length < fuel) :
    ∃ ret fileinfo' reads', fatxLoadFromDisk env p fuel fileinfo reads = some (ret, fileinfo', reads') ∧
      (ret = true ↔ fileinfo.fileSize.toNat ≤ (chainBytes env p cs).length) ∧
      (ret = true →
        read fileinfo'.buffer 0 fileinfo.fileSize.toNat =
            (chainBytes env p cs).take fileinfo.fileSize.toNat ∧
          fileinfo'.fileRead = fileinfo.fileSize) ∧
      ∀ i, fileinfo.fileSize.toNat ≤ i → fileinfo'.buffer i = fileinfo.buffer i := by
  have hg := hp.geometry
  have hrun := loadLoop_ok hg cs fuel fileinfo.clusterId (env.stack reads) fileinfo.fileSize 0
    { fileinfo with fileRead := 0 } reads (hcs.clusters hg _ hstart) hfuel
    fun i _ => hok (reads + i) (by omega)
  refine ⟨_, _, _, hrun, ?_, ?_, ?_⟩
  · rw [decide_eq_true_iff, length_chainBytes]
  · intro hret
    have hle : fileinfo.fileSize.toNat ≤ cs.length * 0x4000 := of_decide_eq_true hret
    refine ⟨?_, ?_⟩
    · have hl : ((chainBytes env p cs).take fileinfo.fileSize.toNat).length =
          fileinfo.fileSize.toNat := by
        rw [List.length_take, length_chainBytes]
        omega
      have hr := read_write fileinfo.buffer 0 ((chainBytes env p cs).take fileinfo.fileSize.toNat)
      rw [hl] at hr
      exact hr
    · rw [min_eq_left hle]
      simp
  · intro i hi
    show write fileinfo.buffer 0 _ i = fileinfo.buffer i
    apply write_of_outside
    rw [List.length_take]
    omega

/-- A sector that starts with `l` and is filled up with `v`. -/
def paddedSector (l : List UInt8) (v : UInt8) : Sector :=
  ⟨(l ++ List.replicate 512 v).take 512, by
    rw [List.length_take, List.length_append, List.length_replicate]
    omega⟩

/-- A partition of four clusters at sector 0: the root directory in cluster 1
holds a file `a` of 0x4001 bytes in clusters 2 and 3.  Other sectors are filled
with their number. -/
def smallDisk (fails : Nat → Bool) : Env where
  sector _ block :=
    if block = 0 then paddedSector [0x46, 0x41, 0x54, 0x58] 0
    else if block = 8 then paddedSector [0xf8, 0xff, 0xff, 0xff, 3, 0, 0xff, 0xff] 0
    else if block = 16 then
      paddedSector ([1, 0, 0x61] ++ List.replicate 41 0 ++ [2, 0, 0, 0, 1, 0x40, 0, 0]) 0
    else paddedSector [] block.toUInt8
  fails := fails
  stack _ _ := 0

def smallPartition : FATXPartition where
  nDriveIndex := 0
  partitionStart := 0
  partitionSize := 0x10000
  clusterSize := 0x4000
  clusterCount := 4
  chainMapEntrySize := 2
  clusterChainMap := withTail (fun _ => 0)
    (write (tail fun _ => 0) 0 (((smallDisk fun _ => false).sectors 0 8 8).take 4096))
  cluster1Address := 0x2000

theorem smallPartition_opened : Opened smallPartition := by
  refine ⟨smallDisk fun _ => false, fun _ _ => some fun _ => 0, 0, 0, 0x10000, 0, 16, ?_⟩
  unfold openFATXPartition
  rw [show signed fatxPartitionHeaderSize = ((4096 : Nat) : Int) from rfl,
    fatxRawRead_ok _ _ _ _ (by decide) _ _ _ fun _ _ => rfl]
  simp only
  rw [if_neg (by decide), if_neg (by decide), if_neg (by decide),
    show signed (chainTableBytes (0x10000 / 0x4000 : UInt64).toUInt32 _) = ((4096 : Nat) : Int) from
      by decide,
    fatxRawRead_ok _ _ _ _ (by decide) _ _ _ fun _ _ => rfl]
  rfl

theorem smallPartition_chain : Chain smallPartition [2, 3] := by
  have h2 : entry smallPartition 2 = 3 := by decide
  have h3 : entry smallPartition 3 = 0xffff := by decide
  refine .link (by decide) (by decide) ?_ ?_ (.last (by decide) (by decide) ?_)
  · rw [h2]
    unfold IsMarker
    decide
  · rw [h2]
    rfl
  · rw [h3]
    exact Or.inl rfl

/-- The file of the small partition, with room for it in the buffer. -/
def smallFile : FATXFILEINFO := ⟨[0x61], 2, 0x4001, 0, fun _ => 0⟩

theorem fatxLoadFromDisk_loads_small : ∃ ret fileinfo' reads',
    fatxLoadFromDisk (smallDisk fun _ => false) smallPartition 3 smallFile 0 =
        some (ret, fileinfo', reads') ∧
      (ret = true ↔ smallFile.fileSize.toNat ≤
        (chainBytes (smallDisk fun _ => false) smallPartition [2, 3]).length) ∧
      (ret = true →
        read fileinfo'.buffer 0 smallFile.fileSize.toNat =
            (chainBytes (smallDisk fun _ => false) smallPartition [2, 3]).take
              smallFile.fileSize.toNat ∧
          fileinfo'.fileRead = smallFile.fileSize) ∧
      ∀ i, smallFile.fileSize.toNat ≤ i → fileinfo'.buffer i = smallFile.buffer i :=
  fatxLoadFromDisk_loads (smallDisk fun _ => false) smallPartition smallPartition_opened [2, 3]
    smallPartition_chain smallFile rfl 0 (fun _ _ => rfl) 3 (by decide)

end Gentoox.Fatx
