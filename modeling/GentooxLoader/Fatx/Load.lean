import GentooxLoader.Lib.Strings
import GentooxLoader.Fatx.File

/-!
# Finding and loading a file (FATXFindFile, LoadFATXFilefixed, LoadFATXFile)

The search and the load go through `LoadFATXCluster`, which drops the status of
`FATXRawRead`.  A read that fails is therefore never seen, and the two functions
return true over it with whatever the cluster buffer held:

    findLoop_true_iff       the search returns true ↔ it stops at the entry of a file
    trueMeansLoaded_iff     true means loaded ↔ if the search stops at a file and the
                            chain loaded is long enough, none of the reads fails
                            and the chain holds the bytes of the file's own
    stale_cluster_returned  the first read of the file's data fails

`FATXFILEINFO` is packed, its name has no room for the NUL behind 42 characters.
The chain loaded for such a name starts at the cluster of the entry with the low
byte zero.
-/

namespace Gentoox.Fatx

open Cells Ide Lib

/-! ## Algorithm -/

def fatxDirectoryEntrySize : Nat := 0x40
def fatxFilenameMax : Nat := 42
def fatxFileAttrDirectory : UInt8 := 0x10

def checkForLastDirectoryEntry (e : UInt8) : Bool := e == 0xff || e == 0

/-- The `u32` at `a`. -/
def u32At (m : Nat → UInt8) (a : Nat) : UInt32 := dword (withTail (fun _ => 0) fun i => m (a + i)) 0

/-- How the loop over the entries of a cluster ends. -/
inductive Scan where
  | exhausted
  | endOfDirectory
  | refused
  | directory (entryClusterId : Int)
  | file (entryClusterId : Int) (fileSize : UInt32)

/-- The loop over the entries from `i` on. -/
def scanEntries (clusterData : Nat → UInt8) (seekFilename : List UInt8) (lookForDirectory : Bool) :
    Nat → Nat → Scan
  | 0, _ => .exhausted
  | n + 1, i =>
    let curEntry := i * fatxDirectoryEntrySize
    let filenameSize := clusterData curEntry
    if checkForLastDirectoryEntry filenameSize then .endOfDirectory
    else if filenameSize = 0xE5 then scanEntries clusterData seekFilename lookForDirectory n (i + 1)
    else if filenameSize.toNat < 1 ∨ filenameSize.toNat > fatxFilenameMax then .refused
    else
      let foundFilename := cstr (read clusterData (curEntry + 2) filenameSize.toNat)
      let flags := clusterData (curEntry + 1)
      let entryClusterId := signed (u32At clusterData (curEntry + 0x2c))
      let fileSize := u32At clusterData (curEntry + 0x30)
      if seekFilename.length = foundFilename.length ∧
          strncasecmp foundFilename seekFilename seekFilename.length = 0 then
        if lookForDirectory then
          if flags &&& fatxFileAttrDirectory ≠ 0 then .directory entryClusterId else .refused
        else if flags &&& fatxFileAttrDirectory = 0 then .file entryClusterId fileSize else .refused
      else scanEntries clusterData seekFilename lookForDirectory n (i + 1)

/-- The name looked for and what follows its slash, unless the name is too long. -/
def seekName (filename : List UInt8) : Option (List UInt8 × Option (List UInt8)) :=
  match strrchr0 filename 0x2f with
  | none => if filename.length > fatxFilenameMax then none else some (filename, none)
  | some slashPos =>
    if slashPos > fatxFilenameMax then none
    else some (filename.take slashPos, some (filename.drop (slashPos + 1)))

/-- What `strcpy(fileinfo->filename, filename)` leaves of `clusterId`, the next
field of the packed structure. -/
def keptClusterId (filename : List UInt8) (clusterId : Int) : Int :=
  if filename.length = fatxFilenameMax then clusterId - clusterId % 0x100 else clusterId

/-- The stores for a file that was found; `filename` comes last. -/
def FATXFILEINFO.setFile (fileinfo : FATXFILEINFO) (filename : List UInt8) (entryClusterId : Int)
    (fileSize : UInt32) : FATXFILEINFO :=
  { fileinfo with clusterId := keptClusterId filename entryClusterId, fileSize, filename }

/-- `_FATXFindFile`: the `while(clusterId != -1)` loop, with the call for a
directory as one more turn. -/
def findLoop (env : Env) (p : FATXPartition) : Nat → List UInt8 → Int → (Nat → UInt8) →
    FATXFILEINFO → Nat → Option (Bool × FATXFILEINFO × Nat)
  | 0, _, _, _, _, _ => none
  | fuel + 1, filename, clusterId, clusterData, fileinfo, reads =>
    match seekName filename with
    | none => some (false, fileinfo, reads)
    | some (seekFilename, rest) =>
      if clusterId = -1 then some (false, fileinfo, reads)
      else
        match loadFATXCluster env p clusterId clusterData reads with
        | none => none
        | some (clusterData, reads) =>
          match scanEntries clusterData seekFilename rest.isSome
              (p.clusterSize.toNat / fatxDirectoryEntrySize) 0 with
          | .exhausted =>
            findLoop env p fuel filename (signed (getNextClusterInChain p clusterId)) clusterData
              fileinfo reads
          | .endOfDirectory | .refused => some (false, fileinfo, reads)
          | .directory entryClusterId =>
            findLoop env p fuel (rest.getD []) entryClusterId (env.stack reads) fileinfo reads
          | .file entryClusterId fileSize =>
            some (true, fileinfo.setFile filename entryClusterId fileSize, reads)

/-- Backslashes count as slashes, leading slashes are skipped. -/
def fatxFindFile (env : Env) (p : FATXPartition) (fuel : Nat) (filename : List UInt8)
    (clusterId : Int) (fileinfo : FATXFILEINFO) (reads : Nat) : Option (Bool × FATXFILEINFO × Nat) :=
  findLoop env p fuel ((filename.map fun c => if c = 0x5c then 0x2f else c).dropWhile (· == 0x2f))
    clusterId (env.stack reads) fileinfo reads

/-- Search, clear the destination to `v`, load. -/
def loadFATX (env : Env) (partition : Option FATXPartition) (fuel : Nat) (filename : List UInt8)
    (fileinfo : FATXFILEINFO) (destination : Nat → UInt32 → Nat → UInt8) (v : UInt8) (reads : Nat) :
    Option (Bool × FATXFILEINFO × Nat) :=
  match partition with
  | none => some (false, fileinfo, reads)
  | some p =>
    match fatxFindFile env p fuel filename fatxRootFatCluster fileinfo reads with
    | none => none
    | some (found, fileinfo, reads) =>
      if found then
        fatxLoadFromDisk env p fuel { fileinfo with
          buffer := fill (destination reads fileinfo.fileSize) 0 v fileinfo.fileSize.toNat } reads
      else some (false, fileinfo, reads)

/-- `position` is the memory from `Position` on. -/
def loadFATXFilefixed (env : Env) (partition : Option FATXPartition) (fuel : Nat)
    (filename : List UInt8) (fileinfo : FATXFILEINFO) (position : Nat → UInt8) (reads : Nat) :
    Option (Bool × FATXFILEINFO × Nat) :=
  loadFATX env partition fuel filename fileinfo (fun _ _ => position) 0xff reads

/-- `malloc` gives the memory from the pointer returned on. -/
def loadFATXFile (env : Env) (partition : Option FATXPartition) (fuel : Nat)
    (filename : List UInt8) (fileinfo : FATXFILEINFO) (malloc : Nat → UInt32 → Nat → UInt8)
    (reads : Nat) : Option (Bool × FATXFILEINFO × Nat) :=
  loadFATX env partition fuel filename fileinfo malloc 0 reads

/-! ## The search -/

section
variable {env : Env} {p : FATXPartition}

/-- More fuel gives the same result. -/
theorem findLoop_mono : ∀ {fuel fuel' : Nat} {filename : List UInt8} {clusterId : Int}
    {clusterData : Nat → UInt8} {fileinfo : FATXFILEINFO} {reads : Nat}
    {r : Bool × FATXFILEINFO × Nat}, fuel ≤ fuel' →
    findLoop env p fuel filename clusterId clusterData fileinfo reads = some r →
    findLoop env p fuel' filename clusterId clusterData fileinfo reads = some r := by
  intro fuel
  induction fuel with
  | zero =>
    intro fuel' filename clusterId clusterData fileinfo reads r _ h
    cases h
  | succ fuel ih =>
    intro fuel' filename clusterId clusterData fileinfo reads r hle h
    obtain ⟨fuel', rfl⟩ : ∃ f, fuel' = f + 1 := ⟨fuel' - 1, by omega⟩
    have hle' : fuel ≤ fuel' := by omega
    unfold findLoop at h ⊢
    split at h
    · exact h
    split_ifs at h ⊢ with hid
    · exact h
    split at h
    · cases h
    split at h
    · exact ih hle' h
    · exact h
    · exact h
    · exact ih hle' h
    · exact h

/-- The search only adds to the reads made. -/
theorem findLoop_reads (hg : Geometry p) : ∀ {fuel : Nat} {filename : List UInt8} {clusterId : Int}
    {clusterData : Nat → UInt8} {fileinfo : FATXFILEINFO} {reads : Nat}
    {r : Bool × FATXFILEINFO × Nat},
    findLoop env p fuel filename clusterId clusterData fileinfo reads = some r → reads ≤ r.2.2 := by
  intro fuel
  induction fuel with
  | zero =>
    intro filename clusterId clusterData fileinfo reads r h
    cases h
  | succ fuel ih =>
    intro filename clusterId clusterData fileinfo reads r h
    unfold findLoop at h
    split at h
    · cases h
      exact Nat.le_refl _
    split_ifs at h with hid
    · cases h
      exact Nat.le_refl _
    obtain ⟨clusterData', n, hload, -⟩ :=
      loadFATXCluster_reads env hg clusterId clusterData reads
    rw [hload] at h
    simp only at h
    have hle : reads ≤ reads + n := Nat.le_add_right _ _
    split at h
    · exact hle.trans (ih h)
    · cases h
      exact hle
    · cases h
      exact hle
    · exact hle.trans (ih h)
    · cases h
      exact hle

/-- The search has no use for the buffer. -/
theorem findLoop_buffer (buffer : Nat → UInt8) : ∀ (fuel : Nat) (filename : List UInt8)
    (clusterId : Int) (clusterData : Nat → UInt8) (fileinfo : FATXFILEINFO) (reads : Nat),
    findLoop env p fuel filename clusterId clusterData { fileinfo with buffer } reads =
      (findLoop env p fuel filename clusterId clusterData fileinfo reads).map
        fun r => (r.1, { r.2.1 with buffer }, r.2.2) := by
  intro fuel
  induction fuel with
  | zero => exact fun _ _ _ _ _ => rfl
  | succ fuel ih =>
    intro filename clusterId clusterData fileinfo reads
    unfold findLoop
    split
    · rfl
    split_ifs
    · rfl
    split
    · rfl
    split
    · exact ih _ _ _ _ _
    · rfl
    · rfl
    · exact ih _ _ _ _ _
    · rfl

end

/-! ## The entry found -/

/-- The entry of a file, and the name it was looked for by. -/
structure FileEntry where
  filename : List UInt8
  clusterId : Int
  fileSize : UInt32

def FileEntry.store (e : FileEntry) (fileinfo : FATXFILEINFO) : FATXFILEINFO :=
  fileinfo.setFile e.filename e.clusterId e.fileSize

/-- The cluster that a load starts at. -/
def FileEntry.startCluster (e : FileEntry) : Int := keptClusterId e.filename e.clusterId

section
variable (env : Env) (p : FATXPartition)

/-- The search from a cluster on stops at the entry of a file. -/
inductive StopsAt : List UInt8 → Int → (Nat → UInt8) → Nat → FileEntry → Nat → Prop where
  | file {filename seek : List UInt8} {rest : Option (List UInt8)} {clusterId entryClusterId : Int}
      {clusterData clusterData' : Nat → UInt8} {reads reads' : Nat} {fileSize : UInt32}
      (hseek : seekName filename = some (seek, rest)) (hid : clusterId ≠ -1)
      (hload : loadFATXCluster env p clusterId clusterData reads = some (clusterData', reads'))
      (hscan : scanEntries clusterData' seek rest.isSome
        (p.clusterSize.toNat / fatxDirectoryEntrySize) 0 = .file entryClusterId fileSize) :
      StopsAt filename clusterId clusterData reads ⟨filename, entryClusterId, fileSize⟩ reads'
  | nextCluster {filename seek : List UInt8} {rest : Option (List UInt8)} {clusterId : Int}
      {clusterData clusterData' : Nat → UInt8} {reads reads' r : Nat} {e : FileEntry}
      (hseek : seekName filename = some (seek, rest)) (hid : clusterId ≠ -1)
      (hload : loadFATXCluster env p clusterId clusterData reads = some (clusterData', reads'))
      (hscan : scanEntries clusterData' seek rest.isSome
        (p.clusterSize.toNat / fatxDirectoryEntrySize) 0 = .exhausted)
      (h : StopsAt filename (signed (getNextClusterInChain p clusterId)) clusterData' reads' e r) :
      StopsAt filename clusterId clusterData reads e r
  | directory {filename seek : List UInt8} {rest : Option (List UInt8)}
      {clusterId entryClusterId : Int} {clusterData clusterData' : Nat → UInt8}
      {reads reads' r : Nat} {e : FileEntry}
      (hseek : seekName filename = some (seek, rest)) (hid : clusterId ≠ -1)
      (hload : loadFATXCluster env p clusterId clusterData reads = some (clusterData', reads'))
      (hscan : scanEntries clusterData' seek rest.isSome
        (p.clusterSize.toNat / fatxDirectoryEntrySize) 0 = .directory entryClusterId)
      (h : StopsAt (rest.getD []) entryClusterId (env.stack reads') reads' e r) :
      StopsAt filename clusterId clusterData reads e r

/-- The search for a path from the root on. -/
def StopsAtFile (filename : List UInt8) (reads : Nat) (e : FileEntry) (r : Nat) : Prop :=
  StopsAt env p ((filename.map fun c => if c = 0x5c then 0x2f else c).dropWhile (· == 0x2f))
    fatxRootFatCluster (env.stack reads) reads e r

end

section
variable {env : Env} {p : FATXPartition} {filename : List UInt8} {clusterId : Int}
  {clusterData : Nat → UInt8} {fileinfo found : FATXFILEINFO} {reads r : Nat} {e : FileEntry}

theorem StopsAt.finds (h : StopsAt env p filename clusterId clusterData reads e r)
    (fileinfo : FATXFILEINFO) : ∃ fuel,
      findLoop env p fuel filename clusterId clusterData fileinfo reads =
        some (true, e.store fileinfo, r) := by
  induction h with
  | file hseek hid hload hscan =>
    refine ⟨1, ?_⟩
    unfold findLoop
    simp only [hseek, if_neg hid, hload, hscan]
    rfl
  | nextCluster hseek hid hload hscan _ ih =>
    obtain ⟨fuel, hfuel⟩ := ih
    refine ⟨fuel + 1, ?_⟩
    unfold findLoop
    simp only [hseek, if_neg hid, hload, hscan]
    exact hfuel
  | directory hseek hid hload hscan _ ih =>
    obtain ⟨fuel, hfuel⟩ := ih
    refine ⟨fuel + 1, ?_⟩
    unfold findLoop
    simp only [hseek, if_neg hid, hload, hscan]
    exact hfuel

theorem stopsAt_of_findLoop {fuel : Nat} :
    findLoop env p fuel filename clusterId clusterData fileinfo reads = some (true, found, r) →
    ∃ e, StopsAt env p filename clusterId clusterData reads e r ∧ found = e.store fileinfo := by
  induction fuel generalizing filename clusterId clusterData reads with
  | zero => exact nofun
  | succ fuel ih =>
    intro h
    unfold findLoop at h
    cases hseek : seekName filename with
    | none => simp [hseek] at h
    | some s =>
      obtain ⟨seek, rest⟩ := s
      simp only [hseek] at h
      split_ifs at h with hid
      · simp at h
      cases hload : loadFATXCluster env p clusterId clusterData reads with
      | none => simp [hload] at h
      | some l =>
        obtain ⟨clusterData', reads'⟩ := l
        simp only [hload] at h
        cases hscan : scanEntries clusterData' seek rest.isSome
            (p.clusterSize.toNat / fatxDirectoryEntrySize) 0 with
        | exhausted =>
          simp only [hscan] at h
          obtain ⟨e, he, hfound⟩ := ih h
          exact ⟨e, .nextCluster hseek hid hload hscan he, hfound⟩
        | endOfDirectory => simp [hscan] at h
        | refused => simp [hscan] at h
        | directory entryClusterId =>
          simp only [hscan] at h
          obtain ⟨e, he, hfound⟩ := ih h
          exact ⟨e, .directory hseek hid hload hscan he, hfound⟩
        | file entryClusterId fileSize =>
          simp only [hscan, Option.some.injEq, Prod.mk.injEq, true_and] at h
          obtain ⟨rfl, rfl⟩ := h
          exact ⟨_, .file hseek hid hload hscan, rfl⟩

/-- The search returns true exactly when it stops at an entry, and then with
what `store` makes of it. -/
theorem findLoop_true_iff :
    (∃ fuel, findLoop env p fuel filename clusterId clusterData fileinfo reads =
      some (true, found, r)) ↔
    ∃ e, StopsAt env p filename clusterId clusterData reads e r ∧ found = e.store fileinfo := by
  constructor
  · rintro ⟨fuel, h⟩
    exact stopsAt_of_findLoop h
  · rintro ⟨e, he, rfl⟩
    exact he.finds fileinfo

/-- There is one place to stop at. -/
theorem StopsAt.unique {e' : FileEntry} {r' : Nat}
    (h : StopsAt env p filename clusterId clusterData reads e r)
    (h' : StopsAt env p filename clusterId clusterData reads e' r') : e = e' ∧ r = r' := by
  induction h with
  | file hseek hid hload hscan =>
    cases h' with
    | file hseek' hid' hload' hscan' => grind
    | nextCluster hseek' hid' hload' hscan' _ => grind
    | directory hseek' hid' hload' hscan' _ => grind
  | nextCluster hseek hid hload hscan _ ih =>
    cases h' with
    | file hseek' hid' hload' hscan' => grind
    | nextCluster hseek' hid' hload' hscan' h' => grind
    | directory hseek' hid' hload' hscan' _ => grind
  | directory hseek hid hload hscan _ ih =>
    cases h' with
    | file hseek' hid' hload' hscan' => grind
    | nextCluster hseek' hid' hload' hscan' _ => grind
    | directory hseek' hid' hload' hscan' h' => grind

end

/-! ## Top theorem -/

/-- A call that returned true made no read that failed and left the file that
the search stops at, as the chain from its entry's cluster stores it, in the buffer. -/
def TrueMeansLoaded (env : Env) (partition : Option FATXPartition) (filename : List UInt8)
    (reads : Nat) (load : Nat → Option (Bool × FATXFILEINFO × Nat)) : Prop :=
  ∀ fuel fileinfo reads', load fuel = some (true, fileinfo, reads') →
    (∀ i, reads ≤ i → i < reads' → env.fails i = false) ∧
    ∃ p e r cs, partition = some p ∧ StopsAtFile env p filename reads e r ∧
      Clusters p e.clusterId cs ∧ e.fileSize.toNat ≤ cs.length * 0x4000 ∧
      fileinfo.fileSize = e.fileSize ∧
      read fileinfo.buffer 0 e.fileSize.toNat = (chainBytes env p cs).take e.fileSize.toNat

/-- If the search stops at a file and the chain that is loaded holds `fileSize`
bytes, none of the sectors of the search and of that chain fails to be read, and
for a name of 42 characters the entry's own chain begins with the same bytes. -/
def LoadsHold (env : Env) (partition : Option FATXPartition) (filename : List UInt8)
    (reads : Nat) : Prop :=
  ∀ p, partition = some p → ∀ e r, StopsAtFile env p filename reads e r →
    ∀ cs, Clusters p e.startCluster cs → e.fileSize.toNat ≤ cs.length * 0x4000 →
    (∀ i, reads ≤ i → i < r + cs.length * 32 → env.fails i = false) ∧
    (e.filename.length = fatxFilenameMax → ∃ own, Clusters p e.clusterId own ∧
      e.fileSize.toNat ≤ own.length * 0x4000 ∧
      (chainBytes env p own).take e.fileSize.toNat = (chainBytes env p cs).take e.fileSize.toNat)

section
variable {env : Env} {partition : Option FATXPartition} {filename : List UInt8}
  {fileinfo : FATXFILEINFO} {destination : Nat → UInt32 → Nat → UInt8} {v : UInt8} {reads : Nat}

/-- `fileinfo` as the search hands it to the load. -/
def prepared (destination : Nat → UInt32 → Nat → UInt8) (v : UInt8) (reads : Nat)
    (found : FATXFILEINFO) : FATXFILEINFO :=
  { found with buffer := fill (destination reads found.fileSize) 0 v found.fileSize.toNat }

/-- A call that returns true found the file and loaded it. -/
theorem loadFATX_eq_true {fuel : Nat} {fileinfo' : FATXFILEINFO} {reads' : Nat}
    (h : loadFATX env partition fuel filename fileinfo destination v reads =
      some (true, fileinfo', reads')) :
    ∃ p found r, partition = some p ∧
      fatxFindFile env p fuel filename fatxRootFatCluster fileinfo reads = some (true, found, r) ∧
      fatxLoadFromDisk env p fuel (prepared destination v r found) r =
        some (true, fileinfo', reads') := by
  unfold loadFATX at h
  split at h
  · cases h
  split at h
  · cases h
  rename_i p _ found fi r hfind
  cases found with
  | false => cases h
  | true => exact ⟨p, fi, r, rfl, hfind, h⟩

/-- The result of a call whose search found the file: true exactly when the
chain holds `fileSize` bytes. -/
theorem loadFATX_of_found {p : FATXPartition} (hp : Opened p) {fuel : Nat} {found : FATXFILEINFO}
    {r : Nat} {result : Bool × FATXFILEINFO × Nat}
    (hfind : fatxFindFile env p fuel filename fatxRootFatCluster fileinfo reads = some (true, found, r))
    (h : loadFATX env (some p) fuel filename fileinfo destination v reads = some result) :
    ∃ cs, Clusters p found.clusterId cs ∧ (result.1 = true ↔ found.fileSize.toNat ≤ cs.length * 0x4000) ∧
      result.2.1.fileSize = found.fileSize := by
  have hload : fatxLoadFromDisk env p fuel (prepared destination v r found) r = some result := by
    unfold loadFATX at h
    simp only [hfind, if_true] at h
    exact h
  obtain ⟨cs, hcs, hlen⟩ := loadLoop_clusters _ _ _ _ _ _ _ hload
  obtain ⟨_, _, hrun, -⟩ := loadLoop_returns env hp.geometry cs fuel found.clusterId
    (env.stack r) found.fileSize 0 { prepared destination v r found with fileRead := 0 } r hcs hlen
  have hsize := fatxLoadFromDisk_fileSize hload
  refine ⟨cs, hcs, ?_, hsize⟩
  have heq : result = _ := Option.some.inj (hload.symm.trans hrun)
  rw [heq]
  exact decide_eq_true_iff

variable (fileinfo destination v) in
/-- With enough fuel, a call that stops at a file whose chain is long enough returns true. -/
theorem loadFATX_true {p : FATXPartition} (hp : Opened p) (hpart : partition = some p)
    {e : FileEntry} {r : Nat} (hstop : StopsAtFile env p filename reads e r) {cs : List Int}
    (hcs : Clusters p e.startCluster cs) (hle : e.fileSize.toNat ≤ cs.length * 0x4000) :
    ∃ fuel fileinfo' n, loadFATX env partition fuel filename fileinfo destination v reads =
        some (true, fileinfo', r + n) ∧
      fatxLoadFromDisk env p fuel (prepared destination v r (e.store fileinfo)) r =
        some (true, fileinfo', r + n) ∧ cs.length < fuel ∧
      ((∀ i, i < n → env.fails (r + i) = false) → n = cs.length * 32) := by
  obtain ⟨fuel, hfind⟩ := hstop.finds fileinfo
  have hfind' : fatxFindFile env p (max fuel (cs.length + 1)) filename fatxRootFatCluster fileinfo
      reads = some (true, e.store fileinfo, r) := findLoop_mono (Nat.le_max_left _ _) hfind
  obtain ⟨fileinfo', n, hrun, hn⟩ := loadLoop_returns env hp.geometry cs (max fuel (cs.length + 1))
    e.startCluster (env.stack r) e.fileSize 0
    { prepared destination v r (e.store fileinfo) with fileRead := 0 } r hcs (by omega)
  rw [decide_eq_true hle] at hrun
  refine ⟨max fuel (cs.length + 1), fileinfo', n, ?_, hrun, by omega, hn⟩
  unfold loadFATX
  rw [hpart]
  simp only [hfind', if_true]
  exact hrun

/-- What a load leaves in the buffer when none of its reads fails. -/
theorem fatxLoadFromDisk_read {p : FATXPartition} (hg : Geometry p) {e : FileEntry} {r fuel : Nat}
    {cs : List Int} {fileinfo' : FATXFILEINFO} {ret : Bool} {reads' : Nat}
    (hcs : Clusters p e.startCluster cs) (hfuel : cs.length < fuel)
    (hle : e.fileSize.toNat ≤ cs.length * 0x4000)
    (hok : ∀ i, i < cs.length * 32 → env.fails (r + i) = false)
    (hload : fatxLoadFromDisk env p fuel (prepared destination v r (e.store fileinfo)) r =
      some (ret, fileinfo', reads')) :
    reads' = r + cs.length * 32 ∧ fileinfo'.fileSize = e.fileSize ∧
      read fileinfo'.buffer 0 e.fileSize.toNat = (chainBytes env p cs).take e.fileSize.toNat := by
  have hrun := loadLoop_ok hg cs fuel e.startCluster (env.stack r) e.fileSize 0
    { prepared destination v r (e.store fileinfo) with fileRead := 0 } r hcs hfuel hok
  have heq := hrun.symm.trans hload
  simp only [Option.some.injEq, Prod.mk.injEq] at heq
  obtain ⟨-, rfl, rfl⟩ := heq
  have hl : ((chainBytes env p cs).take e.fileSize.toNat).length = e.fileSize.toNat := by
    rw [List.length_take, length_chainBytes]
    omega
  have hread := read_write (prepared destination v r (e.store fileinfo)).buffer 0
    ((chainBytes env p cs).take e.fileSize.toNat)
  rw [hl] at hread
  exact ⟨rfl, rfl, hread⟩

theorem StopsAt.reads_le {p : FATXPartition} (hg : Geometry p) {e : FileEntry} {r : Nat}
    (h : StopsAtFile env p filename reads e r) : reads ≤ r := by
  obtain ⟨fuel, hfind⟩ := h.finds ⟨[], 0, 0, 0, fun _ => 0⟩
  exact findLoop_reads hg hfind

theorem LoadsHold.of_true (hp : ∀ p, partition = some p → Opened p)
    (h : TrueMeansLoaded env partition filename reads
      fun fuel => loadFATX env partition fuel filename fileinfo destination v reads) :
    LoadsHold env partition filename reads := by
  intro p hpart e r hstop cs hcs hle
  have hopened := hp p hpart
  obtain ⟨fuel, fileinfo', n, hcall, hload, hfuel, hn⟩ := loadFATX_true fileinfo destination v
    hopened hpart hstop hcs hle
  obtain ⟨hfails, p', e', r', own, hpart', hstop', hown, hleown, -, hread⟩ := h _ _ _ hcall
  cases hpart.symm.trans hpart'
  obtain ⟨rfl, rfl⟩ := hstop.unique hstop'
  have hr : reads ≤ r := StopsAt.reads_le hopened.geometry hstop
  have h32 := hn fun j hj => hfails (r + j) (by omega) (by omega)
  refine ⟨fun i h1 h2 => hfails i h1 (by omega), fun _ => ⟨own, hown, hleown, ?_⟩⟩
  obtain ⟨-, -, hread'⟩ := fatxLoadFromDisk_read hopened.geometry hcs hfuel hle
    (fun i hi => hfails (r + i) (by omega) (by omega)) hload
  exact hread.symm.trans hread'

theorem TrueMeansLoaded.of_loadsHold (hp : ∀ p, partition = some p → Opened p)
    (h : LoadsHold env partition filename reads) :
    TrueMeansLoaded env partition filename reads
      fun fuel => loadFATX env partition fuel filename fileinfo destination v reads := by
  intro fuel fileinfo' reads' hcall
  obtain ⟨p, found, r, hpart, hfind, hload⟩ := loadFATX_eq_true hcall
  have hg := (hp p hpart).geometry
  obtain ⟨e, hstop, rfl⟩ := findLoop_true_iff.1 ⟨_, hfind⟩
  obtain ⟨cs, hcs, hlen⟩ := loadLoop_clusters _ _ _ _ _ _ _ hload
  have hcs : Clusters p e.startCluster cs := hcs
  obtain ⟨_, _, hrun, -⟩ := loadLoop_returns env hg cs fuel e.startCluster (env.stack r)
    e.fileSize 0 { prepared destination v r (e.store fileinfo) with fileRead := 0 } r hcs hlen
  have hle : e.fileSize.toNat ≤ cs.length * 0x4000 := by
    have := hrun.symm.trans hload
    simp only [Option.some.injEq, Prod.mk.injEq, decide_eq_true_eq] at this
    exact this.1
  obtain ⟨hfails, hsame⟩ := h p hpart e r hstop cs hcs hle
  have hr : reads ≤ r := StopsAt.reads_le hg hstop
  obtain ⟨rfl, hsize, hread⟩ := fatxLoadFromDisk_read hg hcs hlen hle
    (fun i hi => hfails (r + i) (by omega) (by omega)) hload
  refine ⟨hfails, ?_⟩
  by_cases hname : e.filename.length = fatxFilenameMax
  · obtain ⟨own, hown, hleown, heq⟩ := hsame hname
    exact ⟨p, e, r, own, hpart, hstop, hown, hleown, hsize, hread.trans heq.symm⟩
  · have hstart : e.startCluster = e.clusterId := if_neg hname
    exact ⟨p, e, r, cs, hpart, hstop, hstart ▸ hcs, hle, hsize, hread⟩

end

/-- **Loading by name.**  Both functions keep their word exactly when, unless the
search does not stop at a file or the chain loaded is too short for it, none of
the reads fails and that chain holds the bytes of the file's own. -/
theorem trueMeansLoaded_iff (env : Env) (partition : Option FATXPartition)
    (hp : ∀ p, partition = some p → Opened p) (filename : List UInt8) (fileinfo : FATXFILEINFO)
    (position : Nat → UInt8) (malloc : Nat → UInt32 → Nat → UInt8) (reads : Nat) :
    (TrueMeansLoaded env partition filename reads
        (fun fuel => loadFATXFilefixed env partition fuel filename fileinfo position reads) ↔
      LoadsHold env partition filename reads) ∧
    (TrueMeansLoaded env partition filename reads
        (fun fuel => loadFATXFile env partition fuel filename fileinfo malloc reads) ↔
      LoadsHold env partition filename reads) :=
  ⟨⟨.of_true hp, .of_loadsHold hp⟩, ⟨.of_true hp, .of_loadsHold hp⟩⟩

theorem trueMeansLoaded_iff_small :
    (TrueMeansLoaded (smallDisk (· == 40)) (some smallPartition) [0x61] 0
        (fun fuel => loadFATXFilefixed (smallDisk (· == 40)) (some smallPartition) fuel [0x61]
          smallFile (fun _ => 0) 0) ↔
      LoadsHold (smallDisk (· == 40)) (some smallPartition) [0x61] 0) ∧
    (TrueMeansLoaded (smallDisk (· == 40)) (some smallPartition) [0x61] 0
        (fun fuel => loadFATXFile (smallDisk (· == 40)) (some smallPartition) fuel [0x61]
          smallFile (fun _ _ _ => 0) 0) ↔
      LoadsHold (smallDisk (· == 40)) (some smallPartition) [0x61] 0) :=
  trueMeansLoaded_iff _ _ (by rintro p ⟨⟩; exact smallPartition_opened) _ _ _ _ _

/-- The first read of the file's data fails: the call returns true with a zero
from the stack where the drive holds 48. -/
theorem stale_cluster_returned :
    ¬ TrueMeansLoaded (smallDisk (· == 32)) (some smallPartition) [0x61] 0
      (fun fuel => loadFATXFilefixed (smallDisk (· == 32)) (some smallPartition) fuel [0x61]
        smallFile (fun _ => 0) 0) := by
  intro h
  have hrun : (loadFATXFilefixed (smallDisk (· == 32)) (some smallPartition) 3 [0x61]
      smallFile (fun _ => 0) 0).map (fun r => (r.1, r.2.1.fileSize, r.2.1.buffer 0)) =
      some (true, 0x4001, 0) := by
    decide +kernel
  have hfind : (fatxFindFile (smallDisk (· == 32)) smallPartition 1 [0x61] fatxRootFatCluster
      smallFile 0).map (fun r => (r.1, r.2.1.clusterId, r.2.1.filename)) =
      some (true, 2, [0x61]) := by
    decide +kernel
  obtain ⟨⟨ret, fi, r⟩, hcall, hfi⟩ := Option.map_eq_some_iff.1 hrun
  simp only [Prod.mk.injEq] at hfi
  obtain ⟨rfl, hsize, hbyte⟩ := hfi
  obtain ⟨⟨ret, found, r₁⟩, hstop, hfound⟩ := Option.map_eq_some_iff.1 hfind
  simp only [Prod.mk.injEq] at hfound
  obtain ⟨rfl, hid, hname⟩ := hfound
  obtain ⟨-, p, e, r₂, cs, hp, he, hcs, -, hsize', hread⟩ := h 3 fi r hcall
  cases hp
  obtain ⟨e', he', rfl⟩ := findLoop_true_iff.1 ⟨_, hstop⟩
  obtain ⟨rfl, -⟩ := he.unique he'
  have hid : e.clusterId = 2 := by
    have hname : e.filename = [0x61] := hname
    have hid : keptClusterId e.filename e.clusterId = 2 := hid
    rw [hname] at hid
    exact hid
  rw [hid] at hcs
  obtain rfl : cs = [2, 3] :=
    hcs.unique (smallPartition_chain.clusters smallPartition_opened.geometry 2 rfl)
  rw [hsize] at hsize'
  have hfirst := congrArg (fun l : List UInt8 => l[0]?) hread
  simp only [← hsize'] at hfirst
  rw [getElem?_read _ _ _ _ (by decide), List.getElem?_take_of_lt (by decide), hbyte] at hfirst
  exact absurd hfirst (by decide +kernel)

end Gentoox.Fatx
