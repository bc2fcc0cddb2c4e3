import GentooxLoader.Fatx.Load

/-!
# Directories (FATXFindDir, FATXListDir)

Unlike the search for a file, the two pass over entries with a bad size of the
name, and `FATXFindDir` has ways out without a return value.

    fatxListDir_length   the list never outgrows the array
-/

namespace Gentoox.Fatx

open Cells Lib

/-! ## Algorithm -/

/-- How a loop over the entries of a cluster goes on. -/
inductive Listing (α : Type) where
  | more (acc : α)
  | done (acc : α)

/-- The loop over the entries from `i` on; `visit` gets the live ones. -/
def scanDir {α : Type} (clusterData : Nat → UInt8) (visit : α → Nat → Listing α) :
    Nat → Nat → α → Listing α
  | 0, _, acc => .more acc
  | n + 1, i, acc =>
    let curEntry := i * fatxDirectoryEntrySize
    let filenameSize := clusterData curEntry
    if checkForLastDirectoryEntry filenameSize then .done acc
    else if filenameSize = 0xE5 then scanDir clusterData visit n (i + 1) acc
    else if filenameSize.toNat < 1 ∨ filenameSize.toNat > fatxFilenameMax then
      scanDir clusterData visit n (i + 1) acc
    else
      match visit acc curEntry with
      | .more acc => scanDir clusterData visit n (i + 1) acc
      | .done acc => .done acc

/-- The `while(clusterId != -1)` loop around it. -/
def walkDir {α : Type} (env : Env) (p : FATXPartition)
    (visit : (Nat → UInt8) → α → Nat → Listing α) :
    Nat → Int → (Nat → UInt8) → α → Nat → Option (α × Nat)
  | 0, _, _, _, _ => none
  | fuel + 1, clusterId, clusterData, acc, reads =>
    if clusterId = -1 then some (acc, reads)
    else
      match loadFATXCluster env p clusterId clusterData reads with
      | none => none
      | some (clusterData, reads) =>
        match scanDir clusterData (visit clusterData) (p.clusterSize.toNat / fatxDirectoryEntrySize) 0
            acc with
        | .done acc => some (acc, reads)
        | .more acc =>
          walkDir env p visit fuel (signed (getNextClusterInChain p clusterId)) clusterData acc reads

/-- Is it what we are looking for? -/
def visitForDir (dir : List UInt8) (clusterData : Nat → UInt8) (ret : Option Int) (curEntry : Nat) :
    Listing (Option Int) :=
  let foundFilename := cstr (read clusterData (curEntry + 2) (clusterData curEntry).toNat)
  let flags := clusterData (curEntry + 1)
  let entryClusterId := u32At clusterData (curEntry + 0x2c)
  if dir.length = foundFilename.length ∧ strncasecmp foundFilename dir dir.length = 0 then
    .done (some (if flags &&& fatxFileAttrDirectory ≠ 0 then signed entryClusterId else -1))
  else .more ret

/-- The return value, if the function gives one, and the number of reads. -/
def fatxFindDir (env : Env) (p : FATXPartition) (fuel : Nat) (clusterId : Int) (dir : List UInt8)
    (reads : Nat) : Option (Option Int × Nat) :=
  walkDir env p (visitForDir dir) fuel clusterId (env.stack reads) none reads

/-- One more string for the list. -/
def visitForList (reslen : Nat) (path : List UInt8) (clusterData : Nat → UInt8)
    (res : List (List UInt8)) (curEntry : Nat) : Listing (List (List UInt8)) :=
  let name := cstr (path ++ read clusterData (curEntry + 2) (clusterData curEntry).toNat)
  let res := res ++ [name]
  if res.length ≥ reslen then .done res else .more res

/-- `res` as far as it is filled. -/
def fatxListDir (env : Env) (p : FATXPartition) (fuel : Nat) (clusterId : Int) (reslen : Nat)
    (path : List UInt8) (reads : Nat) : Option (List (List UInt8) × Nat) :=
  walkDir env p (visitForList reslen path) fuel clusterId (env.stack reads) [] reads

/-! ## Loops over a directory -/

section
variable {α : Type} {P Q : α → Prop}

/-- `P` is kept from entry to entry and gives `Q` at the end. -/
structure KeptBy (visit : α → Nat → Listing α) (P Q : α → Prop) : Prop where
  more : ∀ acc i acc', P acc → visit acc i = .more acc' → P acc'
  done : ∀ acc i acc', P acc → visit acc i = .done acc' → Q acc'
  weaken : ∀ acc, P acc → Q acc

theorem scanDir_kept (clusterData : Nat → UInt8) {visit : α → Nat → Listing α}
    (h : KeptBy visit P Q) : ∀ (n i : Nat) (acc : α), P acc →
    match scanDir clusterData visit n i acc with
    | .more acc' => P acc'
    | .done acc' => Q acc' := by
  intro n
  induction n with
  | zero =>
    intro i acc hp
    exact hp
  | succ n ih =>
    intro i acc hp
    unfold scanDir
    simp only
    split_ifs
    · exact h.weaken acc hp
    · exact ih (i + 1) acc hp
    · exact ih (i + 1) acc hp
    · cases hv : visit acc (i * fatxDirectoryEntrySize) with
      | more acc' => exact ih (i + 1) acc' (h.more _ _ _ hp hv)
      | done acc' => exact h.done _ _ _ hp hv

theorem walkDir_kept {env : Env} {p : FATXPartition} {visit : (Nat → UInt8) → α → Nat → Listing α}
    (h : ∀ clusterData, KeptBy (visit clusterData) P Q) : ∀ (fuel : Nat) (clusterId : Int)
    (clusterData : Nat → UInt8) (acc : α) (reads : Nat) (r : α × Nat), P acc →
    walkDir env p visit fuel clusterId clusterData acc reads = some r → Q r.1 := by
  intro fuel
  induction fuel with
  | zero =>
    intro clusterId clusterData acc reads r _ hr
    cases hr
  | succ fuel ih =>
    intro clusterId clusterData acc reads r hp hr
    unfold walkDir at hr
    split_ifs at hr
    · cases hr
      exact (h clusterData).weaken acc hp
    split at hr
    · cases hr
    rename_i clusterData' reads' _
    have hscan := scanDir_kept clusterData' (h clusterData')
      (p.clusterSize.toNat / fatxDirectoryEntrySize) 0 acc hp
    split at hr
    · rename_i acc' hacc
      rw [hacc] at hscan
      cases hr
      exact hscan
    · rename_i acc' hacc
      rw [hacc] at hscan
      exact ih _ _ _ _ _ hscan hr

end

/-- **The list fits.**  No more strings than the array has places. -/
theorem fatxListDir_length {env : Env} {p : FATXPartition} {fuel : Nat} {clusterId : Int}
    {reslen : Nat} {path : List UInt8} {reads : Nat} {r : List (List UInt8) × Nat}
    (hlen : 0 < reslen) (h : fatxListDir env p fuel clusterId reslen path reads = some r) :
    r.1.length ≤ reslen := by
  refine walkDir_kept (P := fun res => res.length < reslen) (Q := fun res => res.length ≤ reslen)
    (fun clusterData => ⟨?_, ?_, fun _ => Nat.le_of_lt⟩) fuel clusterId _ [] reads r hlen h
  · intro res i res' _ hv
    unfold visitForList at hv
    simp only at hv
    split_ifs at hv with hfull
    cases hv
    omega
  · intro res i res' hp hv
    unfold visitForList at hv
    simp only at hv
    split_ifs at hv
    cases hv
    rw [List.length_append, List.length_singleton]
    omega

end Gentoox.Fatx
