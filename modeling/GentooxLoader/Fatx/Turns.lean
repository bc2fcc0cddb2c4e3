import GentooxLoader.Fatx.Walk

/-!
# The turns of the cluster loops

The loops of `FATXLoadFromDisk`, `FATXFindDir` and `FATXListDir` and of
`_FATXFindFile`, turn by turn.  For the directories it is said what the loops
return, by the entries the walk has seen:

    walkDir_cases    at the end of the chain, before it, or never
    findLoop_comes   the search as far as nothing in the directory stops it
-/

namespace Gentoox.Fatx

open Cells Lib Loops

/-! ## Algorithm -/

/-- The variables of the loop of `FATXLoadFromDisk` besides those of the walk. -/
structure Loading where
  fileSize : UInt32
  ptr : Nat
  fileinfo : FATXFILEINFO

/-- What the loop does with a buffer. -/
def loadBody (p : FATXPartition) (l : Loading) (clusterData : Nat → UInt8) :
    Turn Loading (Bool × FATXFILEINFO) :=
  let written := if l.fileSize ≤ p.clusterSize then l.fileSize else p.clusterSize
  .next {
    fileSize := l.fileSize - written
    ptr := l.ptr + written.toNat
    fileinfo := { l.fileinfo with
      buffer := copy l.fileinfo.buffer l.ptr clusterData 0 written.toNat
      fileRead := l.fileinfo.fileRead + written } }

/-- A turn of a loop along a chain: `exit` is what it ends with there. -/
def chainTurn {α ρ : Type} (env : Env) (p : FATXPartition) (body : α → (Nat → UInt8) → Turn α ρ)
    (exit : α → ρ) (v : Walk × α) : Option (Turn (Walk × α) (ρ × Nat)) :=
  if v.1.clusterId = -1 then some (.done (exit v.2, v.1.reads))
  else
    (loadFATXCluster env p v.1.clusterId v.1.clusterData v.1.reads).map fun r =>
      match body v.2 r.1 with
      | .done ret => .done (ret, r.2)
      | .next acc => .next (⟨link p v.1.clusterId, r.1, r.2⟩, acc)

/-- The variables of `_FATXFindFile`. -/
structure Search where
  filename : List UInt8
  walk : Walk
  fileinfo : FATXFILEINFO

/-- By how the loop over the entries ends; `w` is the walk at the next cluster. -/
def Search.go (env : Env) (v : Search) (rest : Option (List UInt8)) (w : Walk) :
    Scan → Turn Search (Bool × FATXFILEINFO × Nat)
  | .exhausted => .next { v with walk := w }
  | .endOfDirectory => .done (false, v.fileinfo, w.reads)
  | .refused => .done (false, v.fileinfo, w.reads)
  | .directory entryClusterId =>
    .next ⟨rest.getD [], ⟨entryClusterId, env.stack w.reads, w.reads⟩, v.fileinfo⟩
  | .file entryClusterId fileSize =>
    .done (true, v.fileinfo.setFile v.filename entryClusterId fileSize, w.reads)

/-- A turn of the loop, or the call for a directory. -/
def findTurn (env : Env) (p : FATXPartition) (v : Search) :
    Option (Turn Search (Bool × FATXFILEINFO × Nat)) :=
  match seekName v.filename with
  | none => some (.done (false, v.fileinfo, v.walk.reads))
  | some (seekFilename, rest) =>
    if v.walk.clusterId = -1 then some (.done (false, v.fileinfo, v.walk.reads))
    else
      (loadFATXCluster env p v.walk.clusterId v.walk.clusterData v.walk.reads).map fun r =>
        v.go env rest ⟨link p v.walk.clusterId, r.1, r.2⟩
          (scanEntries r.1 seekFilename rest.isSome
            (p.clusterSize.toNat / fatxDirectoryEntrySize) 0)

/-- The loop over the entries of a buffer. -/
def scanBody {α : Type} (p : FATXPartition) (visit : (Nat → UInt8) → α → Nat → Listing α) (acc : α)
    (clusterData : Nat → UInt8) : Turn α α :=
  (scanDir clusterData (visit clusterData) (p.clusterSize.toNat / fatxDirectoryEntrySize) 0 acc).turn

/-- The name that `FATXFindFile` hands on. -/
def stripped (filename : List UInt8) : List UInt8 :=
  (filename.map fun c => if c = 0x5c then 0x2f else c).dropWhile (· == 0x2f)

section
variable {env : Env} {p : FATXPartition} {α ρ : Type}

theorem loadLoop_eq (fuel : Nat) (w : Walk) (l : Loading) :
    loadLoop env p fuel w.clusterId w.clusterData l.fileSize l.ptr l.fileinfo w.reads =
      (loop (chainTurn env p (loadBody p) fun l => (decide (l.fileSize = 0), l.fileinfo)) fuel
        (w, l)).map fun r => (r.1.1, r.1.2, r.2) := by
  induction fuel generalizing w l with
  | zero => rfl
  | succ fuel ih =>
    unfold loadLoop loop chainTurn
    simp only
    by_cases hid : w.clusterId = -1
    · rw [if_pos hid, if_pos hid]
      rfl
    rw [if_neg hid, if_neg hid]
    cases loadFATXCluster env p w.clusterId w.clusterData w.reads with
    | none => rfl
    | some r => exact ih ⟨_, r.1, r.2⟩ ⟨_, _, _⟩

theorem fatxLoadFromDisk_eq (fuel : Nat) (fileinfo : FATXFILEINFO) (reads : Nat) :
    fatxLoadFromDisk env p fuel fileinfo reads =
      (loop (chainTurn env p (loadBody p) fun l => (decide (l.fileSize = 0), l.fileinfo)) fuel
        (.start env fileinfo.clusterId reads,
          ⟨fileinfo.fileSize, 0, { fileinfo with fileRead := 0 }⟩)).map
        fun r => (r.1.1, r.1.2, r.2) :=
  loadLoop_eq fuel (.start env fileinfo.clusterId reads)
    ⟨fileinfo.fileSize, 0, { fileinfo with fileRead := 0 }⟩

/-- A load never ends at a buffer. -/
theorem forEach_loadBody (l : List (Nat → UInt8)) (acc : Loading) :
    ∃ acc', forEach (loadBody p) l acc = .next acc' := by
  induction l generalizing acc with
  | nil => exact ⟨acc, rfl⟩
  | cons d l ih => exact ih _

theorem walkDir_eq (visit : (Nat → UInt8) → α → Nat → Listing α) (fuel : Nat) (w : Walk)
    (acc : α) : walkDir env p visit fuel w.clusterId w.clusterData acc w.reads =
      loop (chainTurn env p (scanBody p visit) id) fuel (w, acc) := by
  induction fuel generalizing w acc with
  | zero => rfl
  | succ fuel ih =>
    unfold walkDir loop chainTurn
    simp only [scanBody]
    by_cases hid : w.clusterId = -1
    · rw [if_pos hid, if_pos hid]
      rfl
    rw [if_neg hid, if_neg hid]
    cases loadFATXCluster env p w.clusterId w.clusterData w.reads with
    | none => rfl
    | some r =>
      simp only [Option.map_some]
      cases scanDir r.1 (visit r.1) (p.clusterSize.toNat / fatxDirectoryEntrySize) 0 acc with
      | done acc' => rfl
      | more acc' => exact ih ⟨_, r.1, r.2⟩ acc'

theorem findLoop_eq (fuel : Nat) (v : Search) :
    findLoop env p fuel v.filename v.walk.clusterId v.walk.clusterData v.fileinfo v.walk.reads =
      loop (findTurn env p) fuel v := by
  induction fuel generalizing v with
  | zero => rfl
  | succ fuel ih =>
    unfold findLoop loop findTurn
    cases seekName v.filename with
    | none => rfl
    | some s =>
      simp only
      by_cases hid : v.walk.clusterId = -1
      · rw [if_pos hid, if_pos hid]
      rw [if_neg hid, if_neg hid]
      cases loadFATXCluster env p v.walk.clusterId v.walk.clusterData v.walk.reads with
      | none => rfl
      | some r =>
        simp only [Option.map_some]
        cases scanEntries r.1 s.1 s.2.isSome
            (p.clusterSize.toNat / fatxDirectoryEntrySize) 0 with
        | exhausted => exact ih ⟨v.filename, ⟨link p v.walk.clusterId, r.1, r.2⟩, v.fileinfo⟩
        | endOfDirectory => rfl
        | refused => rfl
        | directory entryClusterId =>
          exact ih ⟨s.2.getD [], ⟨entryClusterId, env.stack r.2, r.2⟩, v.fileinfo⟩
        | file entryClusterId fileSize => rfl

/-! ## Loops along a chain -/

section
variable {body : α → (Nat → UInt8) → Turn α ρ} {exit : α → ρ} {w : Walk} {acc acc' : α} {r : ρ}

theorem chainTurn_exit (h : w.clusterId = -1) :
    chainTurn env p body exit (w, acc) = some (.done (exit acc, w.reads)) := if_pos h

theorem chainTurn_done (hg : Geometry p) (hid : w.clusterId ≠ -1)
    (h : body acc (w.load env p).clusterData = .done r) :
    chainTurn env p body exit (w, acc) = some (.done (r, (w.load env p).reads)) := by
  unfold chainTurn
  rw [if_neg hid, load_eq hg, Option.map_some]
  simp only [h]

theorem walks_chain (hg : Geometry p) (body : α → (Nat → UInt8) → Turn α ρ) (exit : α → ρ) :
    Walks env p body (chainTurn env p body exit) Prod.mk := by
  intro w acc acc' hid h
  unfold chainTurn
  rw [if_neg hid, load_eq hg, Option.map_some]
  simp only [h]
  rfl

theorem chain_end (hg : Geometry p) {n : Nat} (hlong : Long p w.clusterId n)
    (hend : (link p)^[n] w.clusterId = -1) (hacc : forEach body (buffers env p n w) acc = .next acc') :
    Fuel.Ends (fun fuel => loop (chainTurn env p body exit) fuel (w, acc))
      (some (exit acc', (w.after env p n).reads)) :=
  ((walks_chain hg body exit).comes hlong hacc).ends
    (chainTurn_exit ((after_clusterId env p n w).trans hend))

theorem chain_done (hg : Geometry p) {n : Nat} (hlong : Long p w.clusterId (n + 1))
    (hacc : forEach body (buffers env p n w) acc = .next acc')
    (hdone : body acc' ((w.after env p n).load env p).clusterData = .done r) :
    Fuel.Ends (fun fuel => loop (chainTurn env p body exit) fuel (w, acc))
      (some (r, ((w.after env p n).load env p).reads)) := by
  obtain ⟨hlong, hid⟩ := long_succ.1 hlong
  rw [← after_clusterId env p] at hid
  exact ((walks_chain hg body exit).comes hlong hacc).ends (chainTurn_done hg hid hdone)

variable (env) in
/-- The loop returns unless the walk repeats and the body lets all of it pass. -/
theorem chain_ends_iff (hg : Geometry p) (body : α → (Nat → UInt8) → Turn α ρ) (exit : α → ρ)
    (w : Walk) (acc : α) :
    (∃ fuel r, loop (chainTurn env p body exit) fuel (w, acc) = some r) ↔
      ¬ (Repeats p w.clusterId ∧ ∀ n, ∃ acc', forEach body (buffers env p n w) acc = .next acc') := by
  constructor
  · rintro ⟨fuel, r, h⟩ ⟨hrepeats, hpass⟩
    rw [(walks_chain hg body exit).never_ends hrepeats hpass fuel] at h
    cases h
  · intro h
    rcases walk_cases env p body w acc with
      ⟨n, acc', hlong, hend, hacc⟩ | ⟨n, acc', r, hlong, hacc, hdone⟩ | hnever
    · have hends : Fuel.Ends (fun fuel => loop (chainTurn env p body exit) fuel (w, acc)) _ :=
        chain_end hg hlong hend hacc
      obtain ⟨fuel, hfuel⟩ := hends
      exact ⟨fuel, _, hfuel fuel (Nat.le_refl _)⟩
    · have hends : Fuel.Ends (fun fuel => loop (chainTurn env p body exit) fuel (w, acc)) _ :=
        chain_done hg hlong hacc hdone
      obtain ⟨fuel, hfuel⟩ := hends
      exact ⟨fuel, _, hfuel fuel (Nat.le_refl _)⟩
    · exact absurd hnever h

end

/-! ## Loops over a directory -/

theorem entries_of_cluster (hg : Geometry p) :
    p.clusterSize.toNat / fatxDirectoryEntrySize = 256 := by
  rw [hg.clusterSize]
  rfl

/-- The loop over the entries of a buffer, as a body. -/
def dirWalk (visit : α → DirEntry → Turn α α) (acc : α) (clusterData : Nat → UInt8) : Turn α α :=
  forEach (dirBody visit) (entriesOf clusterData) acc

theorem forEach_dirWalk (visit : α → DirEntry → Turn α α) (n : Nat) (w : Walk) (acc : α) :
    forEach (dirWalk visit) (buffers env p n w) acc = forEach (dirBody visit) (seen env p n w) acc :=
  forEach_flatMap entriesOf (buffers env p n w) acc

section
variable {visit : (Nat → UInt8) → α → Nat → Listing α} {visitEntry : α → DirEntry → Turn α α}
  (hvisit : ∀ clusterData acc curEntry, ¬ (dirEntry clusterData curEntry).BadSize →
    (visit clusterData acc curEntry).turn = visitEntry acc (dirEntry clusterData curEntry))
  (hg : Geometry p) {w : Walk} {acc acc' : α} {n : Nat}

include hvisit hg

theorem scanBody_eq : scanBody p visit = dirWalk visitEntry := by
  funext acc clusterData
  unfold scanBody
  rw [entries_of_cluster hg, scanDir_forEach (hvisit clusterData)]
  rfl

theorem walkDir_loop (fuel : Nat) (w : Walk) (acc : α) :
    walkDir env p visit fuel w.clusterId w.clusterData acc w.reads =
      loop (chainTurn env p (dirWalk visitEntry) id) fuel (w, acc) := by
  rw [walkDir_eq, scanBody_eq hvisit hg]

/-- What the loop returns with some fuel it returns with more. -/
theorem walkDir_stable {fuel : Nat} {r : α × Nat}
    (h : walkDir env p visit fuel w.clusterId w.clusterData acc w.reads = some r) :
    Fuel.Ends (fun fuel => walkDir env p visit fuel w.clusterId w.clusterData acc w.reads)
      (some r) := by
  simp only [walkDir_loop hvisit hg] at h ⊢
  exact ends_of_loop h

/-- The chain has been gone through. -/
theorem walkDir_end (hlong : Long p w.clusterId n) (hend : (link p)^[n] w.clusterId = -1)
    (hacc : forEach (dirBody visitEntry) (seen env p n w) acc = .next acc') :
    Fuel.Ends (fun fuel => walkDir env p visit fuel w.clusterId w.clusterData acc w.reads)
      (some (acc', (w.after env p n).reads)) := by
  rw [← forEach_dirWalk] at hacc
  simp only [walkDir_loop hvisit hg]
  exact chain_end hg hlong hend hacc

/-- An entry ends the loop in the last cluster seen. -/
theorem walkDir_done {r : α} (hlong : Long p w.clusterId (n + 1))
    (hacc : forEach (dirBody visitEntry) (seen env p n w) acc = .next acc')
    (hdone : forEach (dirBody visitEntry) (seen env p (n + 1) w) acc = .done r) :
    Fuel.Ends (fun fuel => walkDir env p visit fuel w.clusterId w.clusterData acc w.reads)
      (some (r, ((w.after env p n).load env p).reads)) := by
  rw [seen_succ, forEach_append, hacc] at hdone
  rw [← forEach_dirWalk] at hacc
  simp only [walkDir_loop hvisit hg]
  exact chain_done hg hlong hacc hdone

variable (env) in
/-- The three ways of a loop over a directory. -/
theorem walkDir_cases (w : Walk) (acc : α) :
    (∃ n acc' reads', Long p w.clusterId n ∧ (link p)^[n] w.clusterId = -1 ∧
      forEach (dirBody visitEntry) (seen env p n w) acc = .next acc' ∧
      Fuel.Ends (fun fuel => walkDir env p visit fuel w.clusterId w.clusterData acc w.reads)
        (some (acc', reads'))) ∨
    (∃ n r reads', Long p w.clusterId n ∧
      forEach (dirBody visitEntry) (seen env p n w) acc = .done r ∧
      Fuel.Ends (fun fuel => walkDir env p visit fuel w.clusterId w.clusterData acc w.reads)
        (some (r, reads'))) ∨
    (∀ n, ∃ acc', forEach (dirBody visitEntry) (seen env p n w) acc = .next acc') ∧
      ∀ fuel, walkDir env p visit fuel w.clusterId w.clusterData acc w.reads = none := by
  rcases walk_cases env p (dirWalk visitEntry) w acc with
    ⟨n, acc', hlong, hend, hacc⟩ | ⟨n, acc', r, hlong, hacc, hdone⟩ | ⟨hrepeats, hpass⟩
  · rw [forEach_dirWalk] at hacc
    exact .inl ⟨n, acc', _, hlong, hend, hacc, walkDir_end hvisit hg hlong hend hacc⟩
  · rw [forEach_dirWalk] at hacc
    have hseen : forEach (dirBody visitEntry) (seen env p (n + 1) w) acc = .done r := by
      rw [seen_succ, forEach_append, hacc]
      exact hdone
    exact .inr (.inl ⟨n + 1, r, _, hlong, hseen, walkDir_done hvisit hg hlong hacc hseen⟩)
  · refine .inr (.inr ⟨fun n => ?_, fun fuel => ?_⟩)
    · rw [← forEach_dirWalk]
      exact hpass n
    · rw [walkDir_loop hvisit hg]
      exact (walks_chain hg (dirWalk visitEntry) id).never_ends hrepeats hpass fuel

variable (env) in
theorem walkDir_ends_iff (w : Walk) (acc : α) :
    (∃ fuel r, walkDir env p visit fuel w.clusterId w.clusterData acc w.reads = some r) ↔
      ¬ (Repeats p w.clusterId ∧
        ∀ n, ∃ acc', forEach (dirBody visitEntry) (seen env p n w) acc = .next acc') := by
  simp only [walkDir_loop hvisit hg, chain_ends_iff env hg, forEach_dirWalk]

end

/-! ## The search -/

section
variable {filename seek : List UInt8} {rest : Option (List UInt8)} {w : Walk}
  {fileinfo : FATXFILEINFO} {n : Nat}

/-- The entries of a directory go on until one stops the search. -/
def fileWalk (seek : List UInt8) (lookForDirectory : Bool) (_ : Unit) (clusterData : Nat → UInt8) :
    Turn Unit Scan :=
  forEach (fileBody seek lookForDirectory) (entriesOf clusterData) ()

theorem forEach_fileWalk (seek : List UInt8) (b : Bool) (n : Nat) (w : Walk) :
    forEach (fileWalk seek b) (buffers env p n w) () = forEach (fileBody seek b) (seen env p n w) () :=
  forEach_flatMap entriesOf (buffers env p n w) ()

theorem findTurn_eq (hg : Geometry p) (hseek : seekName filename = some (seek, rest))
    (hid : w.clusterId ≠ -1) : findTurn env p ⟨filename, w, fileinfo⟩ =
      some (Search.go env ⟨filename, w, fileinfo⟩ rest (w.next env p)
        (scanOf (fileWalk seek rest.isSome () (w.load env p).clusterData))) := by
  unfold findTurn
  rw [hseek]
  simp only
  rw [if_neg hid, load_eq hg, Option.map_some, entries_of_cluster hg, scanEntries_forEach]
  rfl

theorem findTurn_exit (hid : w.clusterId = -1) :
    findTurn env p ⟨filename, w, fileinfo⟩ = some (.done (false, fileinfo, w.reads)) := by
  unfold findTurn
  cases seekName filename with
  | none => rfl
  | some s => exact if_pos hid

theorem findTurn_refused (hseek : seekName filename = none) :
    findTurn env p ⟨filename, w, fileinfo⟩ = some (.done (false, fileinfo, w.reads)) := by
  unfold findTurn
  rw [hseek]

theorem walks_find (hg : Geometry p) (hseek : seekName filename = some (seek, rest))
    (fileinfo : FATXFILEINFO) : Walks env p (fileWalk seek rest.isSome) (findTurn env p)
      fun w _ => ⟨filename, w, fileinfo⟩ := by
  intro w _ _ hid h
  rw [findTurn_eq hg hseek hid, h]
  rfl

/-- The search comes as far as no entry stops it. -/
theorem findLoop_comes (hg : Geometry p) (hseek : seekName filename = some (seek, rest))
    (hlong : Long p w.clusterId n)
    (hacc : forEach (fileBody seek rest.isSome) (seen env p n w) () = .next ()) :
    Comes (findTurn env p) ⟨filename, w, fileinfo⟩ ⟨filename, w.after env p n, fileinfo⟩ := by
  rw [← forEach_fileWalk] at hacc
  exact (walks_find hg hseek fileinfo).comes hlong hacc

end

end

end Gentoox.Fatx
