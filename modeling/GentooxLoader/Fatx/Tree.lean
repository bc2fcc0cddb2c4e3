import GentooxLoader.Fatx.Walk

/-!
# Directory trees

What is stored on a drive, as FATX means it: a directory is a chain of clusters
with entries up to an end marker, and a path leads through directories to a
file, each of its names standing for the first entry of that name, in any case.

    seen_eq          where no read fails, the entries seen are those stored
    Resolves.unique  a path leads to one file at most
-/

namespace Gentoox.Fatx

open Cells Lib

/-! ## What is stored -/

/-- A cluster, as the buffer of a loop. -/
def stored (env : Env) (p : FATXPartition) (clusterId : Int) : Nat → UInt8 :=
  fun i => (clusterBytes env p clusterId).getD i 0

/-- The entries in `n` clusters of a walk. -/
def along (env : Env) (p : FATXPartition) : Nat → Int → List DirEntry
  | 0, _ => []
  | n + 1, clusterId => entriesOf (stored env p clusterId) ++ along env p n (link p clusterId)

theorem dirEntry_congr {a b : Nat → UInt8} {curEntry : Nat}
    (h : ∀ i, i < 0x40 → a (curEntry + i) = b (curEntry + i)) :
    dirEntry a curEntry = dirEntry b curEntry := by
  have h0 : a curEntry = b curEntry := h 0 (by omega)
  have hname : read a (curEntry + 2) (min (a curEntry).toNat fatxFilenameMax) =
      read b (curEntry + 2) (min (a curEntry).toNat fatxFilenameMax) := by
    refine (read_eq_iff _ _ _ _ _).2 fun i hi => ?_
    unfold fatxFilenameMax at hi
    rw [Nat.add_assoc]
    exact h (2 + i) (by omega)
  have hdword : ∀ k, k + 3 < 0x40 → u32At a (curEntry + k) = u32At b (curEntry + k) := by
    intro k hk
    have hbyte : ∀ i, i < 4 → a (curEntry + k + i) = b (curEntry + k + i) := by
      intro i hi
      rw [Nat.add_assoc]
      exact h (k + i) (by omega)
    show (a (curEntry + k + 0)).toUInt32 + (a (curEntry + k + 1)).toUInt32 * 2 ^ 8 +
        (a (curEntry + k + 2)).toUInt32 * 2 ^ 16 + (a (curEntry + k + 3)).toUInt32 * 2 ^ 24 =
      (b (curEntry + k + 0)).toUInt32 + (b (curEntry + k + 1)).toUInt32 * 2 ^ 8 +
        (b (curEntry + k + 2)).toUInt32 * 2 ^ 16 + (b (curEntry + k + 3)).toUInt32 * 2 ^ 24
    rw [hbyte 0 (by omega), hbyte 1 (by omega), hbyte 2 (by omega), hbyte 3 (by omega)]
  unfold dirEntry
  rw [hname, h0, h 1 (by omega), hdword 0x2c (by omega), hdword 0x30 (by omega)]

theorem entriesOf_congr {a b : Nat → UInt8} (h : ∀ i, i < 0x4000 → a i = b i) :
    entriesOf a = entriesOf b := by
  refine List.map_congr_left fun i hi => dirEntry_congr fun k hk => h _ ?_
  have hi := (List.mem_range'_1.1 hi).2
  unfold fatxDirectoryEntrySize
  omega

section
variable {env : Env} {p : FATXPartition} (hg : Geometry p) (hok : ∀ i, env.fails i = false)

include hg hok

theorem load_entries (w : Walk) :
    entriesOf (w.load env p).clusterData = entriesOf (stored env p w.clusterId) := by
  have hload : loadFATXCluster env p w.clusterId w.clusterData w.reads = _ := load_eq hg w
  rw [loadFATXCluster_ok hg _ _ _ fun i _ => hok _] at hload
  have hdata : write w.clusterData 0 (clusterBytes env p w.clusterId) =
      (w.load env p).clusterData := congrArg Prod.fst (Option.some.inj hload)
  rw [← hdata]
  refine entriesOf_congr fun i hi => ?_
  have hlen := length_clusterBytes env p w.clusterId
  unfold write stored
  rw [if_pos (Nat.zero_le i), Nat.sub_zero, List.getD_eq_getElem?_getD,
    List.getElem?_eq_getElem (by omega)]
  rfl

/-- Where no read fails, the buffers hold what is stored. -/
theorem seen_eq (n : Nat) (w : Walk) : seen env p n w = along env p n w.clusterId := by
  induction n generalizing w with
  | zero => rfl
  | succ n ih =>
    show entriesOf (w.load env p).clusterData ++ seen env p n (w.next env p) = _
    rw [load_entries hg hok, ih]
    rfl

end

/-! ## Directory trees -/

/-- The entries stored in the clusters of a directory. -/
def storedEntries (env : Env) (p : FATXPartition) (cs : List Int) : List DirEntry :=
  cs.flatMap fun c => entriesOf (stored env p c)

/-- The entries before the end marker. -/
def listing (l : List DirEntry) : List DirEntry := l.takeWhile fun e => ¬ e.IsEnd

/-- The directory that starts in this cluster has these entries. -/
def Directory (env : Env) (p : FATXPartition) (clusterId : Int) (es : List DirEntry) : Prop :=
  ∃ cs, Chain p cs ∧ cs.head? = some clusterId ∧ es = listing (storedEntries env p cs)

namespace DirEntry

/-- A name as it should be. -/
def Proper (e : DirEntry) : Prop := ¬ e.BadSize ∧ 0 ∉ e.name

/-- Not deleted, and of this name in any case. -/
def Answers (seek : List UInt8) (e : DirEntry) : Prop :=
  ¬ e.Deleted ∧ e.name.map lower = seek.map lower

instance (seek : List UInt8) (e : DirEntry) : Decidable (e.Answers seek) :=
  inferInstanceAs (Decidable (_ ∧ _))

end DirEntry

/-- The directories that the entries lead to from `root`. -/
inductive InTree (env : Env) (p : FATXPartition) (root : Int) : Int → Prop where
  | root : InTree env p root root
  | sub {clusterId : Int} {es : List DirEntry} {e : DirEntry} (h : InTree env p root clusterId)
      (hes : Directory env p clusterId es) (he : e ∈ es) (hdel : ¬ e.Deleted)
      (hdir : e.IsDirectory) : InTree env p root (signed e.clusterId)

/-- All directories have chains, and proper names. -/
def Tree (env : Env) (p : FATXPartition) (root : Int) : Prop :=
  ∀ clusterId, InTree env p root clusterId → ∃ es, Directory env p clusterId es ∧
    ∀ e ∈ es, ¬ e.Deleted → e.Proper

/-- The first entry of the name before the end marker. -/
def FirstEntry (env : Env) (p : FATXPartition) (clusterId : Int) (name : List UInt8)
    (e : DirEntry) : Prop :=
  ∃ es, Directory env p clusterId es ∧ es.find? (·.Answers name) = some e

/-- From directory to directory, and at the last name a file. -/
inductive Resolves (env : Env) (p : FATXPartition) : Int → List (List UInt8) → DirEntry → Prop where
  | file {clusterId : Int} {name : List UInt8} {e : DirEntry}
      (he : FirstEntry env p clusterId name e) (hfile : ¬ e.IsDirectory) :
      Resolves env p clusterId [name] e
  | directory {clusterId : Int} {name : List UInt8} {names : List (List UInt8)} {d e : DirEntry}
      (hd : FirstEntry env p clusterId name d) (hdir : d.IsDirectory)
      (hrest : Resolves env p (signed d.clusterId) names e) :
      Resolves env p clusterId (name :: names) e

/-! ## Chains and walks -/

section
variable {env : Env} {p : FATXPartition}

theorem Clusters.long {id : Int} {cs : List Int} (h : Clusters p id cs) :
    Long p id cs.length ∧ (link p)^[cs.length] id = -1 := by
  induction cs generalizing id with
  | nil => exact ⟨fun k hk => absurd hk (Nat.not_lt_zero k), h⟩
  | cons c cs ih =>
    obtain ⟨rfl, hne, hcs⟩ := h
    obtain ⟨hlong, hend⟩ := ih hcs
    exact ⟨long_cons.2 ⟨hne, hlong⟩, hend⟩

theorem Clusters.along {id : Int} {cs : List Int} (h : Clusters p id cs) :
    along env p cs.length id = storedEntries env p cs := by
  induction cs generalizing id with
  | nil => rfl
  | cons c cs ih =>
    obtain ⟨rfl, -, hcs⟩ := h
    exact congrArg (entriesOf (stored env p id) ++ ·) (ih hcs)

theorem Directory.unique (hg : Geometry p) {id : Int} {es es' : List DirEntry}
    (h : Directory env p id es) (h' : Directory env p id es') : es = es' := by
  obtain ⟨cs, hchain, hhead, rfl⟩ := h
  obtain ⟨cs', hchain', hhead', rfl⟩ := h'
  rw [(hchain.clusters hg id hhead).unique (hchain'.clusters hg id hhead')]

theorem FirstEntry.unique (hg : Geometry p) {id : Int} {name : List UInt8} {e e' : DirEntry}
    (h : FirstEntry env p id name e) (h' : FirstEntry env p id name e') : e = e' := by
  obtain ⟨es, hes, he⟩ := h
  obtain ⟨es', hes', he'⟩ := h'
  rw [hes.unique hg hes', he'] at he
  exact (Option.some.inj he).symm

theorem not_resolves_nil {id : Int} {e : DirEntry} : ¬ Resolves env p id [] e := nofun

/-- A path leads to one file at most. -/
theorem Resolves.unique (hg : Geometry p) {id : Int} {names : List (List UInt8)} {e e' : DirEntry}
    (h : Resolves env p id names e) (h' : Resolves env p id names e') : e = e' := by
  induction h with
  | file he hfile =>
    cases h' with
    | file he' _ => exact he.unique hg he'
    | directory _ _ hrest => exact absurd hrest not_resolves_nil
  | directory hd hdir hrest ih =>
    cases h' with
    | file _ _ => exact absurd hrest not_resolves_nil
    | directory hd' _ hrest' =>
      obtain rfl := hd.unique hg hd'
      exact ih hrest'

end

end Gentoox.Fatx
