import GentooxLoader.Fatx.Termination

/-!
# The directory found (FATXFindDir)

The function returns a number only at an entry of the name it looks for.  At the
end marker it says `return;`, and behind the loop nothing, where the caller
compares what it gets with -1:

    findDir_ends_iff     what is returned, by the entries the walk sees
    findDir_decides_iff  the number decides ↔ there is an entry of the name
    no_value_at_the_end  a root directory that begins with the end marker
-/

namespace Gentoox.Fatx

open Cells Lib Loops

/-! ## Entries by name -/

/-- `e` is the first live entry of that name, and no end marker comes before it. -/
def FirstNamed (dir : List UInt8) (l : List DirEntry) (e : DirEntry) : Prop :=
  ∃ before after, l = before ++ e :: after ∧ (∀ e' ∈ before, ¬ e'.EndsFindDir dir) ∧
    e.Live ∧ e.Named dir

/-- The directory that starts in `w.clusterId`, as the walk loads it, has `e` as
the first entry of the name. -/
def DirectoryHas (env : Env) (p : FATXPartition) (dir : List UInt8) (w : Walk) (e : DirEntry) :
    Prop :=
  ∃ n, Long p w.clusterId n ∧ FirstNamed dir (seen env p n w) e

/-- The number that stands for the entry. -/
def DirEntry.directoryId (e : DirEntry) : Int := if e.IsDirectory then signed e.clusterId else -1

theorem FirstNamed.append {dir : List UInt8} {l : List DirEntry} {e : DirEntry}
    (h : FirstNamed dir l e) (l' : List DirEntry) : FirstNamed dir (l ++ l') e := by
  obtain ⟨before, after, rfl, hbefore, he⟩ := h
  exact ⟨before, after ++ l', by simp, hbefore, he⟩

theorem FirstNamed.forEach {dir : List UInt8} {l : List DirEntry} {e : DirEntry}
    (h : FirstNamed dir l e) (ret : Option Int) :
    forEach (dirBody (findDirBody dir)) l ret = .done (some e.directoryId) := by
  obtain ⟨before, after, rfl, hbefore, hlive, hnamed⟩ := h
  rw [(endsAt_findDir dir).first hbefore (.inr ⟨hlive, hnamed⟩), dirBody_live ret hlive]
  exact if_pos hnamed

/-- The end marker or the first entry of the name ends the loop. -/
theorem findDir_forEach_done {dir : List UInt8} {l : List DirEntry} {r : Option Int}
    (h : forEach (dirBody (findDirBody dir)) l none = .done r) :
    r = none ∨ ∃ e, FirstNamed dir l e ∧ r = some e.directoryId := by
  obtain ⟨before, e, after, rfl, hbefore, hstop, he⟩ := (endsAt_findDir dir).of_done h
  by_cases hend : e.IsEnd
  · rw [dirBody_end none hend] at he
    cases he
    exact .inl rfl
  · obtain ⟨hlive, hnamed⟩ := hstop.resolve_left hend
    have hfirst : FirstNamed dir (before ++ e :: after) e :=
      ⟨before, after, rfl, hbefore, hlive, hnamed⟩
    rw [hfirst.forEach none] at h
    cases h
    exact .inr ⟨e, hfirst, rfl⟩

/-- Behind a part of the walk that has the entry nothing is looked at. -/
theorem FirstNamed.forEach_seen {env : Env} {p : FATXPartition} {dir : List UInt8} {w : Walk}
    {e : DirEntry} {m n : Nat} (h : FirstNamed dir (seen env p m w) e) (hmn : m ≤ n) :
    Loops.forEach (dirBody (findDirBody dir)) (seen env p n w) none =
      .done (some e.directoryId) := by
  obtain ⟨l, hl⟩ := seen_prefix env p w hmn
  rw [hl]
  exact (h.append l).forEach none

/-- There is one first entry, whatever part of the walk it is looked up in. -/
theorem DirectoryHas.directoryId_eq {env : Env} {p : FATXPartition} {dir : List UInt8} {w : Walk}
    {e e' : DirEntry} (h : DirectoryHas env p dir w e) (h' : DirectoryHas env p dir w e') :
    e.directoryId = e'.directoryId := by
  obtain ⟨n, -, hfirst⟩ := h
  obtain ⟨n', -, hfirst'⟩ := h'
  have hdone := (hfirst.forEach_seen (Nat.le_max_left n n')).symm.trans
    (hfirst'.forEach_seen (Nat.le_max_right n n'))
  exact Option.some.inj (Turn.done.inj hdone)

/-! ## What is returned -/

section
variable {env : Env} {p : FATXPartition} (hg : Geometry p) {clusterId : Int} {dir : List UInt8}
  {reads : Nat}

include hg

theorem findDir_stable {fuel : Nat} {r : Option Int × Nat}
    (h : fatxFindDir env p fuel clusterId dir reads = some r) :
    Fuel.Ends (fun fuel => fatxFindDir env p fuel clusterId dir reads) (some r) :=
  walkDir_stable (w := .start env clusterId reads)
    (fun _ acc curEntry => visitForDir_turn dir acc curEntry) hg h

/-- An entry of the name ends the walk with its number; without one there is no
number, at an end marker or behind the chain, or the loop goes on for ever. -/
theorem findDir_cases (clusterId : Int) (dir : List UInt8) (reads : Nat) :
    (∃ e reads', DirectoryHas env p dir (.start env clusterId reads) e ∧
      Fuel.Ends (fun fuel => fatxFindDir env p fuel clusterId dir reads)
        (some (some e.directoryId, reads'))) ∨
    (∀ e, ¬ DirectoryHas env p dir (.start env clusterId reads) e) ∧
      ((∃ reads', Fuel.Ends (fun fuel => fatxFindDir env p fuel clusterId dir reads)
        (some (none, reads'))) ∨ ∀ fuel, fatxFindDir env p fuel clusterId dir reads = none) := by
  have hvisit : ∀ (clusterData : Nat → UInt8) acc curEntry,
      ¬ (dirEntry clusterData curEntry).BadSize → _ := fun _ acc curEntry =>
    visitForDir_turn dir acc curEntry
  -- what has been passed by has no entry of the name
  have hnone : ∀ {n m : Nat} {e : DirEntry} {ret : Option Int},
      forEach (dirBody (findDirBody dir)) (seen env p n (.start env clusterId reads)) none =
        .next ret → m ≤ n → ¬ FirstNamed dir (seen env p m (.start env clusterId reads)) e := by
    intro n m e ret hacc hmn hfirst
    cases hacc.symm.trans (hfirst.forEach_seen hmn)
  rcases walkDir_cases env hvisit hg (.start env clusterId reads) none with
    ⟨n, ret, reads', hlong, hend, hacc, hends⟩ | ⟨n, r, reads', hlong, hseen, hends⟩ |
      ⟨hpass, hnever⟩
  · refine .inr ⟨?_, .inl ⟨reads', ?_⟩⟩
    · rintro e ⟨m, hm, hfirst⟩
      refine hnone hacc ?_ hfirst
      by_contra hlt
      exact hm n (Nat.lt_of_not_le hlt) hend
    · have hret : ret = none := by
        have hpass := (endsAt_findDir dir).passes_iff.1 ⟨ret, hacc⟩
        rw [(endsAt_findDir dir).passes hpass none] at hacc
        exact (Turn.next.inj hacc).symm
      rw [← hret]
      exact hends
  · rcases findDir_forEach_done hseen with rfl | ⟨e, hfirst, rfl⟩
    · refine .inr ⟨?_, .inl ⟨reads', hends⟩⟩
      rintro e ⟨m, hm, hfirst⟩
      rcases Nat.le_total m n with hmn | hmn
      · cases hseen.symm.trans (hfirst.forEach_seen hmn)
      · obtain ⟨l, hl⟩ := seen_prefix env p (.start env clusterId reads) hmn
        have hover := hfirst.forEach none
        rw [hl, forEach_append, hseen] at hover
        cases hover
    · exact .inl ⟨e, reads', ⟨n, hlong, hfirst⟩, hends⟩
  · refine .inr ⟨?_, .inr hnever⟩
    rintro e ⟨m, hm, hfirst⟩
    obtain ⟨ret, hacc⟩ := hpass m
    exact hnone hacc (Nat.le_refl m) hfirst

/-- A number is returned for the first entry of the name, and for no other reason. -/
theorem findDir_ends_iff (ret : Int) :
    (∃ reads', Fuel.Ends (fun fuel => fatxFindDir env p fuel clusterId dir reads)
      (some (some ret, reads'))) ↔
      ∃ e, DirectoryHas env p dir (.start env clusterId reads) e ∧ ret = e.directoryId := by
  rcases findDir_cases hg clusterId dir reads with
    ⟨e, reads', he, hends⟩ | ⟨hnone, ⟨reads', hends⟩ | hnever⟩
  · constructor
    · rintro ⟨reads'', hends'⟩
      cases hends.unique hends'
      exact ⟨e, he, rfl⟩
    · rintro ⟨e', he', rfl⟩
      rw [he'.directoryId_eq he]
      exact ⟨reads', hends⟩
  · refine iff_of_false ?_ fun ⟨e, he, _⟩ => hnone e he
    rintro ⟨reads'', hends'⟩
    cases hends.unique hends'
  · refine iff_of_false ?_ fun ⟨e, he, _⟩ => hnone e he
    rintro ⟨reads'', fuel, hends'⟩
    cases (hnever fuel).symm.trans (hends' fuel (Nat.le_refl fuel))

end

/-! ## Top theorem -/

/-- The call returns the number of the first entry of the name, -1 if it is not a
directory, and -1 if there is no such entry. -/
def Decides (env : Env) (p : FATXPartition) (clusterId : Int) (dir : List UInt8) (reads : Nat) :
    Prop :=
  ∃ ret reads', Fuel.Ends (fun fuel => fatxFindDir env p fuel clusterId dir reads)
      (some (some ret, reads')) ∧
    (∀ e, DirectoryHas env p dir (.start env clusterId reads) e → ret = e.directoryId) ∧
    ((∀ e, ¬ DirectoryHas env p dir (.start env clusterId reads) e) → ret = -1)

/-- **Does the directory exist?**  What the function returns decides exactly when
an entry of the name, a directory or not, comes before the end marker and the
end of the chain. -/
theorem findDir_decides_iff (env : Env) (p : FATXPartition) (hp : Opened p) (clusterId : Int)
    (dir : List UInt8) (reads : Nat) : Decides env p clusterId dir reads ↔
      ∃ e, DirectoryHas env p dir (.start env clusterId reads) e := by
  have hg := hp.geometry
  constructor
  · rintro ⟨ret, reads', hends, -⟩
    obtain ⟨e, he, -⟩ := (findDir_ends_iff hg ret).1 ⟨reads', hends⟩
    exact ⟨e, he⟩
  · rintro ⟨e, he⟩
    obtain ⟨reads', hends⟩ := (findDir_ends_iff hg e.directoryId).2 ⟨e, he, rfl⟩
    exact ⟨_, reads', hends, fun e' he' => he.directoryId_eq he', fun hnone => absurd he (hnone e)⟩

/-- The directory that `HDDFlashMenuInit` asks for. -/
def bios : List UInt8 := chars "BIOS".toList

theorem findDir_decides_iff_empty :
    Decides (diskOf cyclicTable fun _ => []) (partitionOf cyclicTable) 1 bios 0 ↔
      ∃ e, DirectoryHas (diskOf cyclicTable fun _ => []) (partitionOf cyclicTable) bios
        (.start (diskOf cyclicTable fun _ => []) 1 0) e :=
  findDir_decides_iff _ _ (partitionOf_opened cyclicTable) 1 bios 0

/-- An empty root directory, all of it zeros. -/
theorem no_value_at_the_end :
    ¬ Decides (diskOf cyclicTable fun _ => []) (partitionOf cyclicTable) 1 bios 0 := by
  rintro ⟨ret, reads', hends, -⟩
  have hrun : fatxFindDir (diskOf cyclicTable fun _ => []) (partitionOf cyclicTable) 1 1 bios 0 =
      some (none, 32) := by
    decide +kernel
  cases (findDir_stable (partitionOf_opened cyclicTable).geometry hrun).unique hends

end Gentoox.Fatx
