import GentooxLoader.Fatx.Turns

/-!
# When the cluster loops return

No loop counts the clusters it has been to, and a link that makes no sense is
reported and followed.  A walk that repeats therefore ends only where an entry
ends it:

    search_cases      what becomes of a search in one directory
    loops_return_iff  the four loops return ↔ no walk repeats that nothing stops
    cyclic_load       a file whose cluster links to itself
-/

namespace Gentoox.Fatx

open Cells Lib Loops

/-! ## Entries that end a loop -/

namespace DirEntry

def EndsFindDir (dir : List UInt8) (e : DirEntry) : Prop := e.IsEnd ∨ (e.Live ∧ e.Named dir)

def EndsFindFile (seek : List UInt8) (e : DirEntry) : Prop :=
  e.IsEnd ∨ (¬ e.Deleted ∧ e.BadSize) ∨ (e.Live ∧ e.Named seek)

end DirEntry

theorem endsAt_findDir (dir : List UInt8) :
    EndsAt (dirBody (findDirBody dir)) (DirEntry.EndsFindDir dir) where
  done ret e h := by
    rcases h with hend | ⟨hlive, hnamed⟩
    · exact ⟨ret, dirBody_end ret hend⟩
    · rw [dirBody_live ret hlive]
      exact ⟨_, if_pos hnamed⟩
  next ret e h := by
    obtain ⟨hend, hnot⟩ := not_or.1 h
    by_cases hlive : e.Live
    · rw [dirBody_live ret hlive]
      exact if_neg fun hnamed => hnot ⟨hlive, hnamed⟩
    · exact dirBody_other ret hend hlive

theorem endsAt_findFile (seek : List UInt8) (lookForDirectory : Bool) :
    EndsAt (fileBody seek lookForDirectory) (DirEntry.EndsFindFile seek) where
  done _ e h := by
    by_cases hend : e.IsEnd
    · exact ⟨_, fileBody_end hend⟩
    rcases h with h | ⟨hdel, hbad⟩ | ⟨hlive, hnamed⟩
    · exact absurd h hend
    · exact ⟨_, fileBody_badSize hend hdel hbad⟩
    · exact ⟨_, fileBody_named hlive hnamed⟩
  next _ e h := by
    obtain ⟨hend, h⟩ := not_or.1 h
    obtain ⟨hsize, hnot⟩ := not_or.1 h
    by_cases hdel : e.Deleted
    · exact fileBody_deleted hend hdel
    · have hlive : e.Live := ⟨hend, hdel, fun hbad => hsize ⟨hdel, hbad⟩⟩
      exact fileBody_other hlive fun hnamed => hnot ⟨hlive, hnamed⟩

/-- The list is filled up, or its end is reached. -/
theorem listDir_passes_iff (reslen : Nat) (path : List UInt8) {l : List DirEntry}
    {res : List (List UInt8)} :
    (∃ res', forEach (dirBody (listDirBody reslen path)) l res = .next res') ↔
      (∀ e ∈ l, ¬ e.IsEnd) ∧
        (l.countP (·.Live) = 0 ∨ res.length + l.countP (·.Live) < reslen) := by
  induction l generalizing res with
  | nil => exact iff_of_true ⟨res, rfl⟩ ⟨fun _ h => absurd h (List.not_mem_nil), .inl rfl⟩
  | cons e l ih =>
    rw [forEach_cons, List.forall_mem_cons]
    by_cases hend : e.IsEnd
    · rw [dirBody_end res hend]
      exact iff_of_false (fun ⟨_, h⟩ => by cases h) fun h => h.1.1 hend
    by_cases hlive : e.Live
    · rw [dirBody_live res hlive, List.countP_cons_of_pos (by simpa using hlive)]
      by_cases hfull : reslen ≤ res.length + 1
      · rw [listDirBody_full hfull]
        exact iff_of_false (fun ⟨_, h⟩ => by cases h) fun h => by have := h.2; omega
      · rw [listDirBody_more (Nat.lt_of_not_le hfull)]
        refine ih.trans ?_
        rw [List.length_append, List.length_singleton]
        constructor
        · exact fun h => ⟨⟨hend, h.1⟩, by have := h.2; omega⟩
        · exact fun h => ⟨h.1.2, by have := h.2; omega⟩
    · rw [dirBody_other res hend hlive, List.countP_cons_of_neg (by simpa using hlive)]
      refine ih.trans ?_
      exact ⟨fun h => ⟨⟨hend, h.1⟩, h.2⟩, fun h => ⟨h.1.2, h.2⟩⟩

/-! ## The search -/

/-- In the directory at hand the search comes to a directory of the name it
looks for, and goes on there with the rest of the path. -/
def Enters (env : Env) (p : FATXPartition) (s t : List UInt8 × Walk) : Prop :=
  ∃ seek rest n before e after, seekName s.1 = some (seek, some rest) ∧
    Long p s.2.clusterId (n + 1) ∧
    entriesOf ((s.2.after env p n).load env p).clusterData = before ++ e :: after ∧
    (∀ e' ∈ seen env p n s.2 ++ before, ¬ e'.EndsFindFile seek) ∧
    e.Live ∧ e.Named seek ∧ e.IsDirectory ∧
    t = (rest, ⟨signed e.clusterId, env.stack ((s.2.after env p n).load env p).reads,
      ((s.2.after env p n).load env p).reads⟩)

/-- The walk through the directory at hand repeats, and nothing in it stops the search. -/
def Endless (env : Env) (p : FATXPartition) (s : List UInt8 × Walk) : Prop :=
  ∃ seek rest, seekName s.1 = some (seek, rest) ∧ Repeats p s.2.clusterId ∧
    ∀ n, ∀ e ∈ seen env p n s.2, ¬ e.EndsFindFile seek

section
variable {env : Env} {p : FATXPartition} (hg : Geometry p)

theorem seekName_shorter {filename seek rest : List UInt8}
    (h : seekName filename = some (seek, some rest)) : rest.length < filename.length := by
  unfold seekName at h
  split at h
  · split_ifs at h
    cases h
  · rename_i slashPos hpos
    split_ifs at h
    cases h
    obtain ⟨hlt, -⟩ := List.findIdx?_eq_some_iff_getElem.1 hpos
    rw [List.length_drop]
    omega

include hg

theorem Enters.comes {s t : List UInt8 × Walk} (h : Enters env p s t) (fileinfo : FATXFILEINFO) :
    Comes (findTurn env p) ⟨s.1, s.2, fileinfo⟩ ⟨t.1, t.2, fileinfo⟩ := by
  obtain ⟨seek, rest, n, before, e, after, hseek, hlong, hentries, hpass, hlive, hnamed, hdir, rfl⟩ :=
    h
  obtain ⟨hlong, hid⟩ := long_succ.1 hlong
  have hseen := (endsAt_findFile seek true).passes
    (fun e' he' => hpass e' (List.mem_append_left _ he')) ()
  refine (findLoop_comes hg hseek hlong hseen).tail ?_
  rw [← after_clusterId env p] at hid
  rw [findTurn_eq hg hseek hid]
  have hscan : fileWalk seek true () ((s.2.after env p n).load env p).clusterData =
      .done (.directory (signed e.clusterId)) := by
    unfold fileWalk
    rw [hentries, (endsAt_findFile seek true).first
      (fun e' he' => hpass e' (List.mem_append_right _ he')) (.inr (.inr ⟨hlive, hnamed⟩)),
      fileBody_named hlive hnamed]
    unfold foundScan
    rw [if_pos rfl, if_pos hdir]
  show some (Search.go env _ _ _ (scanOf (fileWalk seek true () _))) = _
  rw [hscan]
  rfl

theorem comes_of_enters {s t : List UInt8 × Walk} (h : Relation.ReflTransGen (Enters env p) s t)
    (fileinfo : FATXFILEINFO) :
    Comes (findTurn env p) ⟨s.1, s.2, fileinfo⟩ ⟨t.1, t.2, fileinfo⟩ := by
  induction h with
  | refl => exact .refl
  | tail _ hstep ih => exact ih.trans (hstep.comes hg fileinfo)

/-- An entry that stops the search ends it or leads into a directory. -/
theorem stopped_cases {s : List UInt8 × Walk} {seek : List UInt8} {rest : Option (List UInt8)}
    {n : Nat} {scan : Scan} (hseek : seekName s.1 = some (seek, rest))
    (hlong : Long p s.2.clusterId (n + 1)) (hpass : ∀ e ∈ seen env p n s.2, ¬ e.EndsFindFile seek)
    (hscan : fileWalk seek rest.isSome () ((s.2.after env p n).load env p).clusterData = .done scan)
    (fileinfo : FATXFILEINFO) :
    (∃ r, findTurn env p ⟨s.1, s.2.after env p n, fileinfo⟩ = some (.done r)) ∨
      ∃ t, Enters env p s t ∧
        findTurn env p ⟨s.1, s.2.after env p n, fileinfo⟩ = some (.next ⟨t.1, t.2, fileinfo⟩) := by
  have hid := (long_succ.1 hlong).2
  rw [← after_clusterId env p] at hid
  rw [findTurn_eq hg hseek hid, hscan]
  obtain ⟨before, e, after, hentries, hbefore, -, he⟩ :=
    (endsAt_findFile seek rest.isSome).of_done hscan
  rcases fileBody_cases he with ⟨-, rfl⟩ | ⟨-, -, -, rfl⟩ | ⟨hlive, hnamed, rfl⟩
  · exact .inl ⟨_, rfl⟩
  · exact .inl ⟨_, rfl⟩
  show (∃ r, some (Search.go env _ rest _ (foundScan rest.isSome e)) = _) ∨
    ∃ t, _ ∧ some (Search.go env _ rest _ (foundScan rest.isSome e)) = _
  rcases foundScan_cases rest.isSome e with ⟨hsome, hdir, hfound⟩ | ⟨-, -, hfound⟩ | hfound
  · obtain ⟨rest, rfl⟩ := Option.isSome_iff_exists.1 hsome
    rw [hfound]
    refine .inr ⟨_, ⟨seek, rest, n, before, e, after, hseek, hlong, hentries, ?_, hlive, hnamed,
      hdir, rfl⟩, rfl⟩
    exact fun e' he' => (List.mem_append.1 he').elim (hpass e') (hbefore e')
  · rw [hfound]
    exact .inl ⟨_, rfl⟩
  · rw [hfound]
    exact .inl ⟨_, rfl⟩

/-- In one directory the search ends, or goes on in the next one, or never stops. -/
theorem search_cases (s : List UInt8 × Walk) (fileinfo : FATXFILEINFO) :
    (∃ v r, Comes (findTurn env p) ⟨s.1, s.2, fileinfo⟩ v ∧ findTurn env p v = some (.done r)) ∨
      (∃ t, Enters env p s t) ∨ Endless env p s := by
  cases hseek : seekName s.1 with
  | none => exact .inl ⟨_, _, .refl, findTurn_refused hseek⟩
  | some found =>
    obtain ⟨seek, rest⟩ := found
    have hseen : ∀ {n : Nat} {u : Unit}, forEach (fileWalk seek rest.isSome) (buffers env p n s.2) () =
        .next u → ∀ e ∈ seen env p n s.2, ¬ e.EndsFindFile seek := by
      intro n u hacc
      rw [forEach_fileWalk] at hacc
      exact (endsAt_findFile seek rest.isSome).passes_iff.1 ⟨u, hacc⟩
    rcases walk_cases env p (fileWalk seek rest.isSome) s.2 () with
      ⟨n, _, hlong, hend, hacc⟩ | ⟨n, _, scan, hlong, hacc, hdone⟩ | ⟨hrepeats, hpass⟩
    · refine .inl ⟨_, _, (walks_find hg hseek fileinfo).comes hlong hacc, findTurn_exit ?_⟩
      rw [after_clusterId, hend]
    · rcases stopped_cases hg hseek hlong (hseen hacc) hdone fileinfo with ⟨r, hr⟩ | ⟨t, ht, -⟩
      · exact .inl ⟨_, r, (walks_find hg hseek fileinfo).comes (long_succ.1 hlong).1 hacc, hr⟩
      · exact .inr (.inl ⟨t, ht⟩)
    · exact .inr (.inr ⟨seek, rest, hseek, hrepeats, fun n => hseen (hpass n).choose_spec⟩)

theorem Endless.never_ends {s : List UInt8 × Walk} (h : Endless env p s)
    (fileinfo : FATXFILEINFO) (fuel : Nat) :
    loop (findTurn env p) fuel ⟨s.1, s.2, fileinfo⟩ = none := by
  obtain ⟨seek, rest, hseek, hrepeats, hpass⟩ := h
  have hseen : ∀ n, ∃ u, forEach (fileWalk seek rest.isSome) (buffers env p n s.2) () = .next u := by
    intro n
    rw [forEach_fileWalk]
    exact ⟨(), (endsAt_findFile seek rest.isSome).passes (hpass n) ()⟩
  exact (walks_find hg hseek fileinfo).never_ends hrepeats hseen fuel

/-- The search returns unless it enters a directory that it never leaves. -/
theorem search_returns_iff (s : List UInt8 × Walk) (fileinfo : FATXFILEINFO) :
    (∃ fuel r, loop (findTurn env p) fuel ⟨s.1, s.2, fileinfo⟩ = some r) ↔
      ¬ ∃ t, Relation.ReflTransGen (Enters env p) s t ∧ Endless env p t := by
  constructor
  · rintro ⟨fuel, r, hr⟩ ⟨t, hst, ht⟩
    rw [(comes_of_enters hg hst fileinfo).never_ends (ht.never_ends hg fileinfo)] at hr
    cases hr
  · intro h
    -- the path gets shorter from directory to directory
    induction hlen : s.1.length using Nat.strong_induction_on generalizing s with
    | _ len ih =>
      rcases search_cases hg s fileinfo with ⟨v, r, hv, hdone⟩ | ⟨t, hst⟩ | hs
      · obtain ⟨fuel, hr⟩ := ends_iff.2 ⟨v, hv, hdone⟩
        exact ⟨fuel, r, hr⟩
      · have hshort : t.1.length < len := by
          obtain ⟨_, _, _, _, _, _, hseek, _, _, _, _, _, _, rfl⟩ := hst
          rw [← hlen]
          exact seekName_shorter hseek
        obtain ⟨fuel, r, hr⟩ := ih _ hshort t
          (fun ⟨u, htu, hu⟩ => h ⟨u, .head hst htu, hu⟩) rfl
        obtain ⟨v, hv, hdone⟩ := ends_iff.1 ⟨fuel, hr⟩
        obtain ⟨fuel, hr⟩ := ends_iff.2 ⟨v, (hst.comes hg fileinfo).trans hv, hdone⟩
        exact ⟨fuel, r, hr⟩
      · exact absurd ⟨s, .refl, hs⟩ h

/-! ## Top theorem -/

theorem load_returns_iff (fileinfo : FATXFILEINFO) (reads : Nat) :
    (∃ fuel r, fatxLoadFromDisk env p fuel fileinfo reads = some r) ↔
      ¬ Repeats p fileinfo.clusterId := by
  have hends := chain_ends_iff env hg (loadBody p)
    (fun l => (decide (l.fileSize = 0), l.fileinfo)) (.start env fileinfo.clusterId reads)
    ⟨fileinfo.fileSize, 0, { fileinfo with fileRead := 0 }⟩
  rw [and_iff_left fun n => forEach_loadBody _ _] at hends
  simp only [← Option.isSome_iff_exists, fatxLoadFromDisk_eq, Option.isSome_map] at hends ⊢
  exact hends

theorem findDir_returns_iff (clusterId : Int) (dir : List UInt8) (reads : Nat) :
    (∃ fuel r, fatxFindDir env p fuel clusterId dir reads = some r) ↔
      ¬ (Repeats p clusterId ∧ ∀ n, ∀ e ∈ seen env p n (.start env clusterId reads),
        ¬ e.EndsFindDir dir) := by
  have hends := walkDir_ends_iff env (fun clusterData acc curEntry =>
    visitForDir_turn dir acc curEntry) hg (.start env clusterId reads) none
  simp only [(endsAt_findDir dir).passes_iff] at hends
  exact hends

theorem listDir_returns_iff (clusterId : Int) (reslen : Nat) (path : List UInt8) (reads : Nat) :
    (∃ fuel r, fatxListDir env p fuel clusterId reslen path reads = some r) ↔
      ¬ (Repeats p clusterId ∧ ∀ n, (∀ e ∈ seen env p n (.start env clusterId reads), ¬ e.IsEnd) ∧
        ((seen env p n (.start env clusterId reads)).countP (·.Live) = 0 ∨
          (seen env p n (.start env clusterId reads)).countP (·.Live) < reslen)) := by
  have hends := walkDir_ends_iff env (fun clusterData acc curEntry =>
    visitForList_turn reslen path acc curEntry) hg (.start env clusterId reads) []
  simp only [listDir_passes_iff, List.length_nil, Nat.zero_add] at hends
  exact hends

end

/-- **When the loops return.**  A load returns exactly when no cluster comes
twice in the walk from its start.  A directory loop does not return exactly when
that walk repeats and holds nothing that ends the loop: an end marker, the entry
looked for or (for a search) a bad size, so many names that the list is full. -/
theorem loops_return_iff (env : Env) (p : FATXPartition) (hp : Opened p) (reads : Nat) :
    (∀ fileinfo : FATXFILEINFO, (∃ fuel r, fatxLoadFromDisk env p fuel fileinfo reads = some r) ↔
      ¬ Repeats p fileinfo.clusterId) ∧
    (∀ (filename : List UInt8) (clusterId : Int) (fileinfo : FATXFILEINFO),
      (∃ fuel r, findLoop env p fuel filename clusterId (env.stack reads) fileinfo reads = some r) ↔
        ¬ ∃ t, Relation.ReflTransGen (Enters env p) (filename, .start env clusterId reads) t ∧
          Endless env p t) ∧
    (∀ (clusterId : Int) (dir : List UInt8),
      (∃ fuel r, fatxFindDir env p fuel clusterId dir reads = some r) ↔
        ¬ (Repeats p clusterId ∧ ∀ n, ∀ e ∈ seen env p n (.start env clusterId reads),
          ¬ e.EndsFindDir dir)) ∧
    ∀ (clusterId : Int) (reslen : Nat) (path : List UInt8),
      (∃ fuel r, fatxListDir env p fuel clusterId reslen path reads = some r) ↔
        ¬ (Repeats p clusterId ∧ ∀ n,
          (∀ e ∈ seen env p n (.start env clusterId reads), ¬ e.IsEnd) ∧
          ((seen env p n (.start env clusterId reads)).countP (·.Live) = 0 ∨
            (seen env p n (.start env clusterId reads)).countP (·.Live) < reslen)) := by
  have hg := hp.geometry
  refine ⟨fun fileinfo => load_returns_iff hg fileinfo reads, fun filename clusterId fileinfo => ?_,
    fun clusterId dir => findDir_returns_iff hg clusterId dir reads,
    fun clusterId reslen path => listDir_returns_iff hg clusterId reslen path reads⟩
  rw [← search_returns_iff hg (filename, .start env clusterId reads) fileinfo]
  simp only [← findLoop_eq]
  rfl

/-- Cluster 2 is its own successor. -/
def cyclicTable : List UInt8 := [0xf8, 0xff, 0xff, 0xff, 2, 0]

theorem cyclicTable_repeats : Repeats (partitionOf cyclicTable) 2 := by
  have hlink : link (partitionOf cyclicTable) 2 = 2 := by decide
  refine ⟨0, 1, Nat.one_pos, hlink.symm, fun k hk => ?_⟩
  rcases Nat.le_one_iff_eq_zero_or_eq_one.1 hk with rfl | rfl
  · show (2 : Int) ≠ -1
    decide
  · show link (partitionOf cyclicTable) 2 ≠ -1
    rw [hlink]
    decide

theorem loops_return_iff_cyclic :
    (∃ fuel r, fatxLoadFromDisk (diskOf cyclicTable fun _ => []) (partitionOf cyclicTable) fuel
      ⟨[], 2, 1, 0, fun _ => 0⟩ 0 = some r) ↔ ¬ Repeats (partitionOf cyclicTable) 2 :=
  (loops_return_iff _ _ (partitionOf_opened cyclicTable) 0).1 ⟨[], 2, 1, 0, fun _ => 0⟩

/-- A file of one byte in it is loaded again and again. -/
theorem cyclic_load : ¬ ∃ fuel r, fatxLoadFromDisk (diskOf cyclicTable fun _ => [])
    (partitionOf cyclicTable) fuel ⟨[], 2, 1, 0, fun _ => 0⟩ 0 = some r := by
  rw [load_returns_iff (partitionOf_opened cyclicTable).geometry, not_not]
  exact cyclicTable_repeats

end Gentoox.Fatx
