import GentooxLoader.Fatx.FindDir
import GentooxLoader.Fatx.FindFile

/-!
# What is listed is found (FATXListDir, FATXFindFile)

`HDDFlashMenuInit` lists a directory and then asks for each of the files by its
path.  The listing passes over an entry with a bad size, where the search gives
up:

    fatxListDir_prefix  the list holds the names of the first live entries
    listed_found_iff    a listed file is found ↔ no entry with a bad size comes
                        before the directory or before the file, and its cluster
                        is kept when the name is stored
    listed_not_found    one comes before the file
-/

namespace Gentoox.Fatx

open Cells Lib Loops

/-! ## The list -/

/-- The live entries before the end marker. -/
def lives (l : List DirEntry) : List DirEntry := (listing l).filter (·.Live)

/-- The string for an entry. -/
def listedName (path : List UInt8) (e : DirEntry) : List UInt8 := cstr (path ++ e.name)

theorem lives_end {e : DirEntry} {l : List DirEntry} (h : e.IsEnd) : lives (e :: l) = [] := by
  unfold lives
  rw [listing_end h, List.filter_nil]

theorem lives_live {e : DirEntry} {l : List DirEntry} (h : e.Live) :
    lives (e :: l) = e :: lives l := by
  unfold lives
  rw [listing_cons h.1, List.filter_cons_of_pos (by simpa using h)]

theorem lives_other {e : DirEntry} {l : List DirEntry} (hend : ¬ e.IsEnd) (h : ¬ e.Live) :
    lives (e :: l) = lives l := by
  unfold lives
  rw [listing_cons hend, List.filter_cons_of_neg (by simpa using h)]

/-- However the loop ends, it has stored the names of some first live entries. -/
theorem listDir_forEach (reslen : Nat) (path : List UInt8) {l : List DirEntry}
    {res res' : List (List UInt8)}
    (h : forEach (dirBody (listDirBody reslen path)) l res = .next res' ∨
      forEach (dirBody (listDirBody reslen path)) l res = .done res') :
    res' <+: res ++ (lives l).map (listedName path) := by
  induction l generalizing res with
  | nil =>
    rcases h with h | h
    · cases h
      exact List.prefix_append _ _
    · cases h
  | cons e l ih =>
    rw [forEach_cons] at h
    by_cases hend : e.IsEnd
    · rw [dirBody_end res hend] at h
      rcases h with h | h
      · cases h
      · cases h
        exact List.prefix_append _ _
    by_cases hlive : e.Live
    · rw [dirBody_live res hlive] at h
      rw [lives_live hlive, List.map_cons, List.append_cons]
      by_cases hfull : reslen ≤ res.length + 1
      · rw [listDirBody_full hfull] at h
        rcases h with h | h
        · cases h
        · cases h
          exact List.prefix_append _ _
      · rw [listDirBody_more (Nat.lt_of_not_le hfull)] at h
        exact ih h
    · rw [dirBody_other res hend hlive] at h
      rw [lives_other hend hlive]
      exact ih h

theorem lives_append (l l' : List DirEntry) : lives l <+: lives (l ++ l') := by
  induction l with
  | nil => exact List.nil_prefix
  | cons e l ih =>
    rw [List.cons_append]
    by_cases hend : e.IsEnd
    · rw [lives_end hend]
      exact List.nil_prefix
    by_cases hlive : e.Live
    · rw [lives_live hlive, lives_live hlive]
      exact (List.prefix_cons_inj e).2 ih
    · rw [lives_other hend hlive, lives_other hend hlive]
      exact ih

/-- `e` is the live entry number `j` of the directory, no end marker before it. -/
def LiveAt (env : Env) (p : FATXPartition) (clusterId : Int) (j : Nat) (e : DirEntry) : Prop :=
  ∃ n, Long p clusterId n ∧ (lives (along env p n clusterId))[j]? = some e

section
variable {env : Env} {p : FATXPartition} (hg : Geometry p) (hok : ∀ i, env.fails i = false)

theorem along_prefix (hg : Geometry p) (hok : ∀ i, env.fails i = false) (clusterId : Int)
    {n k : Nat} (hk : k ≤ n) : ∃ l, along env p n clusterId = along env p k clusterId ++ l := by
  have h := seen_prefix env p (.start env clusterId 0) hk
  rw [seen_eq hg hok, seen_eq hg hok] at h
  exact h

include hg in
theorem listDir_stable {clusterId : Int} {reslen : Nat} {path : List UInt8} {reads fuel : Nat}
    {r : List (List UInt8) × Nat}
    (h : fatxListDir env p fuel clusterId reslen path reads = some r) :
    Fuel.Ends (fun fuel => fatxListDir env p fuel clusterId reslen path reads) (some r) :=
  walkDir_stable (w := .start env clusterId reads)
    (fun _ acc curEntry => visitForList_turn reslen path acc curEntry) hg h

include hg hok

/-- The strings of the list are those of the live entries, in their order. -/
theorem fatxListDir_prefix {clusterId : Int} {reslen : Nat} {path : List UInt8} {reads : Nat}
    {res : List (List UInt8)} {reads' : Nat}
    (h : Fuel.Ends (fun fuel => fatxListDir env p fuel clusterId reslen path reads)
      (some (res, reads'))) : ∃ n, Long p clusterId n ∧
      res <+: (lives (along env p n clusterId)).map (listedName path) := by
  have hseen := fun n => seen_eq hg hok n (.start env clusterId reads)
  rcases walkDir_cases env (fun _ acc curEntry => visitForList_turn reslen path acc curEntry) hg
      (.start env clusterId reads) [] with
    ⟨n, res', reads'', hlong, -, hover, hends⟩ | ⟨n, res', reads'', hlong, hover, hends⟩ |
      ⟨-, hnever⟩
  · cases hends.unique h
    rw [hseen] at hover
    exact ⟨n, hlong, listDir_forEach reslen path (.inl hover)⟩
  · cases hends.unique h
    rw [hseen] at hover
    exact ⟨n, hlong, listDir_forEach reslen path (.inr hover)⟩
  · obtain ⟨fuel, hfuel⟩ := h
    cases (hnever fuel).symm.trans (hfuel fuel (Nat.le_refl fuel))

/-- The string number `j` is that of the live entry number `j`. -/
theorem LiveAt.listed {clusterId : Int} {reslen : Nat} {path filename : List UInt8} {reads : Nat}
    {res : List (List UInt8)} {reads' j : Nat} {e : DirEntry}
    (h : Fuel.Ends (fun fuel => fatxListDir env p fuel clusterId reslen path reads)
      (some (res, reads'))) (he : LiveAt env p clusterId j e) (hres : res[j]? = some filename) :
    filename = listedName path e := by
  obtain ⟨n, -, hres'⟩ := fatxListDir_prefix hg hok h
  obtain ⟨m, -, hm⟩ := he
  have hn : ((lives (along env p n clusterId)).map (listedName path))[j]? = some filename := by
    obtain ⟨l, hl⟩ := hres'
    rw [← hl, List.getElem?_append_left (List.getElem?_eq_some_iff.1 hres).1]
    exact hres
  rw [List.getElem?_map, Option.map_eq_some_iff] at hn
  obtain ⟨e', he', rfl⟩ := hn
  obtain rfl : e' = e := by
    -- the two lists are the beginnings of a longer one
    have hmono : ∀ {k : Nat} {e : DirEntry}, k ≤ max n m →
        (lives (along env p k clusterId))[j]? = some e →
        (lives (along env p (max n m) clusterId))[j]? = some e := by
      intro k e hk hke
      obtain ⟨l, hl⟩ := along_prefix hg hok clusterId hk
      obtain ⟨t, ht⟩ := lives_append (along env p k clusterId) l
      rw [hl, ← ht, List.getElem?_append_left (List.getElem?_eq_some_iff.1 hke).1]
      exact hke
    have he' := hmono (Nat.le_max_left n m) he'
    rw [hmono (Nat.le_max_right n m) hm] at he'
    exact (Option.some.inj he').symm
  rfl

end

/-- Before it are the live entries with smaller numbers, and no end marker. -/
theorem lives_getElem? {l : List DirEntry} {j : Nat} {e : DirEntry}
    (h : (lives l)[j]? = some e) : ∃ before after, l = before ++ e :: after ∧ e.Live ∧
      ∀ e' ∈ before, ¬ e'.IsEnd ∧ (e'.Live → ∃ i, i < j ∧ (lives l)[i]? = some e') := by
  induction l generalizing j with
  | nil => cases h
  | cons x l ih =>
    by_cases hend : x.IsEnd
    · rw [lives_end hend] at h
      cases h
    by_cases hlive : x.Live
    · rw [lives_live hlive] at h ⊢
      cases j with
      | zero =>
        cases h
        exact ⟨[], l, rfl, hlive, fun e' he' => absurd he' List.not_mem_nil⟩
      | succ j =>
        obtain ⟨before, after, rfl, he, hbefore⟩ := ih h
        refine ⟨x :: before, after, rfl, he, fun e' he' => ?_⟩
        rcases List.mem_cons.1 he' with rfl | he'
        · exact ⟨hend, fun _ => ⟨0, Nat.succ_pos j, rfl⟩⟩
        · refine ⟨(hbefore e' he').1, fun hl => ?_⟩
          obtain ⟨i, hi, hi'⟩ := (hbefore e' he').2 hl
          exact ⟨i + 1, Nat.succ_lt_succ hi, hi'⟩
    · rw [lives_other hend hlive] at h ⊢
      obtain ⟨before, after, rfl, he, hbefore⟩ := ih h
      refine ⟨x :: before, after, rfl, he, fun e' he' => ?_⟩
      rcases List.mem_cons.1 he' with rfl | he'
      · exact ⟨hend, fun hl => absurd hl hlive⟩
      · exact hbefore e' he'

/-! ## The search -/

/-- An entry with a bad size comes before the end marker and the entries of the name. -/
def BadSizeBefore (seek : List UInt8) (l : List DirEntry) : Prop :=
  ∃ before b after, l = before ++ b :: after ∧ (∀ e ∈ before, ¬ e.EndsFindDir seek) ∧
    ¬ b.IsEnd ∧ ¬ b.Deleted ∧ b.BadSize

/-- In the directory that starts in this cluster. -/
def BadSizeIn (env : Env) (p : FATXPartition) (clusterId : Int) (seek : List UInt8) : Prop :=
  ∃ n, Long p clusterId n ∧ BadSizeBefore seek (along env p n clusterId)

theorem endsFindFile_iff {seek : List UInt8} {e : DirEntry} : e.EndsFindFile seek ↔
    e.EndsFindDir seek ∨ (¬ e.IsEnd ∧ ¬ e.Deleted ∧ e.BadSize) := by
  unfold DirEntry.EndsFindFile DirEntry.EndsFindDir
  by_cases hend : e.IsEnd
  · exact iff_of_true (.inl hend) (.inl (.inl hend))
  · constructor
    · rintro (h | ⟨hdel, hbad⟩ | h)
      · exact .inl (.inl h)
      · exact .inr ⟨hend, hdel, hbad⟩
      · exact .inl (.inr h)
    · rintro ((h | h) | ⟨-, hdel, hbad⟩)
      · exact .inl h
      · exact .inr (.inr h)
      · exact .inr (.inl ⟨hdel, hbad⟩)

/-- Without a bad size the first entry of the name is what the search finds. -/
theorem scan_firstNamed {seek : List UInt8} {l : List DirEntry} {e : DirEntry}
    (h : FirstNamed seek l e) (hbad : ¬ BadSizeBefore seek l) (lookForDirectory : Bool) :
    forEach (fileBody seek lookForDirectory) l () = .done (foundScan lookForDirectory e) := by
  obtain ⟨before, after, rfl, hbefore, hlive, hnamed⟩ := h
  have hpass : ∀ e' ∈ before, ¬ e'.EndsFindFile seek := by
    intro e' he' hstop
    rcases endsFindFile_iff.1 hstop with hstop | hb
    · exact hbefore e' he' hstop
    · obtain ⟨b1, b2, rfl⟩ := List.append_of_mem he'
      exact hbad ⟨b1, e', b2 ++ e :: after, by simp,
        fun x hx => hbefore x (List.mem_append_left _ hx), hb⟩
  rw [(endsAt_findFile seek lookForDirectory).first hpass (.inr (.inr ⟨hlive, hnamed⟩)),
    fileBody_named hlive hnamed]

/-- With one the search gives up. -/
theorem BadSizeBefore.scan {seek : List UInt8} {l : List DirEntry} (h : BadSizeBefore seek l)
    (lookForDirectory : Bool) :
    forEach (fileBody seek lookForDirectory) l () = .done .refused := by
  obtain ⟨before, b, after, rfl, hbefore, hend, hdel, hbad⟩ := h
  cases hover : forEach (fileBody seek lookForDirectory) before () with
  | next u =>
    have hpass := (endsAt_findFile seek lookForDirectory).passes_iff.1 ⟨u, hover⟩
    rw [(endsAt_findFile seek lookForDirectory).first hpass (.inr (.inl ⟨hdel, hbad⟩)),
      fileBody_badSize hend hdel hbad]
  | done scan =>
    -- what stops it earlier has a bad size as well
    rw [forEach_append, hover]
    obtain ⟨b1, x, b2, rfl, -, hstops, hx⟩ :=
      (endsAt_findFile seek lookForDirectory).of_done hover
    have hnot := hbefore x (List.mem_append_right _ (List.mem_cons_self ..))
    obtain ⟨hxend, hxdel, hxbad⟩ := (endsFindFile_iff.1 hstops).resolve_left hnot
    rw [fileBody_badSize hxend hxdel hxbad] at hx
    cases hx
    rfl

section
variable {env : Env} {p : FATXPartition} (hg : Geometry p) (hok : ∀ i, env.fails i = false)
  {filename seek : List UInt8} {rest : Option (List UInt8)} {w : Walk} {e : DirEntry}

include hg hok

/-- The search of a name that is there. -/
theorem search_first (hseek : seekName filename = some (seek, rest))
    (he : ∃ n, Long p w.clusterId n ∧ FirstNamed seek (along env p n w.clusterId) e)
    (fileinfo : FATXFILEINFO) : ∃ w' w'' scan,
      Comes (findTurn env p) ⟨filename, w, fileinfo⟩ ⟨filename, w', fileinfo⟩ ∧
      findTurn env p ⟨filename, w', fileinfo⟩ =
        some (Search.go env ⟨filename, w', fileinfo⟩ rest w'' scan) ∧
      (BadSizeIn env p w.clusterId seek ∧ scan = .refused ∨
        ¬ BadSizeIn env p w.clusterId seek ∧ scan = foundScan rest.isSome e) := by
  by_cases hbad : BadSizeIn env p w.clusterId seek
  · obtain ⟨n, hlong, h⟩ := hbad
    have hover := h.scan rest.isSome
    rw [← seen_eq hg hok] at hover
    obtain ⟨w', w'', hcomes, hturn⟩ := search_stopped hg hseek hlong hover fileinfo
    exact ⟨w', w'', _, hcomes, hturn, .inl ⟨⟨n, hlong, h⟩, rfl⟩⟩
  · obtain ⟨n, hlong, h⟩ := he
    have hover := scan_firstNamed h (fun hb => hbad ⟨n, hlong, hb⟩) rest.isSome
    rw [← seen_eq hg hok] at hover
    obtain ⟨w', w'', hcomes, hturn⟩ := search_stopped hg hseek hlong hover fileinfo
    exact ⟨w', w'', _, hcomes, hturn, .inr ⟨hbad, rfl⟩⟩

end

/-! ## Top theorem -/

/-- The directory as a path, with a backslash on either side. -/
def dirPath (dir : List UInt8) : List UInt8 := 0x5c :: (dir ++ [0x5c])

/-- `FATXFindDir` finds a directory of that name, `FATXListDir` gives `filename`
for its entry `e`, a file, the first of its name and without a NUL or a slash in it. -/
structure Listed (env : Env) (p : FATXPartition) (root : Int) (dir : List UInt8) (dcluster : Int)
    (e : DirEntry) (filename : List UInt8) : Prop where
  found : ∃ reads reads', Fuel.Ends (fun fuel => fatxFindDir env p fuel root dir reads)
    (some (some dcluster, reads'))
  ne : dcluster ≠ -1
  listed : ∃ j reslen reads res reads', LiveAt env p dcluster j e ∧
    Fuel.Ends (fun fuel => fatxListDir env p fuel dcluster reslen (dirPath dir) reads)
      (some (res, reads')) ∧ res[j]? = some filename ∧
    ∀ i e', i < j → LiveAt env p dcluster i e' → ¬ e'.Named e.name
  file : ¬ e.IsDirectory
  name : ∀ c ∈ e.name, c ≠ 0 ∧ ¬ IsSlash c

/-- The search by that path ends with the cluster and the size of the entry. -/
def FindsEntry (env : Env) (p : FATXPartition) (root : Int) (filename : List UInt8)
    (fileinfo : FATXFILEINFO) (reads : Nat) (e : DirEntry) : Prop :=
  ∃ fileinfo' reads', Fuel.Ends (fun fuel => fatxFindFile env p fuel filename root fileinfo reads)
      (some (true, fileinfo', reads')) ∧
    fileinfo'.clusterId = signed e.clusterId ∧ fileinfo'.fileSize = e.fileSize

theorem mem_along {env : Env} {p : FATXPartition} {n : Nat} {clusterId : Int} {d : DirEntry}
    (h : d ∈ along env p n clusterId) : ∃ c, d ∈ entriesOf (stored env p c) := by
  induction n generalizing clusterId with
  | zero => cases h
  | succ n ih =>
    rcases List.mem_append.1 h with h | h
    · exact ⟨clusterId, h⟩
    · exact ih h

/-- No entry has a name that is too long to be looked for. -/
theorem FirstNamed.length_le {env : Env} {p : FATXPartition} {clusterId : Int} {n : Nat}
    {d : DirEntry} {seek : List UInt8} (h : FirstNamed seek (along env p n clusterId) d) :
    ¬ seek.length > fatxFilenameMax := by
  obtain ⟨before, after, hsplit, -, -, hnamed⟩ := h
  have hmem : d ∈ along env p n clusterId := by
    rw [hsplit]
    exact List.mem_append_right _ (List.mem_cons_self ..)
  obtain ⟨c, hd⟩ := mem_along hmem
  have hfound : d.found.length ≤ d.name.length := (List.takeWhile_sublist _).length_le
  rw [hnamed.1, Nat.not_lt]
  exact hfound.trans (length_name_of_mem hd)

theorem FirstNamed.name_ne_nil {env : Env} {p : FATXPartition} {clusterId : Int} {n : Nat}
    {d : DirEntry} {seek : List UInt8} (h : FirstNamed seek (along env p n clusterId) d) :
    d.name ≠ [] := by
  obtain ⟨before, after, hsplit, -, hlive, -⟩ := h
  have hmem : d ∈ along env p n clusterId := by
    rw [hsplit]
    exact List.mem_append_right _ (List.mem_cons_self ..)
  obtain ⟨c, hd⟩ := mem_along hmem
  obtain ⟨i, -, rfl⟩ := List.mem_map.1 hd
  obtain ⟨hsize, -⟩ := not_or.1 hlive.2.2
  have hlen : (dirEntry (stored env p c) (i * fatxDirectoryEntrySize)).name.length =
      min (stored env p c (i * fatxDirectoryEntrySize)).toNat fatxFilenameMax := length_read _ _ _
  intro hnil
  rw [hnil] at hlen
  unfold fatxFilenameMax at hlen
  exact hsize (by show (stored env p c _).toNat < 1; rw [List.length_nil] at hlen; omega)

section
variable {env : Env} {p : FATXPartition} (hg : Geometry p) (hok : ∀ i, env.fails i = false)
  {root dcluster : Int} {dir filename : List UInt8} {e : DirEntry}

include hg hok

theorem Listed.directory (h : Listed env p root dir dcluster e filename) :
    ∃ d, (∃ n, Long p root n ∧ FirstNamed dir (along env p n root) d) ∧ d.IsDirectory ∧
      dcluster = signed d.clusterId := by
  obtain ⟨reads, reads', hends⟩ := h.found
  obtain ⟨d, ⟨n, hlong, hfirst⟩, hd⟩ := (findDir_ends_iff hg dcluster).1 ⟨reads', hends⟩
  rw [seen_eq hg hok] at hfirst
  have hne := h.ne
  rw [hd] at hne ⊢
  unfold DirEntry.directoryId at hne ⊢
  split_ifs at hne ⊢ with hdir
  · exact ⟨d, ⟨n, hlong, hfirst⟩, hdir, rfl⟩
  · exact absurd rfl hne

omit hg hok in
theorem Listed.proper (h : Listed env p root dir dcluster e filename) : e.found = e.name :=
  List.takeWhile_eq_self_iff.2 fun c hc => decide_eq_true (h.name c hc).1

omit hg hok in
theorem Listed.first (h : Listed env p root dir dcluster e filename) :
    ∃ n, Long p dcluster n ∧ FirstNamed e.name (along env p n dcluster) e := by
  obtain ⟨j, -, -, -, -, ⟨n, hlong, hj⟩, -, -, hnone⟩ := h.listed
  obtain ⟨before, after, hsplit, hlive, hbefore⟩ := lives_getElem? hj
  refine ⟨n, hlong, before, after, hsplit, fun e' he' => ?_, hlive, DirEntry.named_iff.2 ?_⟩
  · obtain ⟨hend, hnumber⟩ := hbefore e' he'
    rintro (h | ⟨hl, hnamed⟩)
    · exact hend h
    · obtain ⟨i, hi, hi'⟩ := hnumber hl
      exact hnone i e' hi ⟨n, hlong, hi'⟩ hnamed
  · rw [h.proper]

theorem Listed.filename_eq (h : Listed env p root dir dcluster e filename)
    (hdir : ∀ c ∈ dir, c ≠ 0) : filename = dirPath dir ++ e.name := by
  obtain ⟨j, reslen, reads, res, reads', hj, hends, hres, -⟩ := h.listed
  rw [hj.listed hg hok hends hres]
  refine List.takeWhile_eq_self_iff.2 fun c hc => decide_eq_true ?_
  unfold dirPath at hc
  simp only [List.mem_append, List.mem_cons, List.not_mem_nil, or_false] at hc
  rcases hc with (rfl | hc | rfl) | hc
  · decide
  · exact hdir c hc
  · decide
  · exact (h.name c hc).1

/-- The call goes through the two names. -/
theorem search_listed (h : Listed env p root dir dcluster e filename) (hne : dir ≠ [])
    (hdir : ∀ c ∈ dir, c ≠ 0 ∧ ¬ IsSlash c) (fileinfo : FATXFILEINFO) (reads : Nat) :
    FindsEntry env p root filename fileinfo reads e ↔
      ¬ BadSizeIn env p root dir ∧ ¬ BadSizeIn env p dcluster e.name ∧ e.Kept := by
  obtain ⟨d, hd, hisdir, hdcluster⟩ := h.directory hg hok
  have hfirst := h.first
  have hname : e.name ≠ [] := by
    obtain ⟨n, -, hfirst⟩ := hfirst
    exact hfirst.name_ne_nil
  have hslash := fun c hc => (h.name c hc).2
  have hjoined : Joined (dir ++ 0x5c :: e.name) [dir, e.name] :=
    .more hne (fun c hc => (hdir c hc).2) (.inr rfl) (.last hname hslash)
  have hpath : slashed (dir ++ 0x5c :: e.name) = dir ++ 0x2f :: e.name := by
    rw [slashed_more (fun c hc => (hdir c hc).2) (.inr rfl), slashed_name hslash]
  have hcall : (fun fuel => fatxFindFile env p fuel filename root fileinfo reads) =
      fun fuel => loop (findTurn env p) fuel
        ⟨dir ++ 0x2f :: e.name, .start env root reads, fileinfo⟩ := by
    funext fuel
    have hfile : filename = [0x5c] ++ (dir ++ 0x5c :: e.name) := by
      rw [h.filename_eq hg hok fun c hc => (hdir c hc).1]
      simp [dirPath]
    have hstripped : stripped filename = dir ++ 0x2f :: e.name := by
      rw [hfile, stripped_path (fun c hc => .inr (List.mem_singleton.1 hc)) hjoined, hpath]
    rw [← findLoop_eq, ← hstripped]
    rfl
  have hseek : seekName (dir ++ 0x2f :: e.name) = some (dir, some e.name) := by
    obtain ⟨n, -, hd⟩ := hd
    rw [seekName_more (fun c hc hs => (hdir c hc).2 (.inl hs)), if_neg hd.length_le]
  have hseek' : seekName e.name = some (e.name, none) := by
    obtain ⟨n, -, hfirst⟩ := hfirst
    rw [seekName_last (fun c hc hs => hslash c hc (.inl hs)), if_neg hfirst.length_le]
  unfold FindsEntry
  rw [hcall]
  -- a search that is refused does not end with true
  have hrefused : ∀ {v : Search} {reads' : Nat},
      Comes (findTurn env p) ⟨dir ++ 0x2f :: e.name, .start env root reads, fileinfo⟩ v →
      findTurn env p v = some (.done (false, fileinfo, reads')) →
      ¬ ∃ fileinfo' reads', Fuel.Ends (fun fuel => loop (findTurn env p) fuel
          ⟨dir ++ 0x2f :: e.name, .start env root reads, fileinfo⟩)
          (some (true, fileinfo', reads')) ∧
        fileinfo'.clusterId = signed e.clusterId ∧ fileinfo'.fileSize = e.fileSize := by
    rintro v reads' hv hdone ⟨fileinfo', reads'', hends, -⟩
    cases (hv.ends hdone).unique hends
  obtain ⟨w', w'', scan, hcomes, hturn, ⟨hbad, rfl⟩ | ⟨hbad, rfl⟩⟩ :=
    search_first (w := .start env root reads) hg hok hseek hd fileinfo
  · exact iff_of_false (hrefused hcomes hturn) fun h => h.1 hbad
  unfold foundScan at hturn
  rw [Option.isSome_some, if_pos rfl, if_pos hisdir, ← hdcluster] at hturn
  obtain ⟨u', u'', scan, hcomes', hturn', ⟨hbad', rfl⟩ | ⟨hbad', rfl⟩⟩ :=
    search_first (w := ⟨dcluster, env.stack w''.reads, w''.reads⟩) hg hok hseek' hfirst fileinfo
  · exact iff_of_false (hrefused ((hcomes.tail hturn).trans hcomes') hturn') fun h => h.2.1 hbad'
  · unfold foundScan at hturn'
    rw [Option.isSome_none, if_neg (by decide), if_pos h.file] at hturn'
    have hcomes : Comes (findTurn env p) _ _ := (hcomes.tail hturn).trans hcomes'
    have hends := hcomes.ends hturn'
    constructor
    · rintro ⟨fileinfo', reads'', hends', hid, -⟩
      cases hends.unique hends'
      exact ⟨hbad, hbad', DirEntry.startCluster_eq_iff.1 hid⟩
    · rintro ⟨-, -, hkept⟩
      exact ⟨_, _, hends, DirEntry.startCluster_eq_iff.2 hkept, rfl⟩

end

/-- **What is listed is found.**  A file that the listing of a directory gives is
found by its path, with its cluster and size, exactly when no entry with a bad
size comes before the entry of the directory, nor before its own, and the cluster
outlives the storing of the name. -/
theorem listed_found_iff (env : Env) (p : FATXPartition) (hp : Opened p)
    (hok : ∀ i, env.fails i = false) (root dcluster : Int) (dir filename : List UInt8)
    (e : DirEntry) (hne : dir ≠ []) (hdir : ∀ c ∈ dir, c ≠ 0 ∧ ¬ IsSlash c)
    (h : Listed env p root dir dcluster e filename) (fileinfo : FATXFILEINFO) (reads : Nat) :
    FindsEntry env p root filename fileinfo reads e ↔
      ¬ BadSizeIn env p root dir ∧ ¬ BadSizeIn env p dcluster e.name ∧ e.Kept :=
  search_listed hp.geometry hok h hne hdir fileinfo reads

/-- The root directory is cluster 1 and leads to cluster 2 under the name BIOS. -/
def biosTable : List UInt8 := [0xf8, 0xff, 0xff, 0xff, 0xff, 0xff]

/-- The entry of a file `a` of five bytes, behind one with a size of 43. -/
def biosData (block : UInt32) : List UInt8 :=
  if block = 16 then [4, 0x10] ++ bios ++ List.replicate 38 0 ++ [2, 0, 0, 0, 0, 0, 0, 0]
  else if block = 48 then
    [43] ++ List.replicate 63 0 ++ [1, 0, 0x61] ++ List.replicate 41 0 ++ [3, 0, 0, 0, 5, 0, 0, 0]
  else []

/-- The file that is listed. -/
def biosFile : DirEntry where
  filenameSize := 1
  flags := 0
  name := [0x61]
  clusterId := 3
  fileSize := 5

deriving instance DecidableEq for DirEntry

theorem biosFile_listed : Listed (diskOf biosTable biosData) (partitionOf biosTable) 1 bios 2
    biosFile (dirPath bios ++ [0x61]) where
  found := by
    have hrun : fatxFindDir (diskOf biosTable biosData) (partitionOf biosTable) 1 1 bios 0 =
        some (some 2, 32) := by
      decide +kernel
    exact ⟨0, 32, findDir_stable (partitionOf_opened biosTable).geometry hrun⟩
  ne := by decide
  listed := by
    have hrun : fatxListDir (diskOf biosTable biosData) (partitionOf biosTable) 1 2 256
        (dirPath bios) 0 = some ([dirPath bios ++ [0x61]], 32) := by
      decide +kernel
    refine ⟨0, 256, 0, _, 32, ⟨1, ?_, ?_⟩,
      listDir_stable (partitionOf_opened biosTable).geometry hrun, rfl, ?_⟩
    · exact long_cons.2 ⟨by decide, fun k hk => absurd hk (Nat.not_lt_zero k)⟩
    · decide +kernel
    · exact fun i _ hi => absurd hi (Nat.not_lt_zero i)
  file := by decide
  name := by
    intro c hc
    rw [List.mem_singleton.1 hc]
    exact ⟨by decide, by simp [IsSlash]⟩

theorem biosFile_badSize :
    BadSizeIn (diskOf biosTable biosData) (partitionOf biosTable) 2 biosFile.name := by
  refine ⟨1, long_cons.2 ⟨by decide, fun k hk => absurd hk (Nat.not_lt_zero k)⟩, [], _, _,
    congrArg (· ++ []) (entriesFrom_succ _ 255 0), fun _ h => absurd h List.not_mem_nil, ?_⟩
  decide +kernel

theorem bios_name : ∀ c ∈ bios, c ≠ 0 ∧ ¬ IsSlash c := by
  simp [bios, chars, IsSlash]

theorem listed_found_iff_bios :
    FindsEntry (diskOf biosTable biosData) (partitionOf biosTable) 1 (dirPath bios ++ [0x61])
        smallFile 0 biosFile ↔
      ¬ BadSizeIn (diskOf biosTable biosData) (partitionOf biosTable) 1 bios ∧
        ¬ BadSizeIn (diskOf biosTable biosData) (partitionOf biosTable) 2 biosFile.name ∧
        biosFile.Kept :=
  listed_found_iff (diskOf biosTable biosData) (partitionOf biosTable)
    (partitionOf_opened biosTable) (fun _ => rfl) 1 2 bios (dirPath bios ++ [0x61]) biosFile
    (by decide) bios_name biosFile_listed smallFile 0

/-- The file `a` is listed, but not found. -/
theorem listed_not_found :
    Listed (diskOf biosTable biosData) (partitionOf biosTable) 1 bios 2 biosFile
        (dirPath bios ++ [0x61]) ∧
      ¬ FindsEntry (diskOf biosTable biosData) (partitionOf biosTable) 1 (dirPath bios ++ [0x61])
        smallFile 0 biosFile := by
  refine ⟨biosFile_listed, fun h => ?_⟩
  have hcond := (search_listed (partitionOf_opened biosTable).geometry (fun _ => rfl)
    biosFile_listed (by decide) bios_name smallFile 0).1 h
  exact hcond.2.1 biosFile_badSize

end Gentoox.Fatx
