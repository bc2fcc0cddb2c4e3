import GentooxLoader.Fatx.Termination
import GentooxLoader.Fatx.Tree
import Mathlib.Data.List.TakeWhile

/-!
# Files by path (FATXFindFile)

On a directory tree with proper names, where no read fails, the search finds
what the path says, and leaves its cluster in `fileinfo` unless the name of 42
characters that it stores behind it ends there:

    search_directory       one directory of the path
    search_path            the path from some directory on
    resolvedAsSaid_iff     true ↔ the path leads through directories to a file,
                           with its cluster ↔ the file's cluster is kept
    overwritten_clusterId  a name of 42 characters, a file in cluster 3: 0 is left
-/

namespace Gentoox.Fatx

open Cells Lib Loops

/-! ## Paths -/

def IsSlash (c : UInt8) : Prop := c = 0x2f ∨ c = 0x5c

/-- The names with one slash or backslash between any two. -/
inductive Joined : List UInt8 → List (List UInt8) → Prop where
  | last {name : List UInt8} (hne : name ≠ []) (hname : ∀ c ∈ name, ¬ IsSlash c) :
      Joined name [name]
  | more {name path : List UInt8} {names : List (List UInt8)} {slash : UInt8} (hne : name ≠ [])
      (hname : ∀ c ∈ name, ¬ IsSlash c) (hslash : IsSlash slash) (hrest : Joined path names) :
      Joined (name ++ slash :: path) (name :: names)

/-- A path with these names, some slashes in front of it. -/
def PathOf (filename : List UInt8) (names : List (List UInt8)) : Prop :=
  ∃ leading path, filename = leading ++ path ∧ (∀ c ∈ leading, IsSlash c) ∧ Joined path names

/-! ## One directory -/

namespace DirEntry

theorem Proper.found {e : DirEntry} (h : e.Proper) : e.found = e.name := by
  refine List.takeWhile_eq_self_iff.2 fun c hc => decide_eq_true ?_
  rintro rfl
  exact h.2 hc

/-- Among proper entries the comparison is that of the names. -/
theorem answers_iff {seek : List UInt8} {e : DirEntry} (hend : ¬ e.IsEnd)
    (hproper : ¬ e.Deleted → e.Proper) : e.Answers seek ↔ e.EndsFindFile seek := by
  unfold Answers EndsFindFile
  by_cases hdel : e.Deleted
  · refine iff_of_false (fun h => h.1 hdel) ?_
    rintro (h | ⟨h, -⟩ | ⟨h, -⟩)
    · exact hend h
    · exact h hdel
    · exact h.2.1 hdel
  · have hp := hproper hdel
    rw [named_iff, hp.found]
    constructor
    · exact fun h => .inr (.inr ⟨⟨hend, hdel, hp.1⟩, h.2⟩)
    · rintro (h | ⟨-, h⟩ | ⟨-, h⟩)
      · exact absurd h hend
      · exact absurd h hp.1
      · exact ⟨hdel, h⟩

/-- The cluster that the search leaves for a file. -/
def startCluster (e : DirEntry) : Int := keptClusterId e.name (signed e.clusterId)

/-- The NUL behind the name changes nothing of the cluster. -/
def Kept (e : DirEntry) : Prop :=
  e.name.length = fatxFilenameMax → e.clusterId.toNat % 0x100 = 0

theorem startCluster_eq_iff {e : DirEntry} : e.startCluster = signed e.clusterId ↔ e.Kept := by
  have hlow : signed e.clusterId % 0x100 = (e.clusterId.toNat : Int) % 0x100 := by
    unfold signed
    split <;> omega
  unfold startCluster keptClusterId Kept
  split_ifs with hname
  · rw [hlow]
    constructor
    · intro h _
      omega
    · intro h
      have := h hname
      omega
  · exact iff_of_true rfl fun h => absurd h hname

end DirEntry

theorem keptClusterId_congr {name name' : List UInt8} (h : name.length = name'.length)
    (clusterId : Int) : keptClusterId name clusterId = keptClusterId name' clusterId := by
  unfold keptClusterId
  rw [h]

theorem listing_append {before l : List DirEntry} (h : ∀ e ∈ before, ¬ e.IsEnd) :
    listing (before ++ l) = before ++ listing l :=
  List.takeWhile_append_of_pos fun e he => decide_eq_true (h e he)

theorem listing_end {e : DirEntry} {l : List DirEntry} (h : e.IsEnd) : listing (e :: l) = [] :=
  List.takeWhile_cons_of_neg (by simpa using h)

theorem listing_cons {e : DirEntry} {l : List DirEntry} (h : ¬ e.IsEnd) :
    listing (e :: l) = e :: listing l :=
  List.takeWhile_cons_of_pos (by simpa using h)

/-- The entry that stops the search is the end marker or the one looked for. -/
theorem find_listing {seek : List UInt8} {before after : List DirEntry} {e : DirEntry}
    (hproper : ∀ e' ∈ listing (before ++ e :: after), ¬ e'.Deleted → e'.Proper)
    (hbefore : ∀ e' ∈ before, ¬ e'.EndsFindFile seek) (he : e.EndsFindFile seek) :
    (listing (before ++ e :: after)).find? (·.Answers seek) =
      if e.IsEnd then none else some e := by
  have hend : ∀ e' ∈ before, ¬ e'.IsEnd := fun e' he' h => hbefore e' he' (.inl h)
  rw [listing_append hend] at hproper ⊢
  have hnone : before.find? (·.Answers seek) = none := by
    refine List.find?_eq_none.2 fun e' he' h => hbefore e' he' ?_
    exact (DirEntry.answers_iff (hend e' he')
      (hproper e' (List.mem_append_left _ he'))).1 (of_decide_eq_true h)
  rw [List.find?_append, hnone, Option.none_or]
  by_cases h : e.IsEnd
  · rw [if_pos h, listing_end h, List.find?_nil]
  · rw [listing_cons h] at hproper ⊢
    have hmem : e ∈ before ++ e :: listing after :=
      List.mem_append_right _ (List.mem_cons_self ..)
    have hans := (DirEntry.answers_iff h (hproper e hmem)).2 he
    rw [if_neg h, List.find?_cons_of_pos (by simpa using hans)]

theorem find_passed {seek : List UInt8} {l : List DirEntry}
    (hproper : ∀ e ∈ listing l, ¬ e.Deleted → e.Proper)
    (hl : ∀ e ∈ l, ¬ e.EndsFindFile seek) : (listing l).find? (·.Answers seek) = none := by
  have hend : ∀ e ∈ l, ¬ e.IsEnd := fun e he h => hl e he (.inl h)
  have hself : listing l = l := by
    have h := listing_append (l := []) hend
    rwa [List.append_nil, show listing [] = [] from rfl, List.append_nil] at h
  rw [hself] at hproper ⊢
  refine List.find?_eq_none.2 fun e he h => hl e he ?_
  exact (DirEntry.answers_iff (hend e he) (hproper e he)).1 (of_decide_eq_true h)

section
variable {env : Env} {p : FATXPartition} (hg : Geometry p) {filename seek : List UInt8}
  {rest : Option (List UInt8)} {w : Walk}

include hg

/-- The search comes to the cluster whose entries stop it. -/
theorem search_stopped (hseek : seekName filename = some (seek, rest)) {n : Nat} {scan : Scan}
    (hlong : Long p w.clusterId n)
    (h : forEach (fileBody seek rest.isSome) (seen env p n w) () = .done scan)
    (fileinfo : FATXFILEINFO) : ∃ w' w'',
      Comes (findTurn env p) ⟨filename, w, fileinfo⟩ ⟨filename, w', fileinfo⟩ ∧
      findTurn env p ⟨filename, w', fileinfo⟩ =
        some (Search.go env ⟨filename, w', fileinfo⟩ rest w'' scan) := by
  rw [← forEach_fileWalk] at h
  induction n generalizing w with
  | zero => cases h
  | succ n ih =>
    obtain ⟨hid, hlong⟩ := long_cons.1 hlong
    unfold buffers at h
    rw [forEach_cons] at h
    cases hbody : fileWalk seek rest.isSome () (w.load env p).clusterData with
    | done scan' =>
      rw [hbody] at h
      cases h
      have hturn : findTurn env p ⟨filename, w, fileinfo⟩ = _ := findTurn_eq hg hseek hid
      rw [hbody] at hturn
      exact ⟨w, _, .refl, hturn⟩
    | next u =>
      rw [hbody] at h
      obtain ⟨w', w'', hcomes, hturn⟩ := ih hlong h
      exact ⟨w', w'', .head (walks_find hg hseek fileinfo w () u hid hbody) hcomes, hturn⟩

/-- **One directory.**  The search comes to the entry that answers, or leaves
the directory without one. -/
theorem search_directory (hok : ∀ i, env.fails i = false)
    (hseek : seekName filename = some (seek, rest)) {es : List DirEntry}
    (hes : Directory env p w.clusterId es) (hproper : ∀ e ∈ es, ¬ e.Deleted → e.Proper)
    (fileinfo : FATXFILEINFO) :
    (es.find? (·.Answers seek) = none ∧ ∃ v reads',
      Comes (findTurn env p) ⟨filename, w, fileinfo⟩ v ∧
      findTurn env p v = some (.done (false, fileinfo, reads'))) ∨
    ∃ e w' w'', es.find? (·.Answers seek) = some e ∧
      Comes (findTurn env p) ⟨filename, w, fileinfo⟩ ⟨filename, w', fileinfo⟩ ∧
      findTurn env p ⟨filename, w', fileinfo⟩ =
        some (Search.go env ⟨filename, w', fileinfo⟩ rest w'' (foundScan rest.isSome e)) := by
  obtain ⟨cs, hchain, hhead, rfl⟩ := hes
  have hcs := hchain.clusters hg w.clusterId hhead
  obtain ⟨hlong, hend⟩ := hcs.long
  have hall : seen env p cs.length w = storedEntries env p cs := by
    rw [seen_eq hg hok, hcs.along]
  cases hover : forEach (fileBody seek rest.isSome) (seen env p cs.length w) () with
  | next u =>
    have hpass := (endsAt_findFile seek rest.isSome).passes_iff.1 ⟨u, hover⟩
    rw [hall] at hpass
    refine .inl ⟨find_passed hproper hpass, _, _, findLoop_comes hg hseek hlong hover,
      findTurn_exit ?_⟩
    rw [after_clusterId, hend]
  | done scan =>
    obtain ⟨w', w'', hcomes, hturn⟩ := search_stopped hg hseek hlong hover fileinfo
    rw [hall] at hover
    obtain ⟨before, e, after, hsplit, hbefore, hstops, he⟩ :=
      (endsAt_findFile seek rest.isSome).of_done hover
    rw [hsplit] at hproper ⊢
    have hfind := find_listing hproper hbefore hstops
    rcases fileBody_cases he with ⟨hIsEnd, rfl⟩ | ⟨hnot, hdel, hbad, -⟩ | ⟨hlive, -, rfl⟩
    · rw [if_pos hIsEnd] at hfind
      exact .inl ⟨hfind, _, _, hcomes, hturn⟩
    · rw [if_neg hnot] at hfind
      exact absurd hbad (hproper e (List.mem_of_find?_eq_some hfind) hdel).1
    · rw [if_neg hlive.1] at hfind
      exact .inr ⟨e, w', w'', hfind, hcomes, hturn⟩

end

/-! ## The path -/

theorem seekName_last {name : List UInt8} (h : ∀ c ∈ name, c ≠ 0x2f) :
    seekName name = if name.length > fatxFilenameMax then none else some (name, none) := by
  have hnone : strrchr0 name 0x2f = none :=
    List.findIdx?_eq_none_iff.2 fun c hc => beq_eq_false_iff_ne.2 (h c hc)
  unfold seekName
  rw [hnone]

theorem seekName_more {name : List UInt8} (h : ∀ c ∈ name, c ≠ 0x2f) (path : List UInt8) :
    seekName (name ++ 0x2f :: path) =
      if name.length > fatxFilenameMax then none else some (name, some path) := by
  have hpos : strrchr0 (name ++ 0x2f :: path) 0x2f = some name.length := by
    have hnone : name.findIdx? (· == 0x2f) = none :=
      List.findIdx?_eq_none_iff.2 fun c hc => beq_eq_false_iff_ne.2 (h c hc)
    unfold strrchr0
    rw [List.findIdx?_append, hnone, List.findIdx?_cons, if_pos (beq_self_eq_true _)]
    simp
  unfold seekName
  rw [hpos]
  simp

/-- As `FATXFindFile` writes it. -/
def slashed (path : List UInt8) : List UInt8 := path.map fun c => if c = 0x5c then 0x2f else c

theorem slashed_name {name : List UInt8} (h : ∀ c ∈ name, ¬ IsSlash c) : slashed name = name := by
  have hmap : slashed name = name.map id := by
    refine List.map_congr_left fun c hc => if_neg fun hc' => h c hc (.inr hc')
  rw [hmap, List.map_id]

theorem slashed_more {name path : List UInt8} {slash : UInt8} (h : ∀ c ∈ name, ¬ IsSlash c)
    (hslash : IsSlash slash) :
    slashed (name ++ slash :: path) = name ++ 0x2f :: slashed path := by
  have hs : (if slash = 0x5c then 0x2f else slash) = (0x2f : UInt8) := by
    rcases hslash with rfl | rfl <;> rfl
  have hname := slashed_name h
  unfold slashed at hname ⊢
  rw [List.map_append, hname, List.map_cons, hs]

theorem Joined.names_ne_nil {path : List UInt8} {names : List (List UInt8)} (h : Joined path names) :
    names ≠ [] := by
  cases h <;> exact List.cons_ne_nil _ _

/-- The first character is that of a name. -/
theorem Joined.head {path : List UInt8} {names : List (List UInt8)} (h : Joined path names) :
    ∃ c rest, path = c :: rest ∧ ¬ IsSlash c := by
  have hhead : ∀ {name : List UInt8}, name ≠ [] → (∀ c ∈ name, ¬ IsSlash c) → ∀ l : List UInt8,
      ∃ c rest, name ++ l = c :: rest ∧ ¬ IsSlash c := by
    intro name hne hname l
    obtain ⟨c, name, rfl⟩ := List.exists_cons_of_ne_nil hne
    exact ⟨c, name ++ l, rfl, hname c (List.mem_cons_self ..)⟩
  cases h with
  | last hne hname =>
    obtain ⟨c, rest, h, hc⟩ := hhead hne hname []
    exact ⟨c, rest, (List.append_nil _).symm.trans h, hc⟩
  | more hne hname _ _ => exact hhead hne hname _

theorem stripped_path {leading path : List UInt8} {names : List (List UInt8)}
    (hleading : ∀ c ∈ leading, IsSlash c) (h : Joined path names) :
    stripped (leading ++ path) = slashed path := by
  induction leading with
  | nil =>
    obtain ⟨c, rest, rfl, hc⟩ := h.head
    have hslashed : slashed (c :: rest) = c :: slashed rest := by
      unfold slashed
      rw [List.map_cons, if_neg fun h => hc (.inr h)]
    show (slashed (c :: rest)).dropWhile (· == 0x2f) = _
    rw [hslashed, List.dropWhile_cons_of_neg]
    rw [beq_iff_eq]
    exact fun h => hc (.inl h)
  | cons c leading ih =>
    have hs : (if c = 0x5c then 0x2f else c) = (0x2f : UInt8) := by
      rcases hleading c (List.mem_cons_self ..) with rfl | rfl <;> rfl
    rw [← ih fun c hc => hleading c (List.mem_cons_of_mem _ hc)]
    unfold stripped
    rw [List.cons_append, List.map_cons, hs]
    exact List.dropWhile_cons_of_pos rfl

/-! ## The search -/

theorem length_name_of_mem {clusterData : Nat → UInt8} {e : DirEntry}
    (h : e ∈ entriesOf clusterData) : e.name.length ≤ fatxFilenameMax := by
  obtain ⟨i, -, rfl⟩ := List.mem_map.1 h
  show (read _ _ _).length ≤ _
  rw [length_read]
  exact Nat.min_le_right _ _

theorem FirstEntry.length_eq {env : Env} {p : FATXPartition} {id : Int} {name : List UInt8}
    {e : DirEntry} (h : FirstEntry env p id name e) : name.length = e.name.length := by
  obtain ⟨es, -, he⟩ := h
  have hans : e.Answers name := of_decide_eq_true (List.find?_some he :)
  have hlen := congrArg List.length hans.2
  rw [List.length_map, List.length_map] at hlen
  exact hlen.symm

theorem FirstEntry.length_le {env : Env} {p : FATXPartition} {id : Int} {name : List UInt8}
    {e : DirEntry} (h : FirstEntry env p id name e) : name.length ≤ fatxFilenameMax := by
  rw [h.length_eq]
  obtain ⟨es, ⟨cs, -, -, rfl⟩, he⟩ := h
  obtain ⟨c, -, hc⟩ := List.mem_flatMap.1
    (List.takeWhile_subset _ (List.mem_of_find?_eq_some he))
  exact length_name_of_mem hc

theorem Resolves.first {env : Env} {p : FATXPartition} {id : Int} {name : List UInt8}
    {names : List (List UInt8)} {e : DirEntry} (h : Resolves env p id (name :: names) e) :
    ∃ d, FirstEntry env p id name d := by
  cases h with
  | file he _ => exact ⟨e, he⟩
  | directory hd _ _ => exact ⟨_, hd⟩

section
variable {env : Env} {p : FATXPartition} (hg : Geometry p) (hok : ∀ i, env.fails i = false)
  {root : Int} {filename name path : List UInt8} {names : List (List UInt8)}
  {rest : Option (List UInt8)} {w : Walk} {fileinfo : FATXFILEINFO}

/-- The search of the path ends with the file it leads to. -/
def Finds (env : Env) (p : FATXPartition) (names : List (List UInt8)) (v : Search) : Prop :=
  ∃ e u fileinfo' reads', Resolves env p v.walk.clusterId names e ∧ Comes (findTurn env p) v u ∧
    findTurn env p u = some (.done (true, fileinfo', reads')) ∧
    fileinfo'.clusterId = e.startCluster ∧ fileinfo'.fileSize = e.fileSize

/-- There is none, and `fileinfo` is what it was. -/
def FindsNone (env : Env) (p : FATXPartition) (names : List (List UInt8)) (v : Search) : Prop :=
  (∀ e, ¬ Resolves env p v.walk.clusterId names e) ∧ ∃ u reads', Comes (findTurn env p) v u ∧
    findTurn env p u = some (.done (false, v.fileinfo, reads'))

/-- A name that is too long is refused at once. -/
theorem findsNone_of_long (hlen : name.length > fatxFilenameMax)
    (hseek : seekName filename = none) : FindsNone env p (name :: names) ⟨filename, w, fileinfo⟩ := by
  refine ⟨fun e he => ?_, _, _, .refl, findTurn_refused hseek⟩
  obtain ⟨d, hd⟩ := he.first
  exact absurd hd.length_le (Nat.not_le.2 hlen)

include hg hok

/-- **One name.**  Without an entry that answers there is no file; with one the
search goes on as the loop over the entries says. -/
theorem search_name (htree : Tree env p root) (hw : InTree env p root w.clusterId)
    (hseek : seekName filename = some (name, rest)) :
    FindsNone env p (name :: names) ⟨filename, w, fileinfo⟩ ∨
    ∃ e w' w'', FirstEntry env p w.clusterId name e ∧
      (e.IsDirectory → InTree env p root (signed e.clusterId)) ∧
      Comes (findTurn env p) ⟨filename, w, fileinfo⟩ ⟨filename, w', fileinfo⟩ ∧
      findTurn env p ⟨filename, w', fileinfo⟩ =
        some (Search.go env ⟨filename, w', fileinfo⟩ rest w'' (foundScan rest.isSome e)) := by
  obtain ⟨es, hes, hproper⟩ := htree w.clusterId hw
  rcases search_directory hg hok hseek hes hproper fileinfo with
    ⟨hnone, v, reads', hcomes, hdone⟩ | ⟨e, w', w'', hfind, hcomes, hturn⟩
  · refine .inl ⟨fun e he => ?_, v, reads', hcomes, hdone⟩
    obtain ⟨d, es', hes', hd⟩ := he.first
    rw [← hes.unique hg hes', hnone] at hd
    cases hd
  · have hans : e.Answers name := of_decide_eq_true (List.find?_some hfind :)
    exact .inr ⟨e, w', w'', ⟨es, hes, hfind⟩,
      fun hdir => hw.sub hes (List.mem_of_find?_eq_some hfind) hans.1 hdir, hcomes, hturn⟩

/-- The last name of a path: an entry that is no directory. -/
theorem search_last (htree : Tree env p root) (hname : ∀ c ∈ name, ¬ IsSlash c)
    (hw : InTree env p root w.clusterId) :
    Finds env p [name] ⟨slashed name, w, fileinfo⟩ ∨
      FindsNone env p [name] ⟨slashed name, w, fileinfo⟩ := by
  rw [slashed_name hname]
  have hseek := seekName_last fun c hc hslash => hname c hc (.inl hslash)
  by_cases hlen : name.length > fatxFilenameMax
  · rw [if_pos hlen] at hseek
    exact .inr (findsNone_of_long hlen hseek)
  rw [if_neg hlen] at hseek
  rcases search_name hg hok htree hw hseek with hnone | ⟨e, w', w'', he, -, hcomes, hturn⟩
  · exact .inr hnone
  by_cases hdir : e.IsDirectory
  · refine .inr ⟨fun e' he' => ?_, _, w''.reads, hcomes, ?_⟩
    · cases he' with
      | file he' hfile => exact hfile (he.unique hg he' ▸ hdir)
      | directory _ _ hrest => exact not_resolves_nil hrest
    · rw [hturn]
      unfold foundScan
      rw [if_neg (by decide), if_neg fun h => h hdir]
      rfl
  · refine .inl ⟨e, _, fileinfo.setFile name (signed e.clusterId) e.fileSize, w''.reads,
      .file he hdir, hcomes, ?_, keptClusterId_congr he.length_eq _, rfl⟩
    rw [hturn]
    unfold foundScan
    rw [if_neg (by decide), if_pos hdir]
    rfl

/-- A name with more behind it: a directory, in which the search for the rest goes on. -/
theorem search_more (htree : Tree env p root) (hname : ∀ c ∈ name, ¬ IsSlash c) {slash : UInt8}
    (hslash : IsSlash slash) (hne : names ≠ [])
    (ih : ∀ {w : Walk}, InTree env p root w.clusterId →
      Finds env p names ⟨slashed path, w, fileinfo⟩ ∨ FindsNone env p names ⟨slashed path, w, fileinfo⟩)
    (hw : InTree env p root w.clusterId) :
    Finds env p (name :: names) ⟨slashed (name ++ slash :: path), w, fileinfo⟩ ∨
      FindsNone env p (name :: names) ⟨slashed (name ++ slash :: path), w, fileinfo⟩ := by
  rw [slashed_more hname hslash]
  have hseek := seekName_more (fun c hc hslash => hname c hc (.inl hslash)) (slashed path)
  by_cases hlen : name.length > fatxFilenameMax
  · rw [if_pos hlen] at hseek
    exact .inr (findsNone_of_long hlen hseek)
  rw [if_neg hlen] at hseek
  rcases search_name hg hok htree hw hseek with hnone | ⟨e, w', w'', he, hsub, hcomes, hturn⟩
  · exact .inr hnone
  unfold foundScan at hturn
  rw [Option.isSome_some, if_pos rfl] at hturn
  by_cases hdir : e.IsDirectory
  · rw [if_pos hdir] at hturn
    rcases ih (w := ⟨signed e.clusterId, env.stack w''.reads, w''.reads⟩) (hsub hdir) with
      ⟨e', u, fileinfo', reads', he', hu, hdone, hfile⟩ | ⟨hnone, u, reads', hu, hdone⟩
    · exact .inl ⟨e', u, fileinfo', reads', .directory he hdir he',
        (hcomes.tail hturn).trans hu, hdone, hfile⟩
    · refine .inr ⟨fun e' he' => ?_, u, reads', (hcomes.tail hturn).trans hu, hdone⟩
      cases he' with
      | file _ _ => exact hne rfl
      | directory hd _ he' => exact hnone e' (he.unique hg hd ▸ he')
  · rw [if_neg hdir] at hturn
    refine .inr ⟨fun e' he' => ?_, _, w''.reads, hcomes, hturn⟩
    cases he' with
    | file _ _ => exact hne rfl
    | directory hd hdir' _ => exact hdir (he.unique hg hd ▸ hdir')

/-- The induction is on the path; each name but the last leads into a directory. -/
theorem search_path (htree : Tree env p root) (h : Joined path names)
    (hw : InTree env p root w.clusterId) :
    Finds env p names ⟨slashed path, w, fileinfo⟩ ∨
      FindsNone env p names ⟨slashed path, w, fileinfo⟩ := by
  induction h generalizing w with
  | last _ hname => exact search_last hg hok htree hname hw
  | more _ hname hslash hrest ih =>
    exact search_more hg hok htree hname hslash hrest.names_ne_nil ih hw

end

/-! ## Top theorem -/

/-- The call returns true exactly when the path resolves to a file, then with its
cluster and size; otherwise the two fields are what they were. -/
def ResolvedAsSaid (env : Env) (p : FATXPartition) (root : Int) (filename : List UInt8)
    (names : List (List UInt8)) (fileinfo : FATXFILEINFO) (reads : Nat) : Prop :=
  ∃ ret fileinfo' reads',
    Fuel.Ends (fun fuel => fatxFindFile env p fuel filename root fileinfo reads)
      (some (ret, fileinfo', reads')) ∧
    (ret = true ↔ ∃ e, Resolves env p root names e) ∧
    (∀ e, Resolves env p root names e →
      fileinfo'.clusterId = signed e.clusterId ∧ fileinfo'.fileSize = e.fileSize) ∧
    (ret = false →
      fileinfo'.clusterId = fileinfo.clusterId ∧ fileinfo'.fileSize = fileinfo.fileSize)

section
variable {env : Env} {p : FATXPartition} {root : Int} {filename : List UInt8}
  {names : List (List UInt8)}

/-- What the call ends with, for a path that resolves and for one that does not. -/
theorem findFile_cases (hg : Geometry p) (hok : ∀ i, env.fails i = false) (htree : Tree env p root)
    (hpath : PathOf filename names) (fileinfo : FATXFILEINFO) (reads : Nat) :
    (∃ e fileinfo' reads', Resolves env p root names e ∧
      Fuel.Ends (fun fuel => fatxFindFile env p fuel filename root fileinfo reads)
        (some (true, fileinfo', reads')) ∧
      fileinfo'.clusterId = e.startCluster ∧ fileinfo'.fileSize = e.fileSize) ∨
    (∀ e, ¬ Resolves env p root names e) ∧ ∃ reads',
      Fuel.Ends (fun fuel => fatxFindFile env p fuel filename root fileinfo reads)
        (some (false, fileinfo, reads')) := by
  obtain ⟨leading, path, rfl, hleading, hjoined⟩ := hpath
  -- the call is the loop over directories from the root on
  have hcall : (fun fuel => fatxFindFile env p fuel (leading ++ path) root fileinfo reads) =
      fun fuel => loop (findTurn env p) fuel
        ⟨slashed path, .start env root reads, fileinfo⟩ := by
    funext fuel
    rw [← findLoop_eq, ← stripped_path hleading hjoined]
    rfl
  rw [hcall]
  have hsearch : Finds env p names ⟨slashed path, .start env root reads, fileinfo⟩ ∨
      FindsNone env p names ⟨slashed path, .start env root reads, fileinfo⟩ :=
    search_path hg hok htree hjoined .root
  rcases hsearch with
    ⟨e, u, fileinfo', reads', he, hu, hdone, hfile⟩ | ⟨hnone, u, reads', hu, hdone⟩
  · exact .inl ⟨e, fileinfo', reads', he, hu.ends hdone, hfile⟩
  · exact .inr ⟨hnone, reads', hu.ends hdone⟩

/-- A file whose cluster is not kept is not found as it should be. -/
theorem ResolvedAsSaid.kept (hg : Geometry p) (hok : ∀ i, env.fails i = false)
    (htree : Tree env p root) (hpath : PathOf filename names) {fileinfo : FATXFILEINFO}
    {reads : Nat} (h : ResolvedAsSaid env p root filename names fileinfo reads) {e : DirEntry}
    (he : Resolves env p root names e) : e.Kept := by
  obtain ⟨ret, fileinfo', reads', hends, -, hfile, -⟩ := h
  rcases findFile_cases hg hok htree hpath fileinfo reads with
    ⟨e', fileinfo'', reads'', he', hends', hid, -⟩ | ⟨hnone, -⟩
  · obtain rfl := he.unique hg he'
    cases hends.unique hends'
    rw [← DirEntry.startCluster_eq_iff, ← hid]
    exact (hfile e he).1
  · exact absurd he (hnone e)

end

/-- **Files by path.**  On a tree with proper names, where no read fails, the
call finds what the path resolves to, exactly when a file it resolves to has a
name of less than 42 characters or a cluster whose low byte is 0. -/
theorem resolvedAsSaid_iff (env : Env) (p : FATXPartition) (hp : Opened p)
    (hok : ∀ i, env.fails i = false) (root : Int) (htree : Tree env p root)
    (filename : List UInt8) (names : List (List UInt8)) (hpath : PathOf filename names)
    (fileinfo : FATXFILEINFO) (reads : Nat) :
    ResolvedAsSaid env p root filename names fileinfo reads ↔
      ∀ e, Resolves env p root names e → e.Kept := by
  have hg := hp.geometry
  refine ⟨fun h e he => h.kept hg hok htree hpath he, fun hkept => ?_⟩
  rcases findFile_cases hg hok htree hpath fileinfo reads with
    ⟨e, fileinfo', reads', he, hends, hid, hsize⟩ | ⟨hnone, reads', hends⟩
  · refine ⟨true, fileinfo', reads', hends, iff_of_true rfl ⟨e, he⟩, fun e' he' => ?_, nofun⟩
    obtain rfl := he.unique hg he'
    exact ⟨hid.trans (DirEntry.startCluster_eq_iff.2 (hkept e he)), hsize⟩
  · exact ⟨false, fileinfo, reads', hends, iff_of_false nofun fun ⟨e, he⟩ => hnone e he,
      fun e he => absurd he (hnone e), fun _ => ⟨rfl, rfl⟩⟩

/-- A root directory without directories in it. -/
theorem Tree.flat {env : Env} {p : FATXPartition} (hg : Geometry p) {root : Int}
    {es : List DirEntry} (hes : Directory env p root es)
    (h : ∀ e ∈ es, e.Proper ∧ ¬ e.IsDirectory) : Tree env p root := by
  intro clusterId hin
  obtain rfl : clusterId = root := by
    induction hin with
    | root => rfl
    | @sub _ es' e _ hes' he _ hdir ih =>
      subst ih
      rw [hes'.unique hg hes] at he
      exact absurd hdir (h e he).2
  exact ⟨es, hes, fun e he _ => (h e he).1⟩

theorem smallPartition_root : Chain smallPartition [1] := by
  have h1 : entry smallPartition 1 = 0xffff := by decide
  refine .last (by decide) (by decide) ?_
  rw [h1]
  exact .inl rfl

/-- One file, and behind it the end marker. -/
theorem smallDisk_listing :
    (listing (storedEntries (smallDisk fun _ => false) smallPartition [1])).map
      (fun e => (e.filenameSize, e.flags, e.name)) = [(1, 0, [0x61])] := by
  decide +kernel

/-- An entry with a size, flags and a name as in a listing. -/
theorem proper_of_listing {l : List DirEntry} {size flags : UInt8} {name : List UInt8}
    (h : l.map (fun e => (e.filenameSize, e.flags, e.name)) = [(size, flags, name)])
    (hsize : 0 < size.toNat ∧ size.toNat ≤ fatxFilenameMax)
    (hflags : flags &&& fatxFileAttrDirectory = 0) (hname : 0 ∉ name) :
    ∀ e ∈ l, e.Proper ∧ ¬ e.IsDirectory := by
  intro e he
  have hmem := List.mem_map_of_mem (f := fun e : DirEntry => (e.filenameSize, e.flags, e.name)) he
  rw [h, List.mem_singleton] at hmem
  simp only [Prod.mk.injEq] at hmem
  obtain ⟨rfl, rfl, rfl⟩ := hmem
  refine ⟨⟨?_, hname⟩, fun hdir => hdir hflags⟩
  unfold DirEntry.BadSize
  omega

theorem smallDisk_tree : Tree (smallDisk fun _ => false) smallPartition 1 :=
  .flat smallPartition_opened.geometry ⟨[1], smallPartition_root, rfl, rfl⟩
    (proper_of_listing smallDisk_listing (by decide) (by decide) (by decide))

/-- The file by the path `\\A`. -/
theorem resolvedAsSaid_iff_small :
    ResolvedAsSaid (smallDisk fun _ => false) smallPartition 1 [0x5c, 0x41] [[0x41]] smallFile 0 ↔
      ∀ e, Resolves (smallDisk fun _ => false) smallPartition 1 [[0x41]] e → e.Kept :=
  resolvedAsSaid_iff (smallDisk fun _ => false) smallPartition smallPartition_opened (fun _ => rfl)
    1 smallDisk_tree [0x5c, 0x41] [[0x41]]
    ⟨[0x5c], [0x41], rfl, by simp [IsSlash], .last (by decide) (by simp [IsSlash])⟩ smallFile 0

/-- A name of 42 characters. -/
def longName : List UInt8 := List.replicate 42 0x61

/-- The root directory is cluster 1. -/
def longTable : List UInt8 := [0xf8, 0xff, 0xff, 0xff, 0xff, 0xff, 0xff, 0xff]

/-- The entry of a file with that name, five bytes in cluster 3. -/
def longData (block : UInt32) : List UInt8 :=
  if block = 16 then [42, 0] ++ longName ++ [3, 0, 0, 0, 5, 0, 0, 0] else []

theorem longTable_root : Chain (partitionOf longTable) [1] := by
  have h1 : entry (partitionOf longTable) 1 = 0xffff := by decide
  refine .last (by decide) (by decide) ?_
  rw [h1]
  exact .inl rfl

theorem longData_directory : Directory (diskOf longTable longData) (partitionOf longTable) 1
    (listing (storedEntries (diskOf longTable longData) (partitionOf longTable) [1])) :=
  ⟨[1], longTable_root, rfl, rfl⟩

theorem longData_listing :
    (listing (storedEntries (diskOf longTable longData) (partitionOf longTable) [1])).map
      (fun e => (e.filenameSize, e.flags, e.name)) = [(42, 0, longName)] := by
  decide +kernel

theorem longData_find :
    ((listing (storedEntries (diskOf longTable longData) (partitionOf longTable) [1])).find?
      (·.Answers longName)).map (fun e => (e.flags, e.name, e.clusterId)) =
        some (0, longName, 3) := by
  decide +kernel

theorem longData_tree : Tree (diskOf longTable longData) (partitionOf longTable) 1 :=
  .flat (partitionOf_opened longTable).geometry longData_directory
    (proper_of_listing longData_listing (by decide) (by decide) (by decide))

theorem longName_path : PathOf longName [longName] :=
  ⟨[], longName, rfl, by simp, .last (by decide) (by simp [longName, IsSlash])⟩

/-- The name is found, with the cluster 0 in the place of 3. -/
theorem overwritten_clusterId :
    Tree (diskOf longTable longData) (partitionOf longTable) 1 ∧ PathOf longName [longName] ∧
      ¬ ResolvedAsSaid (diskOf longTable longData) (partitionOf longTable) 1 longName [longName]
        smallFile 0 := by
  refine ⟨longData_tree, longName_path, fun h => ?_⟩
  obtain ⟨e, he, hfields⟩ := Option.map_eq_some_iff.1 longData_find
  simp only [Prod.mk.injEq] at hfields
  obtain ⟨hflags, hname, hid⟩ := hfields
  have hfile : ¬ e.IsDirectory := by
    intro hdir
    unfold DirEntry.IsDirectory at hdir
    rw [hflags] at hdir
    exact hdir (by decide)
  have hkept := h.kept (partitionOf_opened longTable).geometry (fun _ => rfl) longData_tree
    longName_path (.file ⟨_, longData_directory, he⟩ hfile)
  unfold DirEntry.Kept at hkept
  rw [hname, hid] at hkept
  exact absurd (hkept (by decide)) (by decide)

end Gentoox.Fatx
