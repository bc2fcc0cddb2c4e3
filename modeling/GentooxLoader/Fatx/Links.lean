import GentooxLoader.Fatx.Termination

/-!
# The indexes of getNextClusterInChain

A turn that goes on to the next cluster of its chain looks the cluster it was
at up in the chain map.  Nothing stops it where that is no index of the table:

    chain_comes_iff, find_comes_iff  the variables a loop comes to
    sound_iff                        links in range ↔ clusters in range
    indexes_iff                      every index in range ↔ every start and every
                                     entry that is followed and left again is
    file_out_of_range                a file at cluster 5000, in a table of 2048
-/

namespace Gentoox.Fatx

open Cells Lib Loops

/-! ## The index of a turn -/

/-- What the turn of a loop along a chain calls `getNextClusterInChain` with. -/
def chainIndex {α ρ : Type} (env : Env) (p : FATXPartition)
    (body : α → (Nat → UInt8) → Turn α ρ) (v : Walk × α) : Option Int :=
  if v.1.clusterId = -1 then none
  else
    (loadFATXCluster env p v.1.clusterId v.1.clusterData v.1.reads).bind fun r =>
      match body v.2 r.1 with
      | .done _ => none
      | .next _ => some v.1.clusterId

/-- All entries have been looked at. -/
def Scan.exhausts : Scan → Bool
  | .exhausted => true
  | _ => false

/-- And a turn of the search. -/
def findIndex (env : Env) (p : FATXPartition) (v : Search) : Option Int :=
  (seekName v.filename).bind fun s =>
    if v.walk.clusterId = -1 then none
    else
      (loadFATXCluster env p v.walk.clusterId v.walk.clusterData v.walk.reads).bind fun r =>
        if (scanEntries r.1 s.1 s.2.isSome
          (p.clusterSize.toNat / fatxDirectoryEntrySize) 0).exhausts then some v.walk.clusterId
        else none

/-- An index of the entries loaded. -/
def InTable (p : FATXPartition) (clusterId : Int) : Prop := 1 ≤ clusterId ∧ clusterId < entries p

/-- Every index in a run of the loop is one of the table. -/
def ChainIndexesValid {α ρ : Type} (env : Env) (p : FATXPartition)
    (body : α → (Nat → UInt8) → Turn α ρ) (exit : α → ρ) (w : Walk) (acc : α) : Prop :=
  ∀ v i, Comes (chainTurn env p body exit) (w, acc) v → chainIndex env p body v = some i → InTable p i

def FindIndexesValid (env : Env) (p : FATXPartition) (v₀ : Search) : Prop :=
  ∀ v i, Comes (findTurn env p) v₀ v → findIndex env p v = some i → InTable p i

/-- In a call of `FATXLoadFromDisk`. -/
def LoadIndexesValid (env : Env) (p : FATXPartition) (fileinfo : FATXFILEINFO) (reads : Nat) : Prop :=
  ChainIndexesValid env p (loadBody p) (fun l => (decide (l.fileSize = 0), l.fileinfo))
    (.start env fileinfo.clusterId reads) ⟨fileinfo.fileSize, 0, { fileinfo with fileRead := 0 }⟩

/-- Of `FATXFindDir`. -/
def FindDirIndexesValid (env : Env) (p : FATXPartition) (clusterId : Int) (dir : List UInt8)
    (reads : Nat) : Prop :=
  ChainIndexesValid env p (scanBody p (visitForDir dir)) id (.start env clusterId reads) none

/-- Of `FATXListDir`. -/
def ListDirIndexesValid (env : Env) (p : FATXPartition) (clusterId : Int) (reslen : Nat)
    (path : List UInt8) (reads : Nat) : Prop :=
  ChainIndexesValid env p (scanBody p (visitForList reslen path)) id (.start env clusterId reads) []

/-- Of `FATXFindFile`. -/
def FindFileIndexesValid (env : Env) (p : FATXPartition) (filename : List UInt8) (clusterId : Int)
    (fileinfo : FATXFILEINFO) (reads : Nat) : Prop :=
  FindIndexesValid env p ⟨stripped filename, .start env clusterId reads, fileinfo⟩

/-! ## What a loop comes to -/

section
variable {env : Env} {p : FATXPartition} {α ρ : Type} (hg : Geometry p)

include hg

theorem chain_comes_iff {body : α → (Nat → UInt8) → Turn α ρ} {exit : α → ρ} {w : Walk} {acc : α}
    {v : Walk × α} : Comes (chainTurn env p body exit) (w, acc) v ↔
      ∃ n acc', v = (w.after env p n, acc') ∧ Long p w.clusterId n ∧
        forEach body (buffers env p n w) acc = .next acc' := by
  constructor
  · intro h
    induction h with
    | refl => exact ⟨0, acc, rfl, fun k hk => absurd hk (Nat.not_lt_zero k), rfl⟩
    | tail _ hstep ih =>
      obtain ⟨n, acc', rfl, hlong, hacc⟩ := ih
      by_cases hid : (w.after env p n).clusterId = -1
      · rw [chainTurn_exit hid] at hstep
        cases hstep
      cases hbody : body acc' ((w.after env p n).load env p).clusterData with
      | done r =>
        rw [chainTurn_done hg hid hbody] at hstep
        cases hstep
      | next acc'' =>
        rw [walks_chain hg body exit _ _ _ hid hbody] at hstep
        cases hstep
        rw [after_clusterId] at hid
        refine ⟨n + 1, acc'', by rw [after_succ], long_succ.2 ⟨hlong, hid⟩, ?_⟩
        rw [buffers_succ, forEach_append, hacc]
        show forEach body [_] acc' = _
        rw [forEach_cons, hbody]
        rfl
  · rintro ⟨n, acc', rfl, hlong, hacc⟩
    exact (walks_chain hg body exit).comes hlong hacc

theorem chainIndex_eq {body : α → (Nat → UInt8) → Turn α ρ} {w : Walk} {acc : α} {i : Int} :
    chainIndex env p body (w, acc) = some i ↔ w.clusterId ≠ -1 ∧ i = w.clusterId ∧
      ∃ acc', body acc (w.load env p).clusterData = .next acc' := by
  unfold chainIndex
  simp only
  rw [load_eq hg, Option.bind_some]
  by_cases hid : w.clusterId = -1
  · rw [if_pos hid]
    exact iff_of_false (by simp) fun h => h.1 hid
  rw [if_neg hid]
  cases hbody : body acc (w.load env p).clusterData with
  | done r => exact iff_of_false (by simp) fun ⟨_, _, _, h⟩ => by cases h
  | next acc' =>
    simp only
    constructor
    · rintro ⟨⟩
      exact ⟨hid, rfl, acc', rfl⟩
    · rintro ⟨-, rfl, -⟩
      rfl

/-- The indexes of a run: the clusters of the walk that the body lets pass. -/
theorem chainIndexesValid_iff (body : α → (Nat → UInt8) → Turn α ρ) (exit : α → ρ) (w : Walk)
    (acc : α) : ChainIndexesValid env p body exit w acc ↔
      ∀ n, Long p w.clusterId (n + 1) →
        (∃ acc', forEach body (buffers env p (n + 1) w) acc = .next acc') →
        InTable p ((link p)^[n] w.clusterId) := by
  have hone : ∀ n acc', forEach body (buffers env p n w) acc = .next acc' →
      ((∃ acc'', forEach body (buffers env p (n + 1) w) acc = .next acc'') ↔
        ∃ acc'', body acc' ((w.after env p n).load env p).clusterData = .next acc'') := by
    intro n acc' hacc
    rw [buffers_succ, forEach_append, hacc]
    show (∃ acc'', forEach body [_] acc' = .next acc'') ↔ _
    rw [forEach_cons]
    cases body acc' ((w.after env p n).load env p).clusterData with
    | done r => exact Iff.rfl
    | next acc'' => exact Iff.rfl
  constructor
  · rintro h n hlong ⟨acc'', hacc''⟩
    obtain ⟨acc', hacc⟩ : ∃ acc', forEach body (buffers env p n w) acc = .next acc' := by
      rw [buffers_succ] at hacc''
      exact forEach_prefix hacc''
    obtain ⟨hlong, hid⟩ := long_succ.1 hlong
    rw [← after_clusterId env p] at hid ⊢
    exact h _ _ ((chain_comes_iff hg).2 ⟨n, acc', rfl, hlong, hacc⟩)
      ((chainIndex_eq hg).2 ⟨hid, rfl, (hone n acc' hacc).1 ⟨acc'', hacc''⟩⟩)
  · rintro h v i hv hi
    obtain ⟨n, acc', rfl, hlong, hacc⟩ := (chain_comes_iff hg).1 hv
    obtain ⟨hid, rfl, hnext⟩ := (chainIndex_eq hg).1 hi
    rw [after_clusterId] at hid ⊢
    exact h n (long_succ.2 ⟨hlong, hid⟩) ((hone n acc' hacc).2 hnext)

/-! ## What the search comes to -/

/-- The first `n` clusters of the directory have nothing that stops the search. -/
def PassedBy (env : Env) (p : FATXPartition) (t : List UInt8 × Walk) (n : Nat) : Prop :=
  ∃ seek rest, seekName t.1 = some (seek, rest) ∧ Long p t.2.clusterId n ∧
    ∀ e ∈ seen env p n t.2, ¬ e.EndsFindFile seek

omit hg in
theorem passedBy_zero {t : List UInt8 × Walk} {found : List UInt8 × Option (List UInt8)}
    (hseek : seekName t.1 = some found) : PassedBy env p t 0 :=
  ⟨found.1, found.2, hseek, fun k hk => absurd hk (Nat.not_lt_zero k),
    fun _ he => absurd he List.not_mem_nil⟩

omit hg in
theorem passedBy_succ {t : List UInt8 × Walk} {seek : List UInt8} {rest : Option (List UInt8)}
    (hseek : seekName t.1 = some (seek, rest)) {n : Nat} : PassedBy env p t (n + 1) ↔
      PassedBy env p t n ∧ (link p)^[n] t.2.clusterId ≠ -1 ∧
        ∀ e ∈ entriesOf ((t.2.after env p n).load env p).clusterData, ¬ e.EndsFindFile seek := by
  have hone : ∀ n, PassedBy env p t n ↔ Long p t.2.clusterId n ∧
      ∀ e ∈ seen env p n t.2, ¬ e.EndsFindFile seek := by
    refine fun n => ⟨fun ⟨seek', rest', hseek', h⟩ => ?_, fun h => ⟨seek, rest, hseek, h⟩⟩
    rw [hseek] at hseek'
    cases hseek'
    exact h
  rw [hone, hone, long_succ, seen_succ, List.forall_mem_append]
  constructor
  · rintro ⟨⟨hlong, hid⟩, hpass, hlast⟩
    exact ⟨⟨hlong, hpass⟩, hid, hlast⟩
  · rintro ⟨⟨hlong, hpass⟩, hid, hlast⟩
    exact ⟨⟨hlong, hid⟩, hpass, hlast⟩

theorem find_comes_iff {s : List UInt8 × Walk} {fileinfo : FATXFILEINFO} {v : Search} :
    Comes (findTurn env p) ⟨s.1, s.2, fileinfo⟩ v ↔
      ∃ t n, Relation.ReflTransGen (Enters env p) s t ∧ v = ⟨t.1, t.2.after env p n, fileinfo⟩ ∧
        (n = 0 ∨ PassedBy env p t n) := by
  constructor
  · intro h
    induction h with
    | refl => exact ⟨s, 0, .refl, rfl, .inl rfl⟩
    | tail _ hstep ih =>
      obtain ⟨t, n, hst, rfl, hn⟩ := ih
      cases hseek : seekName t.1 with
      | none =>
        rw [findTurn_refused hseek] at hstep
        cases hstep
      | some found =>
        obtain ⟨seek, rest⟩ := found
        have hpassed : PassedBy env p t n := by
          rcases hn with rfl | h
          · exact passedBy_zero hseek
          · exact h
        obtain ⟨seek', rest', hseek', hpass⟩ := hpassed
        rw [hseek] at hseek'
        cases hseek'
        by_cases hid : (t.2.after env p n).clusterId = -1
        · rw [findTurn_exit hid] at hstep
          cases hstep
        have hlong : Long p t.2.clusterId (n + 1) :=
          long_succ.2 ⟨hpass.1, by rw [← after_clusterId env p]; exact hid⟩
        cases hscan : fileWalk seek rest.isSome () ((t.2.after env p n).load env p).clusterData with
        | done scan =>
          rcases stopped_cases hg hseek hlong hpass.2 hscan fileinfo with ⟨r, hr⟩ | ⟨t', ht, hturn⟩
          · rw [hr] at hstep
            cases hstep
          · rw [hturn] at hstep
            cases hstep
            exact ⟨t', 0, hst.tail ht, rfl, .inl rfl⟩
        | next u =>
          rw [walks_find hg hseek fileinfo _ () u hid hscan] at hstep
          cases hstep
          rw [after_clusterId] at hid
          exact ⟨t, n + 1, hst, by rw [after_succ], .inr ((passedBy_succ hseek).2
            ⟨⟨seek, rest, hseek, hpass⟩, hid,
              (endsAt_findFile seek rest.isSome).passes_iff.1 ⟨u, hscan⟩⟩)⟩
  · rintro ⟨t, n, hst, rfl, rfl | ⟨seek, rest, hseek, hlong, hpass⟩⟩
    · exact comes_of_enters hg hst fileinfo
    · exact (comes_of_enters hg hst fileinfo).trans
        (findLoop_comes hg hseek hlong ((endsAt_findFile seek rest.isSome).passes hpass ()))

omit hg in
theorem exhausts_iff (seek : List UInt8) (b : Bool) (clusterData : Nat → UInt8) :
    (scanOf (fileWalk seek b () clusterData)).exhausts = true ↔
      ∀ e ∈ entriesOf clusterData, ¬ e.EndsFindFile seek := by
  have hpass : (∃ u, fileWalk seek b () clusterData = .next u) ↔ _ :=
    (endsAt_findFile seek b).passes_iff
  rw [← hpass]
  unfold fileWalk
  cases hscan : forEach (fileBody seek b) (entriesOf clusterData) () with
  | next u => exact iff_of_true rfl ⟨u, rfl⟩
  | done scan =>
    refine iff_of_false ?_ fun ⟨_, h⟩ => by cases h
    obtain ⟨before, e, after, -, -, -, he⟩ := (endsAt_findFile seek b).of_done hscan
    rcases fileBody_cases he with ⟨-, rfl⟩ | ⟨-, -, -, rfl⟩ | ⟨-, -, rfl⟩
    · exact Bool.false_ne_true
    · exact Bool.false_ne_true
    · show ¬ (foundScan b e).exhausts = true
      rcases foundScan_cases b e with ⟨-, -, h⟩ | ⟨-, -, h⟩ | h <;> rw [h] <;>
        exact Bool.false_ne_true

/-- A turn behind `n` clusters has an index where the next one is passed by as well. -/
theorem findIndex_eq {t : List UInt8 × Walk} {fileinfo : FATXFILEINFO} {n : Nat} {i : Int}
    (hn : n = 0 ∨ PassedBy env p t n) :
    findIndex env p ⟨t.1, t.2.after env p n, fileinfo⟩ = some i ↔
      PassedBy env p t (n + 1) ∧ i = (link p)^[n] t.2.clusterId := by
  rw [← after_clusterId env p]
  unfold findIndex
  cases hseek : seekName t.1 with
  | none =>
    refine iff_of_false (by simp) ?_
    rintro ⟨⟨seek, rest, h, -⟩, -⟩
    rw [hseek] at h
    cases h
  | some found =>
    obtain ⟨seek, rest⟩ := found
    simp only [Option.bind_some, load_eq hg, entries_of_cluster hg, scanEntries_forEach]
    have hpassed : PassedBy env p t (n + 1) ↔ (t.2.after env p n).clusterId ≠ -1 ∧
        ∀ e ∈ entriesOf ((t.2.after env p n).load env p).clusterData, ¬ e.EndsFindFile seek := by
      rw [passedBy_succ hseek, after_clusterId]
      refine and_iff_right ?_
      rcases hn with rfl | h
      · exact passedBy_zero hseek
      · exact h
    rw [hpassed]
    by_cases hid : (t.2.after env p n).clusterId = -1
    · rw [if_pos hid]
      exact iff_of_false (by simp) fun h => h.1.1 hid
    rw [if_neg hid, ← exhausts_iff seek rest.isSome]
    show (if (scanOf (fileWalk seek rest.isSome () _)).exhausts = true then _ else _) = _ ↔ _
    split_ifs with hex
    · exact ⟨fun h => ⟨⟨hid, hex⟩, (Option.some.inj h).symm⟩, fun h => congrArg some h.2.symm⟩
    · exact iff_of_false (by simp) fun h => hex h.1.2

theorem findIndexesValid_iff (s : List UInt8 × Walk) (fileinfo : FATXFILEINFO) :
    FindIndexesValid env p ⟨s.1, s.2, fileinfo⟩ ↔
      ∀ t, Relation.ReflTransGen (Enters env p) s t → ∀ n, PassedBy env p t (n + 1) →
        InTable p ((link p)^[n] t.2.clusterId) := by
  constructor
  · rintro h t hst n hn
    obtain ⟨seek, rest, hseek, hpass⟩ := hn
    have hn' := ((passedBy_succ hseek).1 ⟨seek, rest, hseek, hpass⟩).1
    exact h _ _ ((find_comes_iff hg).2 ⟨t, n, hst, rfl, .inr hn'⟩)
      ((findIndex_eq hg (.inr hn')).2 ⟨⟨seek, rest, hseek, hpass⟩, rfl⟩)
  · intro h v i hv hi
    obtain ⟨t, n, hst, rfl, hn⟩ := (find_comes_iff hg).1 hv
    obtain ⟨hpassed, rfl⟩ := (findIndex_eq hg hn).1 hi
    exact h t hst n hpassed

/-! ## Links in range -/

/-- Of `n` clusters that are left by a link, the first is in the table, and so are
the entries that lead to the others. -/
def Sound (p : FATXPartition) (clusterId : Int) (n : Nat) : Prop :=
  (0 < n → InTable p clusterId) ∧ ∀ k, k + 1 < n →
    1 ≤ (entry p ((link p)^[k] clusterId)).toNat ∧
      (entry p ((link p)^[k] clusterId)).toNat < entries p

theorem inTable_link {c : Int} (h : link p c ≠ -1) :
    InTable p (link p c) ↔ 1 ≤ (entry p c).toNat ∧ (entry p c).toNat < entries p := by
  have hlt := entries_lt hg
  have hx := (entry p c).toNat_lt
  have hlink : link p c = signed (entry p c) := by
    unfold link at h ⊢
    by_cases hm : IsMarker p (entry p c)
    · rw [(getNextClusterInChain_eq hg c).1 hm] at h
      exact absurd rfl h
    · rw [(getNextClusterInChain_eq hg c).2 hm]
  rw [hlink]
  unfold InTable signed
  split <;> omega

theorem sound_iff {clusterId : Int} {n : Nat} (hlong : Long p clusterId n) :
    Sound p clusterId n ↔ ∀ k, k < n → InTable p ((link p)^[k] clusterId) := by
  have hstep : ∀ k, k + 1 < n → (InTable p ((link p)^[k + 1] clusterId) ↔
      1 ≤ (entry p ((link p)^[k] clusterId)).toNat ∧
        (entry p ((link p)^[k] clusterId)).toNat < entries p) := by
    intro k hk
    have hne := hlong (k + 1) hk
    rw [Function.iterate_succ_apply'] at hne ⊢
    exact inTable_link hg hne
  constructor
  · rintro ⟨hstart, hlinks⟩ k hk
    cases k with
    | zero => exact hstart hk
    | succ k => exact (hstep k hk).2 (hlinks k hk)
  · exact fun h => ⟨fun hn => h 0 hn, fun k hk => (hstep k hk).1 (h (k + 1) hk)⟩

/-- What holds of each part of a walk is asked of the last cluster of each part. -/
theorem sound_of_last {clusterId : Int} {P : Nat → Prop} (hlong : ∀ n, P n → Long p clusterId n)
    (hP : ∀ n k, P n → k ≤ n → P k) :
    (∀ n, P (n + 1) → InTable p ((link p)^[n] clusterId)) ↔ ∀ n, P n → Sound p clusterId n := by
  constructor
  · exact fun h n hn => (sound_iff hg (hlong n hn)).2 fun k hk => h k (hP n (k + 1) hn hk)
  · exact fun h n hn => (sound_iff hg (hlong _ hn)).1 (h _ hn) n (Nat.lt_succ_self n)

theorem loadIndexesValid_iff (fileinfo : FATXFILEINFO) (reads : Nat) :
    LoadIndexesValid env p fileinfo reads ↔
      ∀ n, Long p fileinfo.clusterId n → Sound p fileinfo.clusterId n := by
  rw [← sound_of_last hg (fun _ h => h) fun n k h hk i hi => h i (by omega)]
  refine (chainIndexesValid_iff hg _ _ _ _).trans (forall_congr' fun n => ?_)
  exact forall_congr' fun _ => ⟨fun h => h (forEach_loadBody _ _), fun h _ => h⟩

theorem dirIndexesValid_iff {visit : (Nat → UInt8) → α → Nat → Listing α}
    {visitEntry : α → DirEntry → Turn α α}
    (hvisit : ∀ clusterData acc curEntry, ¬ (dirEntry clusterData curEntry).BadSize →
      (visit clusterData acc curEntry).turn = visitEntry acc (dirEntry clusterData curEntry))
    (w : Walk) (acc : α) : ChainIndexesValid env p (scanBody p visit) id w acc ↔
      ∀ n, (Long p w.clusterId n ∧
        ∃ acc', forEach (dirBody visitEntry) (seen env p n w) acc = .next acc') →
        Sound p w.clusterId n := by
  rw [scanBody_eq hvisit hg, chainIndexesValid_iff hg, ← sound_of_last hg (fun _ h => h.1)]
  · simp only [forEach_dirWalk, and_imp]
  · rintro n k ⟨hlong, acc', hacc⟩ hk
    obtain ⟨l, hl⟩ := seen_prefix env p w hk
    rw [hl] at hacc
    exact ⟨long_le hlong hk, forEach_prefix hacc⟩

end

/-! ## Top theorem -/

/-- **Indexes of the chain map.**  In a call every index is one of the table
exactly when, of the clusters that the call leaves by a link, the first of each
chain is in the table, and so are the entries that lead from one to the next. -/
theorem indexes_iff (env : Env) (p : FATXPartition) (hp : Opened p) (reads : Nat) :
    (∀ fileinfo, LoadIndexesValid env p fileinfo reads ↔
      ∀ n, Long p fileinfo.clusterId n → Sound p fileinfo.clusterId n) ∧
    (∀ clusterId dir, FindDirIndexesValid env p clusterId dir reads ↔
      ∀ n, (Long p clusterId n ∧
        ∀ e ∈ seen env p n (.start env clusterId reads), ¬ e.EndsFindDir dir) →
        Sound p clusterId n) ∧
    (∀ clusterId reslen path, ListDirIndexesValid env p clusterId reslen path reads ↔
      ∀ n, (Long p clusterId n ∧
        (∀ e ∈ seen env p n (.start env clusterId reads), ¬ e.IsEnd) ∧
        ((seen env p n (.start env clusterId reads)).countP (·.Live) = 0 ∨
          (seen env p n (.start env clusterId reads)).countP (·.Live) < reslen)) →
        Sound p clusterId n) ∧
    ∀ filename clusterId fileinfo, FindFileIndexesValid env p filename clusterId fileinfo reads ↔
      ∀ t, Relation.ReflTransGen (Enters env p)
          (stripped filename, .start env clusterId reads) t →
        ∀ n, PassedBy env p t n → Sound p t.2.clusterId n := by
  have hg := hp.geometry
  refine ⟨fun fileinfo => loadIndexesValid_iff hg fileinfo reads, fun clusterId dir => ?_,
    fun clusterId reslen path => ?_, fun filename clusterId fileinfo => ?_⟩
  · refine (dirIndexesValid_iff hg (fun _ acc curEntry => visitForDir_turn dir acc curEntry)
      _ _).trans ?_
    simp only [(endsAt_findDir dir).passes_iff]
    rfl
  · refine (dirIndexesValid_iff hg (fun _ acc curEntry => visitForList_turn reslen path acc curEntry)
      _ _).trans ?_
    simp only [listDir_passes_iff, List.length_nil, Nat.zero_add]
    rfl
  · refine (findIndexesValid_iff hg (_, _) fileinfo).trans (forall_congr' fun t =>
      forall_congr' fun _ => sound_of_last hg (fun n h => h.choose_spec.choose_spec.2.1) ?_)
    rintro n k ⟨seek, rest, hseek, hlong, hpass⟩ hk
    obtain ⟨l, hl⟩ := seen_prefix env p t.2 hk
    rw [hl] at hpass
    exact ⟨seek, rest, hseek, long_le hlong hk, fun e he => hpass e (List.mem_append_left l he)⟩

/-- A chain that ends at once, and a file that starts with cluster 5000. -/
theorem indexes_iff_of_5000 :
    LoadIndexesValid (diskOf cyclicTable fun _ => []) (partitionOf cyclicTable)
        ⟨[], 5000, 1, 0, fun _ => 0⟩ 0 ↔
      ∀ n, Long (partitionOf cyclicTable) 5000 n → Sound (partitionOf cyclicTable) 5000 n :=
  (indexes_iff _ _ (partitionOf_opened cyclicTable) 0).1 ⟨[], 5000, 1, 0, fun _ => 0⟩

/-- The table has 2048 entries. -/
theorem file_out_of_range : ¬ LoadIndexesValid (diskOf cyclicTable fun _ => [])
    (partitionOf cyclicTable) ⟨[], 5000, 1, 0, fun _ => 0⟩ 0 := by
  rw [loadIndexesValid_iff (partitionOf_opened cyclicTable).geometry]
  intro h
  have hlong : Long (partitionOf cyclicTable) 5000 1 := by
    intro k hk
    rw [Nat.lt_one_iff.1 hk]
    decide
  have hstart := (h 1 hlong).1 Nat.one_pos
  have hentries : entries (partitionOf cyclicTable) = 2048 := by decide
  unfold InTable at hstart
  rw [hentries] at hstart
  exact absurd hstart.2 (by decide)

end Gentoox.Fatx
