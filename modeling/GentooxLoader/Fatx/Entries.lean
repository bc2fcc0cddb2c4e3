import GentooxLoader.Base.Loops
import GentooxLoader.Fatx.Directory

/-!
# The entries of a cluster

The loops of `_FATXFindFile`, `FATXFindDir` and `FATXListDir` look at the bytes
of the cluster buffer entry by entry.  Here an entry is a value, a buffer has a
list of them, and each of the three loops goes over that list:

    scanDir_forEach       the loop of FATXFindDir and FATXListDir
    scanEntries_forEach   the loop of _FATXFindFile
    named_iff          the comparison of names
-/

namespace Gentoox.Fatx

open Cells Lib Loops

/-! ## Entries -/

/-- The name is that of a valid entry, 42 characters at most. -/
structure DirEntry where
  filenameSize : UInt8
  flags : UInt8
  name : List UInt8
  clusterId : UInt32
  fileSize : UInt32

def dirEntry (clusterData : Nat → UInt8) (curEntry : Nat) : DirEntry where
  filenameSize := clusterData curEntry
  flags := clusterData (curEntry + 1)
  name := read clusterData (curEntry + 2) (min (clusterData curEntry).toNat fatxFilenameMax)
  clusterId := u32At clusterData (curEntry + 0x2c)
  fileSize := u32At clusterData (curEntry + 0x30)

/-- `n` entries from entry `i` on. -/
def entriesFrom (clusterData : Nat → UInt8) (n i : Nat) : List DirEntry :=
  (List.range' i n).map fun i => dirEntry clusterData (i * fatxDirectoryEntrySize)

/-- The entries of a cluster. -/
def entriesOf (clusterData : Nat → UInt8) : List DirEntry := entriesFrom clusterData 256 0

namespace DirEntry

/-- The end of directory marker. -/
def IsEnd (e : DirEntry) : Prop := checkForLastDirectoryEntry e.filenameSize = true

def Deleted (e : DirEntry) : Prop := e.filenameSize = 0xE5

def BadSize (e : DirEntry) : Prop :=
  e.filenameSize.toNat < 1 ∨ e.filenameSize.toNat > fatxFilenameMax

/-- What is left: an entry with a name. -/
def Live (e : DirEntry) : Prop := ¬ e.IsEnd ∧ ¬ e.Deleted ∧ ¬ e.BadSize

def IsDirectory (e : DirEntry) : Prop := e.flags &&& fatxFileAttrDirectory ≠ 0

/-- `foundFilename` -/
def found (e : DirEntry) : List UInt8 := cstr e.name

/-- The comparison with the name looked for. -/
def Named (seek : List UInt8) (e : DirEntry) : Prop :=
  seek.length = e.found.length ∧ strncasecmp e.found seek seek.length = 0

instance (e : DirEntry) : Decidable e.IsEnd := inferInstanceAs (Decidable (_ = _))
instance (e : DirEntry) : Decidable e.Deleted := inferInstanceAs (Decidable (_ = _))
instance (e : DirEntry) : Decidable e.BadSize := inferInstanceAs (Decidable (_ ∨ _))
instance (e : DirEntry) : Decidable e.Live := inferInstanceAs (Decidable (_ ∧ _))
instance (e : DirEntry) : Decidable e.IsDirectory := inferInstanceAs (Decidable (¬ _))
instance (seek : List UInt8) (e : DirEntry) : Decidable (e.Named seek) :=
  inferInstanceAs (Decidable (_ ∧ _))

/-- Names are compared in lower case. -/
theorem named_iff {seek : List UInt8} {e : DirEntry} :
    e.Named seek ↔ e.found.map lower = seek.map lower := by
  unfold Named
  by_cases hlen : seek.length = e.found.length
  · rw [strncasecmp_eq_zero hlen.symm]
    exact and_iff_right hlen
  · refine iff_of_false (fun h => hlen h.1) fun h => hlen ?_
    have hl := congrArg List.length h
    rw [List.length_map, List.length_map] at hl
    exact hl.symm

theorem dirEntry_name {clusterData : Nat → UInt8} {curEntry : Nat}
    (h : ¬ (dirEntry clusterData curEntry).BadSize) : (dirEntry clusterData curEntry).name =
      read clusterData (curEntry + 2) (clusterData curEntry).toNat := by
  have hle : ¬ ((clusterData curEntry).toNat < 1 ∨
      (clusterData curEntry).toNat > fatxFilenameMax) := h
  show read _ _ (min _ _) = _
  rw [Nat.min_eq_left (by omega)]

end DirEntry

/-! ## FATXFindDir and FATXListDir -/

/-- An entry of the loop of the two; `visit` gets the live ones. -/
def dirBody {α : Type} (visit : α → DirEntry → Turn α α) (acc : α) (e : DirEntry) : Turn α α :=
  if e.IsEnd then .done acc
  else if e.Deleted then .next acc
  else if e.BadSize then .next acc
  else visit acc e

def findDirBody (dir : List UInt8) (ret : Option Int) (e : DirEntry) :
    Turn (Option Int) (Option Int) :=
  if e.Named dir then .done (some (if e.IsDirectory then signed e.clusterId else -1))
  else .next ret

def listDirBody (reslen : Nat) (path : List UInt8) (res : List (List UInt8)) (e : DirEntry) :
    Turn (List (List UInt8)) (List (List UInt8)) :=
  let res := res ++ [cstr (path ++ e.name)]
  if res.length ≥ reslen then .done res else .next res

section
variable {reslen : Nat} {path : List UInt8} {res : List (List UInt8)} {e : DirEntry}

theorem listDirBody_full (h : reslen ≤ res.length + 1) :
    listDirBody reslen path res e = .done (res ++ [cstr (path ++ e.name)]) := by
  refine if_pos ?_
  rw [List.length_append]
  exact h

theorem listDirBody_more (h : res.length + 1 < reslen) :
    listDirBody reslen path res e = .next (res ++ [cstr (path ++ e.name)]) := by
  refine if_neg ?_
  rw [List.length_append]
  exact Nat.not_le.2 h

end

def Listing.turn {α : Type} : Listing α → Turn α α
  | .more acc => .next acc
  | .done acc => .done acc

section
variable {α : Type} {visit : α → DirEntry → Turn α α} {e : DirEntry}

theorem dirBody_end (acc : α) (h : e.IsEnd) : dirBody visit acc e = .done acc := if_pos h

theorem dirBody_live (acc : α) (h : e.Live) : dirBody visit acc e = visit acc e := by
  unfold dirBody
  rw [if_neg h.1, if_neg h.2.1, if_neg h.2.2]

/-- Deleted entries and those with a bad size are passed over. -/
theorem dirBody_other (acc : α) (hend : ¬ e.IsEnd) (h : ¬ e.Live) :
    dirBody visit acc e = .next acc := by
  unfold dirBody
  rw [if_neg hend]
  split_ifs with hdel hbad
  · rfl
  · rfl
  · exact absurd ⟨hend, hdel, hbad⟩ h

end

theorem entriesFrom_succ (clusterData : Nat → UInt8) (n i : Nat) :
    entriesFrom clusterData (n + 1) i =
      dirEntry clusterData (i * fatxDirectoryEntrySize) :: entriesFrom clusterData n (i + 1) := rfl

/-- The loop over the entries, where `visit` looks at the entry only. -/
theorem scanDir_forEach {α : Type} {clusterData : Nat → UInt8} {visit : α → Nat → Listing α}
    {visitEntry : α → DirEntry → Turn α α}
    (hvisit : ∀ acc curEntry, ¬ (dirEntry clusterData curEntry).BadSize →
      (visit acc curEntry).turn = visitEntry acc (dirEntry clusterData curEntry)) :
    ∀ (n i : Nat) (acc : α), (scanDir clusterData visit n i acc).turn =
      forEach (dirBody visitEntry) (entriesFrom clusterData n i) acc := by
  intro n
  induction n with
  | zero => exact fun _ _ => rfl
  | succ n ih =>
    intro i acc
    rw [entriesFrom_succ, forEach_cons]
    unfold scanDir
    simp only
    generalize i * fatxDirectoryEntrySize = curEntry
    by_cases hend : (dirEntry clusterData curEntry).IsEnd
    · rw [dirBody_end acc hend, show checkForLastDirectoryEntry (clusterData curEntry) = true from hend]
      rfl
    by_cases hlive : (dirEntry clusterData curEntry).Live
    · rw [dirBody_live acc hlive, ← hvisit acc curEntry hlive.2.2]
      obtain ⟨hend', hdel, hbad⟩ : ¬ checkForLastDirectoryEntry (clusterData curEntry) = true ∧
        ¬ clusterData curEntry = 0xE5 ∧ ¬ ((clusterData curEntry).toNat < 1 ∨
          (clusterData curEntry).toNat > fatxFilenameMax) := hlive
      rw [if_neg hend', if_neg hdel, if_neg hbad]
      cases visit acc curEntry with
      | more acc' => exact ih _ _
      | done acc' => rfl
    · rw [dirBody_other acc hend hlive]
      have hend' : ¬ checkForLastDirectoryEntry (clusterData curEntry) = true := hend
      rw [if_neg hend']
      split_ifs with hdel hbad
      · exact ih _ _
      · exact ih _ _
      · exact absurd ⟨hend, hdel, hbad⟩ hlive

theorem visitForDir_turn (dir : List UInt8) {clusterData : Nat → UInt8} (ret : Option Int)
    (curEntry : Nat) (h : ¬ (dirEntry clusterData curEntry).BadSize) :
    (visitForDir dir clusterData ret curEntry).turn =
      findDirBody dir ret (dirEntry clusterData curEntry) := by
  unfold visitForDir findDirBody
  simp only [← DirEntry.dirEntry_name h]
  split_ifs <;> first | rfl | contradiction

theorem visitForList_turn (reslen : Nat) (path : List UInt8) {clusterData : Nat → UInt8}
    (res : List (List UInt8)) (curEntry : Nat) (h : ¬ (dirEntry clusterData curEntry).BadSize) :
    (visitForList reslen path clusterData res curEntry).turn =
      listDirBody reslen path res (dirEntry clusterData curEntry) := by
  unfold visitForList listDirBody
  simp only [← DirEntry.dirEntry_name h]
  split_ifs <;> rfl

/-! ## _FATXFindFile -/

/-- What the entry looked for gives. -/
def foundScan (lookForDirectory : Bool) (e : DirEntry) : Scan :=
  if lookForDirectory then
    if e.IsDirectory then .directory (signed e.clusterId) else .refused
  else if ¬ e.IsDirectory then .file (signed e.clusterId) e.fileSize else .refused

/-- An entry of the loop. -/
def fileBody (seekFilename : List UInt8) (lookForDirectory : Bool) (_ : Unit) (e : DirEntry) :
    Turn Unit Scan :=
  if e.IsEnd then .done .endOfDirectory
  else if e.Deleted then .next ()
  else if e.BadSize then .done .refused
  else if e.Named seekFilename then .done (foundScan lookForDirectory e)
  else .next ()

section
variable {seek : List UInt8} {lookForDirectory : Bool} {e : DirEntry}

theorem fileBody_end (h : e.IsEnd) :
    fileBody seek lookForDirectory () e = .done .endOfDirectory := if_pos h

theorem fileBody_deleted (hend : ¬ e.IsEnd) (h : e.Deleted) :
    fileBody seek lookForDirectory () e = .next () := by
  unfold fileBody
  rw [if_neg hend, if_pos h]

theorem fileBody_badSize (hend : ¬ e.IsEnd) (hdel : ¬ e.Deleted) (h : e.BadSize) :
    fileBody seek lookForDirectory () e = .done .refused := by
  unfold fileBody
  rw [if_neg hend, if_neg hdel, if_pos h]

theorem fileBody_other (hlive : e.Live) (h : ¬ e.Named seek) :
    fileBody seek lookForDirectory () e = .next () := by
  unfold fileBody
  rw [if_neg hlive.1, if_neg hlive.2.1, if_neg hlive.2.2, if_neg h]

theorem fileBody_named (hlive : e.Live) (h : e.Named seek) :
    fileBody seek lookForDirectory () e = .done (foundScan lookForDirectory e) := by
  unfold fileBody
  rw [if_neg hlive.1, if_neg hlive.2.1, if_neg hlive.2.2, if_pos h]

/-- The three kinds of entries that end the loop. -/
theorem fileBody_cases {u : Unit} {s : Scan} (h : fileBody seek lookForDirectory u e = .done s) :
    (e.IsEnd ∧ s = .endOfDirectory) ∨ (¬ e.IsEnd ∧ ¬ e.Deleted ∧ e.BadSize ∧ s = .refused) ∨
      (e.Live ∧ e.Named seek ∧ s = foundScan lookForDirectory e) := by
  unfold fileBody at h
  split_ifs at h with hend hdel hbad hnamed
  · cases h
    exact .inl ⟨hend, rfl⟩
  · cases h
    exact .inr (.inl ⟨hend, hdel, hbad, rfl⟩)
  · cases h
    exact .inr (.inr ⟨⟨hend, hdel, hbad⟩, hnamed, rfl⟩)

theorem foundScan_cases (lookForDirectory : Bool) (e : DirEntry) :
    (lookForDirectory = true ∧ e.IsDirectory ∧
        foundScan lookForDirectory e = .directory (signed e.clusterId)) ∨
      (lookForDirectory = false ∧ ¬ e.IsDirectory ∧
        foundScan lookForDirectory e = .file (signed e.clusterId) e.fileSize) ∨
      foundScan lookForDirectory e = .refused := by
  unfold foundScan
  cases lookForDirectory <;> by_cases hdir : e.IsDirectory <;> simp [hdir]

end

def scanOf : Turn Unit Scan → Scan
  | .done s => s
  | .next _ => .exhausted

theorem scanEntries_forEach (clusterData : Nat → UInt8) (seekFilename : List UInt8)
    (lookForDirectory : Bool) : ∀ n i : Nat,
    scanEntries clusterData seekFilename lookForDirectory n i =
      scanOf (forEach (fileBody seekFilename lookForDirectory) (entriesFrom clusterData n i) ()) := by
  intro n
  induction n with
  | zero => exact fun _ => rfl
  | succ n ih =>
    intro i
    rw [entriesFrom_succ, forEach_cons]
    unfold scanEntries
    simp only
    generalize i * fatxDirectoryEntrySize = curEntry
    by_cases hend : (dirEntry clusterData curEntry).IsEnd
    · rw [fileBody_end hend, show checkForLastDirectoryEntry (clusterData curEntry) = true from hend]
      rfl
    have hend' : ¬ checkForLastDirectoryEntry (clusterData curEntry) = true := hend
    rw [if_neg hend']
    by_cases hdel : (dirEntry clusterData curEntry).Deleted
    · have hdel' : clusterData curEntry = 0xE5 := hdel
      rw [fileBody_deleted hend hdel, if_pos hdel']
      exact ih _
    have hdel' : ¬ clusterData curEntry = 0xE5 := hdel
    rw [if_neg hdel']
    by_cases hbad : (dirEntry clusterData curEntry).BadSize
    · have hbad' : (clusterData curEntry).toNat < 1 ∨
        (clusterData curEntry).toNat > fatxFilenameMax := hbad
      rw [fileBody_badSize hend hdel hbad, if_pos hbad']
      rfl
    have hbad' : ¬ ((clusterData curEntry).toNat < 1 ∨
      (clusterData curEntry).toNat > fatxFilenameMax) := hbad
    rw [if_neg hbad', ← DirEntry.dirEntry_name hbad]
    by_cases hnamed : (dirEntry clusterData curEntry).Named seekFilename
    · rw [fileBody_named ⟨hend, hdel, hbad⟩ hnamed]
      unfold DirEntry.Named DirEntry.found at hnamed
      rw [if_pos hnamed]
      show _ = foundScan lookForDirectory (dirEntry clusterData curEntry)
      unfold foundScan
      split_ifs <;> first | rfl | contradiction
    · rw [fileBody_other ⟨hend, hdel, hbad⟩ hnamed]
      unfold DirEntry.Named DirEntry.found at hnamed
      rw [if_neg hnamed]
      exact ih _

end Gentoox.Fatx
