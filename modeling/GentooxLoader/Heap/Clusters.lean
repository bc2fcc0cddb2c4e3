import Mathlib.Data.List.Basic
import Mathlib.Data.Nat.Bitwise
import GentooxLoader.Base.Cells
import GentooxLoader.Base.Words
import GentooxLoader.Lib.Digest

/-!
# The cluster table: `t_malloc` and `t_free` (lib/misc/BootLibrary.c)

The heap is cut into 0x4000-byte clusters.  Cluster 0 holds the table: one byte
per cluster, 0 for a free one.  A block is recognised by what it writes there:

* up to 0x4000 bytes: one cluster, `AA`;
* up to 0x10000 bytes: four clusters, `FE DC BA B8`;
* up to 5 MiB: `needsectory` clusters, `BB CC FF … FF CC BB`.

The three arms of `t_malloc` are one rule (`tMalloc_eq`): the first run of
`clusters size` free clusters, marked with `marks size`.
-/

namespace Gentoox.Heap

open Lib (le32)

/-- The globals of the memory manager: the start address and the table there. -/
structure Manager where
  memoryManagerStartAddress : UInt32
  memsmall : Nat → UInt8

/-! ## Algorithm -/

/-- Difference of the first two bytes that differ, 0 when there are none. -/
def memcmp : List UInt8 → List UInt8 → Int
  | a :: cs, b :: ct => if a ≠ b then (a.toNat : Int) - b.toNat else memcmp cs ct
  | _, _ => 0

/-- `pvStartAddress` is where the heap is put, `mem` what was in memory there. -/
def memoryManagementInitialization (mem : Nat → UInt8) (pvStartAddress : UInt32) : Manager where
  memoryManagerStartAddress := pvStartAddress
  memsmall := Function.update (Cells.fill mem 0 0x0 0x4000) 0 0xff

/-- `for (counter=1;counter<0x400;counter++)`: the first counter that meets the test. -/
def search (test : Nat → Bool) : Option Nat := (List.range' 1 0x3ff).find? test

def needsectory (size : UInt32) : UInt32 := ((size &&& 0xffffc000) + 0x4000) / 0x4000

/-- `foundstart`: the clusters from `counter` on are free. -/
def foundstart (memsmall : Nat → UInt8) (counter needsectory : Nat) : Bool :=
  (List.range needsectory).all fun blockcount => memsmall (counter + blockcount) == 0

def Manager.address (m : Manager) (counter : Nat) : UInt32 :=
  m.memoryManagerStartAddress + counter.toUInt32 * 0x4000

/-- The returned pointer (0 for NULL) and the manager afterwards. -/
def tMalloc (m : Manager) (size : UInt32) : UInt32 × Manager :=
  if size < 0x4000 + 1 then
    match search fun counter => m.memsmall counter == 0 with
    | some counter =>
      (m.address counter, { m with memsmall := Function.update m.memsmall counter 0xAA })
    | none => (0, m)
  else if size < 0x10000 + 1 then
    match search fun counter => memcmp (Cells.read m.memsmall counter 4) (le32 0) == 0 with
    | some counter =>
      (m.address counter, { m with memsmall := Cells.write m.memsmall counter (le32 0xB8BADCFE) })
    | none => (0, m)
  else if size < 5 * 1024 * 1024 + 1 then
    let need := (needsectory size).toNat
    match search fun counter => foundstart m.memsmall counter need with
    | some counter =>
      let memsmall := Cells.fill m.memsmall counter 0xFF need
      let memsmall := Function.update memsmall counter 0xBB
      let memsmall := Function.update memsmall (counter + 1) 0xCC
      let memsmall := Function.update memsmall (counter + need - 2) 0xCC
      let memsmall := Function.update memsmall (counter + need - 1) 0xBB
      (m.address counter, { m with memsmall })
    | none => (0, m)
  else (0, m)

/-- The loop of `t_free` over a large block; the last argument is what is left
of the range up to 0x400. -/
def freeLarge (memsmall : Nat → UInt8) (counter : Nat) : Nat → (Nat → UInt8)
  | 0 => memsmall
  | left + 1 =>
    if memsmall counter = 0xCC ∧ memsmall (counter + 1) = 0xBB then
      Function.update (Function.update memsmall counter 0) (counter + 1) 0
    else freeLarge (Function.update memsmall counter 0) (counter + 1) left

def tFree (m : Manager) (ptr : UInt32) : Manager :=
  let temp := ptr - m.memoryManagerStartAddress
  if temp &&& 0xffffc000 = temp then
    let temp := (temp / 0x4000).toNat
    if m.memsmall temp = 0xAA then { m with memsmall := Function.update m.memsmall temp 0x0 }
    else if memcmp (Cells.read m.memsmall temp 4) (le32 0xB8BADCFE) = 0 then
      { m with memsmall := Cells.fill m.memsmall temp 0 4 }
    else if memcmp (Cells.read m.memsmall temp 4) (le32 0xFFFFCCBB) = 0 then
      { m with memsmall := freeLarge m.memsmall temp (0x400 - temp) }
    else m
  else m

/-! ## Sizes and marks -/

/-- How many clusters `t_malloc` takes for `size` bytes. -/
def clusters (size : UInt32) : Nat :=
  if size < 0x4000 + 1 then 1 else if size < 0x10000 + 1 then 4 else (needsectory size).toNat

/-- What it writes into the table for them. -/
def marks (size : UInt32) : List UInt8 :=
  if size < 0x4000 + 1 then [0xAA]
  else if size < 0x10000 + 1 then [0xFE, 0xDC, 0xBA, 0xB8]
  else 0xBB :: 0xCC :: List.replicate ((needsectory size).toNat - 4) 0xFF ++ [0xCC, 0xBB]

/-- The largest request `t_malloc` serves. -/
def maxSize : UInt32 := 5 * 1024 * 1024

theorem and_clusterMask (x : UInt32) : (x &&& 0xffffc000).toNat = x.toNat / 0x4000 * 0x4000 :=
  Words.and_mask x (k := 14) (by decide) rfl

theorem needsectory_toNat (size : UInt32) (h : size ≤ maxSize) :
    (needsectory size).toNat = size.toNat / 0x4000 + 1 := by
  have hs : size.toNat ≤ 0x500000 := h
  have hm := and_clusterMask size
  unfold needsectory
  rw [UInt32.toNat_div, UInt32.toNat_add, hm]
  show (size.toNat / 0x4000 * 0x4000 + 0x4000) % 2 ^ 32 / 0x4000 = _
  omega

theorem lt_small_iff (size : UInt32) : size < 0x4000 + 1 ↔ size.toNat ≤ 0x4000 := by
  rw [UInt32.lt_iff_toNat_lt]
  show size.toNat < 0x4001 ↔ _
  omega

theorem lt_medium_iff (size : UInt32) : size < 0x10000 + 1 ↔ size.toNat ≤ 0x10000 := by
  rw [UInt32.lt_iff_toNat_lt]
  show size.toNat < 0x10001 ↔ _
  omega

theorem lt_large_iff (size : UInt32) : size < 5 * 1024 * 1024 + 1 ↔ size ≤ maxSize := by
  rw [UInt32.lt_iff_toNat_lt, UInt32.le_iff_toNat_le]
  show size.toNat < 0x500001 ↔ size.toNat ≤ 0x500000
  omega

theorem clusters_pos (size : UInt32) (h : size ≤ maxSize) : 0 < clusters size := by
  unfold clusters
  split
  · omega
  · split
    · omega
    · rw [needsectory_toNat size h]; omega

theorem clusters_le (size : UInt32) (h : size ≤ maxSize) : clusters size ≤ 321 := by
  have hs : size.toNat ≤ 0x500000 := h
  unfold clusters
  split
  · omega
  · split
    · omega
    · rw [needsectory_toNat size h]; omega

/-- A block covers the bytes asked for. -/
theorem size_le_clusters (size : UInt32) (h : size ≤ maxSize) :
    size.toNat ≤ clusters size * 0x4000 := by
  unfold clusters
  split
  · next h1 => rw [lt_small_iff] at h1; omega
  · split
    · next h2 => rw [lt_medium_iff] at h2; omega
    · rw [needsectory_toNat size h]; omega

/-- A large block has at least five clusters. -/
theorem large_needsectory (size : UInt32) (h : size ≤ maxSize) (h2 : ¬ size < 0x10000 + 1) :
    5 ≤ (needsectory size).toNat := by
  rw [lt_medium_iff] at h2
  rw [needsectory_toNat size h]
  omega

theorem length_marks (size : UInt32) (h : size ≤ maxSize) : (marks size).length = clusters size := by
  unfold marks clusters
  split
  · rfl
  · split
    · rfl
    · next h2 =>
      have := large_needsectory size h h2
      simp
      omega

/-- Every mark is a nonzero byte. -/
theorem marks_ne_zero (size : UInt32) (b : UInt8) (hb : b ∈ marks size) : b ≠ 0 := by
  unfold marks at hb
  rintro rfl
  split at hb
  · simp at hb
  · split at hb <;> simp at hb

/-! ## The search -/

/-- The clusters `[c, c + n)` are free in the table `t`. -/
def FreeRun (t : Nat → UInt8) (c n : Nat) : Prop := ∀ i, i < n → t (c + i) = 0

instance (t : Nat → UInt8) (c n : Nat) : Decidable (FreeRun t c n) := by
  unfold FreeRun; infer_instance

theorem foundstart_iff (t : Nat → UInt8) (c n : Nat) : foundstart t c n = true ↔ FreeRun t c n := by
  simp [foundstart, FreeRun]

theorem memcmp_eq_zero_iff : ∀ (cs ct : List UInt8), cs.length = ct.length →
    (memcmp cs ct = 0 ↔ cs = ct)
  | [], [], _ => by simp [memcmp]
  | a :: cs, b :: ct, h => by
    have ih := memcmp_eq_zero_iff cs ct (by simpa using h)
    unfold memcmp
    by_cases hab : a = b
    · subst hab
      simp [ih]
    · have : a.toNat ≠ b.toNat := fun e => hab (UInt8.toNat_inj.1 e)
      rw [if_pos hab]
      simp only [List.cons.injEq, hab, false_and, iff_false]
      omega

theorem le32_zero : le32 0 = List.replicate 4 0 := by decide

theorem freeRun_iff_read (t : Nat → UInt8) (c n : Nat) :
    FreeRun t c n ↔ Cells.read t c n = List.replicate n 0 := by
  constructor
  · intro h
    apply List.ext_getElem (by simp)
    intro i h1 _
    rw [Cells.getElem_read, List.getElem_replicate]
    exact h i (by simpa using h1)
  · intro h i hi
    have := Cells.getElem?_read t c n i hi
    rw [h, List.getElem?_replicate, if_pos hi] at this
    exact (Option.some.inj this).symm

/-- The first run of `n` free clusters, seen from the clusters 1 to 0x3ff. -/
def firstFree (t : Nat → UInt8) (n : Nat) : Option Nat := search fun c => decide (FreeRun t c n)

theorem firstFree_eq_some (t : Nat → UInt8) (n c : Nat) : firstFree t n = some c ↔
    FreeRun t c n ∧ (1 ≤ c ∧ c < 0x400) ∧ ∀ c', 1 ≤ c' → c' < c → ¬ FreeRun t c' n := by
  simp [firstFree, search, List.find?_range'_eq_some]

theorem firstFree_eq_none (t : Nat → UInt8) (n : Nat) : firstFree t n = none ↔
    ∀ c, 1 ≤ c → c < 0x400 → ¬ FreeRun t c n := by
  unfold firstFree search
  rw [List.find?_range'_eq_none]
  simp

theorem search_congr {p q : Nat → Bool} (h : ∀ c, p c = q c) : search p = search q := by
  rw [show p = q from funext h]

/-- The three arms of the search are the search for a free run. -/
theorem search_small (t : Nat → UInt8) : (search fun c => t c == 0) = firstFree t 1 := by
  apply search_congr
  intro c
  rw [Bool.eq_iff_iff]
  simp [FreeRun]

theorem search_medium (t : Nat → UInt8) :
    (search fun c => memcmp (Cells.read t c 4) (le32 0) == 0) = firstFree t 4 := by
  apply search_congr
  intro c
  rw [Bool.eq_iff_iff, beq_iff_eq, memcmp_eq_zero_iff _ _ (by simp [le32]), le32_zero,
    decide_eq_true_iff, freeRun_iff_read]

theorem search_large (t : Nat → UInt8) (n : Nat) :
    (search fun c => foundstart t c n) = firstFree t n := by
  apply search_congr
  intro c
  rw [Bool.eq_iff_iff, foundstart_iff, decide_eq_true_iff]

/-- The five stores of a large block are one block of marks. -/
theorem large_stores (t : Nat → UInt8) (c n : Nat) (h : 5 ≤ n) :
    Function.update (Function.update (Function.update (Function.update
      (Cells.fill t c 0xFF n) c 0xBB) (c + 1) 0xCC) (c + n - 2) 0xCC) (c + n - 1) 0xBB =
      Cells.write t c (0xBB :: 0xCC :: List.replicate (n - 4) 0xFF ++ [0xCC, 0xBB]) := by
  obtain ⟨k, rfl⟩ : ∃ k, n = k + 5 := ⟨n - 5, by omega⟩
  funext i
  rw [List.cons_append, List.cons_append, Cells.write_cons, Cells.write_cons, Cells.write_append,
    Cells.write_cons, Cells.write_cons, Cells.write_nil, ← Cells.fill_eq_write]
  have e1 : c + (k + 5) - 2 = c + k + 3 := by omega
  have e2 : c + (k + 5) - 1 = c + k + 4 := by omega
  have e3 : c + 1 + 1 + (List.replicate (k + 5 - 4) (0xFF : UInt8)).length = c + k + 3 := by
    simp; omega
  rw [e1, e2, e3]
  simp only [Function.update_apply, Cells.fill]
  split_ifs <;> first | rfl | omega

/-- **One rule for the three arms.** -/
theorem tMalloc_eq (m : Manager) (size : UInt32) :
    tMalloc m size = if size ≤ maxSize then
      match firstFree m.memsmall (clusters size) with
      | some c => (m.address c, { m with memsmall := Cells.write m.memsmall c (marks size) })
      | none => (0, m)
    else (0, m) := by
  unfold tMalloc clusters marks
  by_cases h1 : size < 0x4000 + 1
  · have hmax : size ≤ maxSize := by
      rw [lt_small_iff] at h1
      exact UInt32.le_iff_toNat_le.2 (by show _ ≤ 0x500000; omega)
    rw [if_pos h1, if_pos hmax, if_pos h1, if_pos h1, search_small]
    cases firstFree m.memsmall 1 with
    | none => rfl
    | some c => simp [Cells.write_cons]
  · rw [if_neg h1, if_neg h1, if_neg h1]
    by_cases h2 : size < 0x10000 + 1
    · have hmax : size ≤ maxSize := by
        rw [lt_medium_iff] at h2
        exact UInt32.le_iff_toNat_le.2 (by show _ ≤ 0x500000; omega)
      rw [if_pos h2, if_pos hmax, if_pos h2, if_pos h2, search_medium]
      cases firstFree m.memsmall 4 <;> rfl
    · rw [if_neg h2, if_neg h2, if_neg h2]
      by_cases h3 : size ≤ maxSize
      · rw [if_pos ((lt_large_iff size).2 h3), if_pos h3]
        simp only [search_large]
        cases firstFree m.memsmall (needsectory size).toNat with
        | none => rfl
        | some c => simp only [large_stores _ _ _ (large_needsectory size h3 h2)]
      · rw [if_neg (fun h => h3 ((lt_large_iff size).1 h)), if_neg h3]

end Gentoox.Heap
