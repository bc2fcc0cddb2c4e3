import GentooxLoader.Heap.Clusters

/-!
# One block: what `t_free` clears

`tFree_marked`: given the address of a block whose marks are in the table,
`t_free` clears `cleared c size` bytes from the block's first cluster `c` on.
That is the whole block, except that

* a block of five clusters has the marks `BB CC FF CC BB`, which the test for
  `BB CC FF FF` misses: nothing is cleared;
* the scan for the end mark stops at 0x400.
-/

namespace Gentoox.Heap

open Lib (le32)

/-- The table holds the marks of a block of `size` bytes at cluster `c`. -/
def Marked (t : Nat → UInt8) (c : Nat) (size : UInt32) : Prop :=
  Cells.read t c (clusters size) = marks size

/-- How many bytes of the table `t_free` clears for such a block. -/
def cleared (c : Nat) (size : UInt32) : Nat :=
  if size < 0x10000 + 1 then clusters size
  else if clusters size = 5 then 0
  else if c + clusters size ≤ 0x401 then clusters size else 0x400 - c

/-! ## Addresses -/

theorem mul_clusterSize_toNat (c : Nat) (h : c < 0x400) :
    (c.toUInt32 * 0x4000).toNat = c * 0x4000 := by
  rw [UInt32.toNat_mul]
  show c % 2 ^ 32 * 0x4000 % 2 ^ 32 = _
  omega

theorem address_sub (m : Manager) (c : Nat) :
    m.address c - m.memoryManagerStartAddress = c.toUInt32 * 0x4000 := by
  unfold Manager.address
  rw [UInt32.add_comm, UInt32.add_sub_cancel]

theorem address_aligned (c : Nat) (h : c < 0x400) :
    (c.toUInt32 * 0x4000) &&& 0xffffc000 = c.toUInt32 * 0x4000 := by
  apply UInt32.toNat_inj.1
  rw [and_clusterMask, mul_clusterSize_toNat c h]
  omega

theorem address_cluster (c : Nat) (h : c < 0x400) : (c.toUInt32 * 0x4000 / 0x4000).toNat = c := by
  rw [UInt32.toNat_div, mul_clusterSize_toNat c h]
  show c * 0x4000 / 0x4000 = c
  omega

/-- `t_free` on the address of cluster `c`. -/
theorem tFree_address (m : Manager) (c : Nat) (h : c < 0x400) : tFree m (m.address c) =
    if m.memsmall c = 0xAA then { m with memsmall := Function.update m.memsmall c 0x0 }
    else if memcmp (Cells.read m.memsmall c 4) (le32 0xB8BADCFE) = 0 then
      { m with memsmall := Cells.fill m.memsmall c 0 4 }
    else if memcmp (Cells.read m.memsmall c 4) (le32 0xFFFFCCBB) = 0 then
      { m with memsmall := freeLarge m.memsmall c (0x400 - c) }
    else m := by
  unfold tFree
  simp only [address_sub, if_pos (address_aligned c h), address_cluster c h]

/-! ## The loop over a large block -/

/-- The two bytes the loop of `t_free` stops at. -/
def EndMark (t : Nat → UInt8) (i : Nat) : Prop := t i = 0xCC ∧ t (i + 1) = 0xBB

theorem endMark_update (t : Nat → UInt8) (c i : Nat) (h : c < i) :
    EndMark (Function.update t c 0) i ↔ EndMark t i := by
  unfold EndMark
  rw [Function.update_of_ne (by omega), Function.update_of_ne (by omega)]

/-- The end mark is met after `k` clusters. -/
theorem freeLarge_of_endMark (k : Nat) : ∀ (t : Nat → UInt8) (c left : Nat), k < left →
    (∀ j, j < k → ¬ EndMark t (c + j)) → EndMark t (c + k) →
    freeLarge t c left = Cells.fill t c 0 (k + 2) := by
  induction k with
  | zero =>
    intro t c left hk _ hend
    obtain ⟨left, rfl⟩ : ∃ l, left = l + 1 := ⟨left - 1, by omega⟩
    have h0 : t c = 0xCC ∧ t (c + 1) = 0xBB := hend
    unfold freeLarge
    rw [if_pos h0, Cells.fill_succ, Cells.fill_succ, Cells.fill_zero]
  | succ k ih =>
    intro t c left hk hne hend
    obtain ⟨left, rfl⟩ : ∃ l, left = l + 1 := ⟨left - 1, by omega⟩
    have h0 : ¬ (t c = 0xCC ∧ t (c + 1) = 0xBB) := hne 0 (by omega)
    unfold freeLarge
    rw [if_neg h0, Cells.fill_succ]
    apply ih _ _ _ (by omega)
    · intro j hj
      rw [endMark_update _ _ _ (by omega)]
      have := hne (j + 1) (by omega)
      rwa [show c + 1 + j = c + (j + 1) by omega]
    · rw [endMark_update _ _ _ (by omega)]
      rwa [show c + 1 + k = c + (k + 1) by omega]

/-- The end mark is not met below 0x400. -/
theorem freeLarge_of_no_endMark (left : Nat) : ∀ (t : Nat → UInt8) (c : Nat),
    (∀ j, j < left → ¬ EndMark t (c + j)) → freeLarge t c left = Cells.fill t c 0 left := by
  induction left with
  | zero => intro t c _; simp [freeLarge]
  | succ left ih =>
    intro t c hne
    have h0 : ¬ (t c = 0xCC ∧ t (c + 1) = 0xBB) := hne 0 (by omega)
    unfold freeLarge
    rw [if_neg h0, Cells.fill_succ]
    apply ih
    intro j hj
    rw [endMark_update _ _ _ (by omega)]
    have := hne (j + 1) (by omega)
    rwa [show c + 1 + j = c + (j + 1) by omega]

/-! ## The marks of a large block -/

section
variable {t : Nat → UInt8} {c : Nat} {size : UInt32} (hs : size ≤ maxSize)
  (h1 : ¬ size < 0x4000 + 1) (h2 : ¬ size < 0x10000 + 1) (hm : Marked t c size)

include h1 h2

theorem clusters_large : clusters size = (needsectory size).toNat := by
  unfold clusters
  rw [if_neg h1, if_neg h2]

include hs

theorem five_le_clusters : 5 ≤ clusters size := by
  rw [clusters_large h1 h2]
  exact large_needsectory size hs h2

include hm

/-- The byte of a large block at each of its clusters. -/
theorem marked_large (i : Nat) (hi : i < clusters size) :
    t (c + i) = if i = 0 ∨ i = clusters size - 1 then 0xBB
      else if i = 1 ∨ i = clusters size - 2 then 0xCC else 0xFF := by
  have h5 := five_le_clusters hs h1 h2
  have hn := clusters_large h1 h2
  have hget := Cells.getElem?_read t c (clusters size) i hi
  unfold Marked at hm
  rw [hm] at hget
  unfold marks at hget
  rw [if_neg h1, if_neg h2, ← hn] at hget
  generalize clusters size = n at *
  obtain ⟨k, rfl⟩ : ∃ k, n = k + 5 := ⟨n - 5, by omega⟩
  rcases i with _ | _ | i
  · simpa using hget.symm
  · simpa using hget.symm
  · simp only [List.cons_append, List.getElem?_cons_succ, List.getElem?_append,
      List.length_replicate, show k + 5 - 4 = k + 1 by omega] at hget
    by_cases h : i < k + 1
    · rw [if_pos h, List.getElem?_replicate, if_pos h] at hget
      rw [← Option.some.inj hget, if_neg (by omega), if_neg (by omega)]
    · rw [if_neg h] at hget
      have hi' : i = k + 1 ∨ i = k + 2 := by omega
      rcases hi' with rfl | rfl
      · rw [if_neg (by omega), if_pos (by omega)]
        simpa using hget.symm
      · rw [if_pos (by omega)]
        simpa using hget.symm

theorem endMark_large (i : Nat) (hi : i + 1 < clusters size) :
    EndMark t (c + i) ↔ i = clusters size - 2 := by
  have h5 := five_le_clusters hs h1 h2
  unfold EndMark
  rw [marked_large hs h1 h2 hm i (by omega), show c + i + 1 = c + (i + 1) by omega,
    marked_large hs h1 h2 hm (i + 1) hi]
  constructor
  · rintro ⟨-, hbb⟩
    by_contra hne
    rw [if_neg (by omega)] at hbb
    split_ifs at hbb <;> cases hbb
  · rintro rfl
    exact ⟨by rw [if_neg (by omega), if_pos (by omega)], by rw [if_pos (by omega)]⟩

end

/-! ## Freeing a block -/

theorem read_four (t : Nat → UInt8) (c : Nat) :
    Cells.read t c 4 = [t c, t (c + 1), t (c + 2), t (c + 3)] := by
  simp [Cells.read, List.range_succ]

section
variable {m : Manager} {c : Nat} {size : UInt32} (hc : c < 0x400)
  (hm : Marked m.memsmall c size)

include hc hm

theorem tFree_small (h1 : size < 0x4000 + 1) :
    tFree m (m.address c) = { m with memsmall := Cells.fill m.memsmall c 0 1 } := by
  have hn : clusters size = 1 := if_pos h1
  have hAA : m.memsmall c = 0xAA := by
    unfold Marked marks at hm
    rw [if_pos h1, hn, Cells.read_succ] at hm
    exact (List.cons.inj hm).1
  rw [tFree_address m c hc, if_pos hAA, Cells.fill_succ, Cells.fill_zero]

theorem tFree_medium (h1 : ¬ size < 0x4000 + 1) (h2 : size < 0x10000 + 1) :
    tFree m (m.address c) = { m with memsmall := Cells.fill m.memsmall c 0 4 } := by
  have hn : clusters size = 4 := by
    unfold clusters
    rw [if_neg h1, if_pos h2]
  unfold Marked marks at hm
  rw [if_neg h1, if_pos h2, hn] at hm
  have h0 : m.memsmall c = 0xFE := by
    rw [read_four] at hm
    exact (List.cons.inj hm).1
  rw [tFree_address m c hc, if_neg (by rw [h0]; decide), if_pos (by rw [hm]; decide)]

/-- The loop over a large block, with its end mark below 0x401 or not. -/
theorem freeLarge_marked (hs : size ≤ maxSize) (h1 : ¬ size < 0x4000 + 1)
    (h2 : ¬ size < 0x10000 + 1) : freeLarge m.memsmall c (0x400 - c) =
      Cells.fill m.memsmall c 0
        (if c + clusters size ≤ 0x401 then clusters size else 0x400 - c) := by
  have h5 := five_le_clusters hs h1 h2
  have hend := endMark_large hs h1 h2 hm
  by_cases hin : c + clusters size ≤ 0x401
  · rw [if_pos hin, freeLarge_of_endMark (clusters size - 2) _ _ _ (by omega)]
    · rw [show clusters size - 2 + 2 = clusters size by omega]
    · intro j hj
      rw [hend j (by omega)]
      omega
    · rw [hend _ (by omega)]
  · rw [if_neg hin, freeLarge_of_no_endMark]
    intro j hj
    rw [hend j (by omega)]
    omega

/-- Of a large block the first four marks are compared. -/
theorem tFree_large (hs : size ≤ maxSize) (h1 : ¬ size < 0x4000 + 1) (h2 : ¬ size < 0x10000 + 1) :
    tFree m (m.address c) =
      if clusters size = 5 then m
      else { m with memsmall := freeLarge m.memsmall c (0x400 - c) } := by
  have h5 := five_le_clusters hs h1 h2
  have hget := marked_large hs h1 h2 hm
  have e0 : m.memsmall c = 0xBB := by simpa using hget 0 (by omega)
  have e1 : m.memsmall (c + 1) = 0xCC := by
    rw [hget 1 (by omega), if_neg (by omega), if_pos (by omega)]
  have e2 : m.memsmall (c + 2) = 0xFF := by
    rw [hget 2 (by omega), if_neg (by omega), if_neg (by omega)]
  rw [tFree_address m c hc, if_neg (by rw [e0]; decide), read_four, e0, e1, e2]
  by_cases hn5 : clusters size = 5
  · have e3 : m.memsmall (c + 3) = 0xCC := by
      rw [hget 3 (by omega), if_neg (by omega), if_pos (by omega)]
    rw [e3, if_neg (by decide), if_neg (by decide), if_pos hn5]
  · have e3 : m.memsmall (c + 3) = 0xFF := by
      rw [hget 3 (by omega), if_neg (by omega), if_neg (by omega)]
    rw [e3, if_neg (by decide), if_pos (by decide), if_neg hn5]

end

/-- **What `t_free` clears.** -/
theorem tFree_marked (m : Manager) (c : Nat) (size : UInt32) (hc : c < 0x400)
    (hs : size ≤ maxSize) (hm : Marked m.memsmall c size) :
    tFree m (m.address c) =
      { m with memsmall := Cells.fill m.memsmall c 0 (cleared c size) } := by
  unfold cleared
  by_cases h1 : size < 0x4000 + 1
  · have h2 : size < 0x10000 + 1 := by
      rw [lt_small_iff] at h1
      rw [lt_medium_iff]
      omega
    rw [tFree_small hc hm h1, if_pos h2, show clusters size = 1 from if_pos h1]
  by_cases h2 : size < 0x10000 + 1
  · have hn : clusters size = 4 := by
      unfold clusters
      rw [if_neg h1, if_pos h2]
    rw [tFree_medium hc hm h1 h2, if_pos h2, hn]
  rw [tFree_large hc hm hs h1 h2, if_neg h2]
  by_cases hn5 : clusters size = 5
  · rw [if_pos hn5, if_pos hn5, Cells.fill_zero]
  · rw [if_neg hn5, if_neg hn5, freeLarge_marked hc hm hs h1 h2]

/-! ## How much is cleared -/

theorem cleared_le (c : Nat) (size : UInt32) : cleared c size ≤ clusters size := by
  unfold cleared
  split_ifs <;> omega

/-- A block that is cleared beyond the table is cleared whole. -/
theorem cleared_past_end {c : Nat} {size : UInt32} (hc : c < 0x400) (hlt : 0x400 < c + cleared c size) :
    cleared c size = clusters size := by
  unfold cleared at *
  split_ifs at * <;> omega

theorem clusters_eq_five_iff (size : UInt32) (h : size ≤ maxSize) :
    clusters size = 5 ↔ 0x10000 < size ∧ size < 0x14000 := by
  have hs : size.toNat ≤ 0x500000 := h
  rw [UInt32.lt_iff_toNat_lt, UInt32.lt_iff_toNat_lt]
  show clusters size = 5 ↔ 0x10000 < size.toNat ∧ size.toNat < 0x14000
  unfold clusters
  split
  · next h1 => rw [lt_small_iff] at h1; omega
  · split
    · next h2 => rw [lt_medium_iff] at h2; omega
    · next h2 =>
      rw [lt_medium_iff] at h2
      rw [needsectory_toNat size h]
      omega

/-- A block inside the managed clusters is cleared whole unless it has five. -/
theorem cleared_eq_clusters_iff (c : Nat) (size : UInt32) (h : size ≤ maxSize)
    (hin : c + clusters size ≤ 0x400) : cleared c size = clusters size ↔ clusters size ≠ 5 := by
  have hpos := clusters_pos size h
  unfold cleared
  by_cases h2 : size < 0x10000 + 1
  · rw [if_pos h2]
    have hn : clusters size ≠ 5 := by
      rw [Ne, clusters_eq_five_iff size h, UInt32.lt_iff_toNat_lt]
      rw [lt_medium_iff] at h2
      show ¬ (0x10000 < size.toNat ∧ _)
      omega
    simp [hn]
  · rw [if_neg h2]
    split_ifs <;> omega

/-- Wherever a block is: `t_free` clears it whole if it has up to 64 KiB, and a
larger one unless it has five clusters or its last two marks lie past the end. -/
theorem cleared_whole_iff {c : Nat} {size : UInt32} (hc : c < 0x400) (h : size ≤ maxSize) :
    cleared c size = clusters size ↔
      size ≤ 0x10000 ∨ clusters size ≠ 5 ∧ c + clusters size ≤ 0x401 := by
  have hpos := clusters_pos size h
  have hmedium : size < 0x10000 + 1 ↔ size ≤ 0x10000 := lt_medium_iff size
  unfold cleared
  by_cases h2 : size ≤ 0x10000
  · rw [if_pos (hmedium.2 h2)]
    exact iff_of_true rfl (.inl h2)
  · rw [if_neg (mt hmedium.1 h2), or_iff_right h2]
    split_ifs <;> omega

end Gentoox.Heap
