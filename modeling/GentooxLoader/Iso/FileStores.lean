import GentooxLoader.Iso.ReadFile

/-!
# What a call stores (fs/cdrom/iso9660.c)

The buffer of the caller is filled block by block: `callStores` are the blocks of
a call with their places.  They are what changes the memory (`call_stores`), and
none of them reaches the maximum exactly when the whole blocks for the length fit
below it (`stores_bounded_iff`).
-/

namespace Gentoox.Iso

open Cells Lib

/-! ## The blocks that are stored -/

section
variable (env : Env)

/-- The blocks `readFile` stores, each at its place in the buffer. -/
def fileStores (readSize : UInt32) : Nat → UInt32 → Nat → Nat → List (Nat × List UInt8)
  | 0, _, _, _ => []
  | n + 1, offset, i, reads =>
    let tmpbuff := write (fun _ => 0) 0 (env.readSector reads offset).2
    let len :=
      if UInt32.ofNat ((i + 1) * isoBlockSize) > readSize then
        (UInt32.ofNat (i * isoBlockSize) - readSize).toNat
      else isoBlockSize
    (i * isoBlockSize, read tmpbuff 0 len) :: fileStores readSize n (offset + 1) (i + 1) (reads + 1)

/-- They are what changes the memory. -/
theorem fileLoop_stores (readSize : UInt32) (buffer : Nat) : ∀ (n : Nat) (offset : UInt32) (i : Nat)
    (ram : Nat → UInt8) (reads : Nat), (fileLoop env readSize buffer n offset i ram reads).1 =
      (fileStores env readSize n offset i reads).foldl (fun ram s => write ram (buffer + s.1) s.2)
        ram := by
  intro n
  induction n with
  | zero =>
    intro offset i ram reads
    rfl
  | succ n ih =>
    intro offset i ram reads
    rw [fileLoop, ih, fileStores, List.foldl_cons]
    rfl

/-- Up to the length in whole blocks, each block is a whole one. -/
theorem fileStores_whole {readSize : UInt32} : ∀ {n i : Nat}, (i + n) * isoBlockSize ≤ readSize.toNat →
    ∀ (offset : UInt32) (reads : Nat),
      (fileStores env readSize n offset i reads).map (fun s => (s.1, s.2.length)) =
        (List.range' i n).map fun j => (j * isoBlockSize, isoBlockSize) := by
  intro n
  induction n with
  | zero =>
    intro i _ offset reads
    rfl
  | succ n ih =>
    intro i hle offset reads
    have hlt := readSize.toNat_lt
    have hlast : ¬ UInt32.ofNat ((i + 1) * isoBlockSize) > readSize := by
      rw [gt_iff_lt, UInt32.lt_iff_toNat_lt, UInt32.toNat_ofNat']
      unfold isoBlockSize at hle ⊢
      omega
    rw [fileStores, List.map_cons, ih (by rwa [Nat.add_assoc, Nat.add_comm 1]), List.range'_succ,
      List.map_cons]
    simp only [if_neg hlast, length_read]

end

/-! ## The stores of a call -/

/-- The blocks a call stores, each at its place in `pbaFile`. -/
def callStores (env : Env) (fuel : Nat) (path : List UInt8) (max : UInt32) (ram : Nat → UInt8)
    (reads : Nat) : List (Nat × List UInt8) :=
  match lookUp env fuel path reads with
  | some (some dir, reads) =>
    let blocks := rounded (bytesRead dir.size max ram)
    fileStores env blocks (blocks >>> 11).toNat dir.extent 0 reads
  | _ => []

/-- Nothing is stored from the maximum on. -/
def StaysBelow (stores : List (Nat × List UInt8)) (max : UInt32) : Prop :=
  ∀ s ∈ stores, ∀ k, k < s.2.length → s.1 + k < max.toNat

/-- The whole blocks for a length fit below the maximum.  Less than a block below
2^32 their size wraps around, and none is stored. -/
def BlocksFit (length max : UInt32) : Prop :=
  needed length.toNat ≤ max.toNat ∨ 2 ^ 32 - 2048 ≤ length.toNat

instance (length max : UInt32) : Decidable (BlocksFit length max) :=
  inferInstanceAs (Decidable (_ ∨ _))

theorem blocksFit_iff (length max : UInt32) :
    BlocksFit length max ↔ (rounded length).toNat ≤ max.toNat := by
  have hlt := length.toNat_lt
  have hround := rounded_toNat length
  unfold BlocksFit
  unfold needed at hround ⊢
  by_cases h : length.toNat ≤ 2048
  · rw [if_pos h] at hround ⊢
    omega
  · rw [if_neg h] at hround ⊢
    omega

section
variable {env : Env} {fuel : Nat} {path : List UInt8} {pbaFile : Nat} {max : UInt32}
  {ram : Nat → UInt8} {reads : Nat}

/-- They are what a call changes. -/
theorem call_stores {r : Int × (Nat → UInt8) × Nat}
    (h : bootIso9660GetFile env fuel path pbaFile max ram reads = some r) :
    r.2.1 = (callStores env fuel path max ram reads).foldl
      (fun ram s => write ram (pbaFile + s.1) s.2) ram := by
  unfold callStores
  obtain ⟨reads', ⟨hlook, -⟩ | ⟨dir, hlook, -, hram⟩⟩ := bootIso9660GetFile_cases h
  · rw [hlook]
    unfold bootIso9660GetFile at h
    rw [hlook] at h
    cases h
    rfl
  · rw [hlook, hram]
    exact fileLoop_stores env _ pbaFile _ dir.extent 0 ram reads'

theorem foldl_write_above {stores : List (Nat × List UInt8)} (h : StaysBelow stores max) {a : Nat}
    (ha : pbaFile + max.toNat ≤ a) :
    stores.foldl (fun ram s => write ram (pbaFile + s.1) s.2) ram a = ram a := by
  induction stores generalizing ram with
  | nil => rfl
  | cons s stores ih =>
    rw [List.foldl_cons, ih fun t ht => h t (List.mem_cons_of_mem s ht)]
    have hs := h s List.mem_cons_self
    by_cases hlen : s.2.length = 0
    · rw [List.length_eq_zero_iff.1 hlen, write_nil]
    · have := hs (s.2.length - 1) (by omega)
      exact write_of_ge _ _ _ _ (by omega)

/-- So from there on the memory is left alone. -/
theorem call_above (hbelow : StaysBelow (callStores env fuel path max ram reads) max)
    {r : Int × (Nat → UInt8) × Nat}
    (h : bootIso9660GetFile env fuel path pbaFile max ram reads = some r) {a : Nat}
    (ha : pbaFile + max.toNat ≤ a) : r.2.1 a = ram a := by
  rw [call_stores h]
  exact foldl_write_above hbelow ha

/-- A block is stored at each place below the rounded length. -/
theorem fileStores_below_iff (length : UInt32) (offset : UInt32) (reads : Nat) :
    StaysBelow (fileStores env (rounded length) (rounded length >>> 11).toNat offset 0 reads) max ↔
      (rounded length).toNat ≤ max.toNat := by
  have hblocks := rounded_blocks length
  have hshape := fileStores_whole env (n := (rounded length >>> 11).toNat) (i := 0)
    (by rw [Nat.zero_add, hblocks]) offset reads
  generalize (rounded length >>> 11).toNat = n at *
  generalize fileStores env (rounded length) n offset 0 reads = stores at *
  constructor
  · intro h
    rcases n with _ | n
    · omega
    · -- the last byte of the last block
      have hlast : (n * isoBlockSize, isoBlockSize) ∈ stores.map fun s => (s.1, s.2.length) := by
        rw [hshape, List.mem_map]
        exact ⟨n, List.mem_range'_1.2 (by omega), rfl⟩
      obtain ⟨s, hs, he⟩ := List.mem_map.1 hlast
      obtain ⟨h1, h2⟩ := Prod.mk.inj he
      have hbyte := h s hs (isoBlockSize - 1) (by rw [h2]; decide)
      rw [h1] at hbyte
      rw [Nat.succ_mul] at hblocks
      unfold isoBlockSize at *
      omega
  · intro h s hs k hk
    have hmem : (s.1, s.2.length) ∈ stores.map fun s => (s.1, s.2.length) :=
      List.mem_map.2 ⟨s, hs, rfl⟩
    rw [hshape, List.mem_map] at hmem
    obtain ⟨j, hj, he⟩ := hmem
    obtain ⟨h1, h2⟩ := Prod.mk.inj he
    rw [List.mem_range'_1] at hj
    have hle : (j + 1) * isoBlockSize ≤ n * isoBlockSize := Nat.mul_le_mul_right _ (by omega)
    rw [Nat.succ_mul] at hle
    omega

theorem staysBelow_iff : StaysBelow (callStores env fuel path max ram reads) max ↔
    ∀ dir reads', lookUp env fuel path reads = some (some dir, reads') →
      BlocksFit (bytesRead dir.size max ram) max := by
  unfold callStores
  split
  · rename_i dir reads' hlook
    rw [fileStores_below_iff, ← blocksFit_iff]
    constructor
    · rintro h dir' reads'' heq
      rw [hlook] at heq
      cases heq
      exact h
    · intro h
      exact h dir reads' hlook
  · rename_i hnone
    refine iff_of_true (fun s hs => by cases hs) fun dir reads' hlook => ?_
    exact absurd hlook (hnone dir reads')

end

/-! ## Top theorem -/

end Gentoox.Iso
