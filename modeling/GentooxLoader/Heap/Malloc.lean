import GentooxLoader.Heap.Live

/-!
# `malloc` and `free` (lib/misc/BootLibrary.c)

What callers get is not the block of `t_malloc` but the address 0x100 behind its
start; the two words in front of it are the block's address, for `free`, and
0x1234567.

    t_malloc finds room → (the caller's bytes and the two words lie in the block, and
      `free` finds it again  ↔  size < 2^32 - 0x200)            (malloc_sound_iff)
    t_malloc returns 0 → `malloc` returns 0x100 and writes in front of it
                                                                 (malloc_without_block)
-/

namespace Gentoox.Heap

open Lib (le32)

/-! ## Algorithm -/

/-- The bytes asked of `t_malloc`. -/
def request (size : UInt32) : UInt32 := (size + 0x200) &&& 0xffffff00

/-- The pointer, and the manager and the memory afterwards. -/
def malloc (m : Manager) (ram : Nat → UInt8) (size : UInt32) : UInt32 × Manager × (Nat → UInt8) :=
  let temp := request size
  let (tempmalloc2, m) := tMalloc m temp
  let tempmalloc := (tempmalloc2 + 0x100) &&& 0xffffff00
  let ram := Cells.write ram (tempmalloc - 8).toNat (le32 tempmalloc2)
  let ram := Cells.write ram (tempmalloc - 4).toNat (le32 0x1234567)
  (tempmalloc, m, ram)

/-- What `free` passes to `t_free`, if it gets there. -/
def freeArg (ram : Nat → UInt8) (ptr : UInt32) : Option UInt32 :=
  if ptr = 0 then none
  else if Lib.longAt ram (ptr - 4).toNat ≠ 0x1234567 then none
  else some (Lib.longAt ram (ptr - 8).toNat)

def free (m : Manager) (ram : Nat → UInt8) (ptr : UInt32) : Manager :=
  match freeArg ram ptr with
  | some ptr => tFree m ptr
  | none => m

/-! ## The size asked for and the address given back -/

theorem byteMask (x : UInt32) : (x &&& 0xffffff00).toNat = x.toNat / 0x100 * 0x100 :=
  Words.and_mask x (k := 8) (by decide) rfl

theorem request_toNat (size : UInt32) :
    (request size).toNat = (size.toNat + 0x200) % 2 ^ 32 / 0x100 * 0x100 := by
  unfold request
  rw [byteMask, UInt32.toNat_add]
  rfl

/-- `t_malloc` returns NULL or the address of a cluster. -/
theorem tMalloc_ptr {m : Manager} (hm : m.memoryManagerStartAddress = memoryManagerStart)
    {size : UInt32} (h : (tMalloc m size).1 ≠ 0) :
    size ≤ maxSize ∧ ∃ c < 0x400, (tMalloc m size).1.toNat = 0x02A00000 + c * 0x4000 := by
  rcases tMalloc_cases m size with he | ⟨c, hs, hc, he⟩
  · rw [he] at h
    exact absurd rfl h
  · have hlt := ((firstFree_eq_some _ _ _).1 hc).2.1.2
    refine ⟨hs, c, hlt, ?_⟩
    rw [he]
    show (m.memoryManagerStartAddress + c.toUInt32 * 0x4000).toNat = _
    rw [UInt32.toNat_add, mul_clusterSize_toNat c hlt, hm]
    show (0x02A00000 + c * 0x4000) % 2 ^ 32 = _
    omega

/-- Where the two words in front of a pointer are. -/
theorem words_toNat {ptr : UInt32} (h8 : 8 ≤ ptr.toNat) :
    (ptr - 8).toNat = ptr.toNat - 8 ∧ (ptr - 4).toNat = ptr.toNat - 8 + 4 := by
  have h4 : (4 : UInt32) ≤ ptr := UInt32.le_iff_toNat_le.2 (Nat.le_trans (by decide) h8)
  rw [UInt32.toNat_sub_of_le ptr 8 h8, UInt32.toNat_sub_of_le ptr 4 h4]
  show ptr.toNat - 8 = _ ∧ ptr.toNat - 4 = _
  omega

section
variable (m : Manager) (ram : Nat → UInt8) (size : UInt32)

theorem malloc_ptr : (malloc m ram size).1.toNat =
    ((tMalloc m (request size)).1.toNat + 0x100) % 2 ^ 32 / 0x100 * 0x100 := by
  show (((tMalloc m (request size)).1 + 0x100) &&& 0xffffff00).toNat = _
  rw [byteMask, UInt32.toNat_add]
  rfl

/-- The two words, as one block of bytes. -/
theorem malloc_ram (h : 8 ≤ (malloc m ram size).1.toNat) : (malloc m ram size).2.2 =
    Cells.write ram ((malloc m ram size).1.toNat - 8)
      (le32 (tMalloc m (request size)).1 ++ le32 0x1234567) := by
  show Cells.write (Cells.write ram ((malloc m ram size).1 - 8).toNat _)
    ((malloc m ram size).1 - 4).toNat _ = _
  generalize (malloc m ram size).1 = ptr at *
  obtain ⟨e8, e4⟩ := words_toNat h
  rw [Cells.write_append, e8, e4]
  rfl

end

/-! ## A block that is found -/

/-- What a caller of `malloc` counts on: the pointer is aligned, the two words
and `size + 1` bytes lie in the clusters of the block, and as long as the two
words are not written over `free` passes the block's address to `t_free`. -/
structure Sound (m : Manager) (ram : Nat → UInt8) (size : UInt32) : Prop where
  aligned : (malloc m ram size).1.toNat % 256 = 0
  header : (tMalloc m (request size)).1.toNat + 8 ≤ (malloc m ram size).1.toNat
  room : (malloc m ram size).1.toNat + size.toNat + 1 ≤
    (tMalloc m (request size)).1.toNat + clusters (request size) * 0x4000
  free : ∀ later : Nat → UInt8,
    Cells.read later ((malloc m ram size).1.toNat - 8) 8 =
      Cells.read (malloc m ram size).2.2 ((malloc m ram size).1.toNat - 8) 8 →
    freeArg later (malloc m ram size).1 = some (tMalloc m (request size)).1

/-- `free` finds the two words of `malloc`. -/
theorem freeArg_of_read {ram : Nat → UInt8} {ptr block : UInt32} (h8 : 8 ≤ ptr.toNat)
    (h : Cells.read ram (ptr.toNat - 8) 8 = le32 block ++ le32 0x1234567) :
    freeArg ram ptr = some block := by
  obtain ⟨e8, e4⟩ := words_toNat h8
  have h0 : ptr ≠ 0 := by
    rintro rfl
    exact absurd h8 (by decide)
  rw [Cells.read_add _ _ 4 4] at h
  obtain ⟨hblock, hmagic⟩ := List.append_inj h (Cells.length_read _ _ _)
  unfold freeArg
  rw [if_neg h0, e8, e4, Lib.longAt_of_read hblock, Lib.longAt_of_read hmagic, if_neg (by simp)]

theorem sound_of_size {m : Manager} (hm : m.memoryManagerStartAddress = memoryManagerStart)
    (ram : Nat → UInt8) {size : UInt32} (h0 : (tMalloc m (request size)).1 ≠ 0)
    (hsize : size.toNat < 2 ^ 32 - 0x200) : Sound m ram size := by
  obtain ⟨hmax, c, hc, hblock⟩ := tMalloc_ptr hm h0
  have hroom := size_le_clusters (request size) hmax
  have hptr := malloc_ptr m ram size
  rw [request_toNat] at hroom
  rw [hblock] at hptr
  refine ⟨by omega, by omega, by omega, ?_⟩
  intro later hlater
  rw [malloc_ram m ram size (by omega)] at hlater
  apply freeArg_of_read (by omega)
  rw [hlater]
  exact Cells.read_write_of_length rfl

/-! ## Top theorems -/

/-- **The block is large enough for what was asked for** exactly when `size + 0x200`
does not wrap around: behind it the block has one cluster. -/
theorem malloc_sound_iff (s : State) (hr : heap.Reachable s) (ram : Nat → UInt8) (size : UInt32)
    (h0 : (tMalloc s.manager (request size)).1 ≠ 0) :
    Sound s.manager ram size ↔ size.toNat < 2 ^ 32 - 0x200 := by
  have hm := (inv_reachable hr).start
  refine ⟨fun hsound => ?_, sound_of_size hm ram h0⟩
  by_contra hbig
  have hlt := size.toNat_lt
  have hreq := request_toNat size
  have hone : clusters (request size) = 1 := if_pos ((lt_small_iff _).2 (by omega))
  have hroom := hsound.room
  have hheader := hsound.header
  rw [hone] at hroom
  omega

theorem malloc_sound_iff_three :
    Sound (start fun _ => 0).manager (fun _ => 0) 3 ↔ (3 : UInt32).toNat < 2 ^ 32 - 0x200 :=
  malloc_sound_iff _ (.of_init ⟨_, rfl⟩) _ 3 (by decide +kernel)

/-- 4 GiB less one byte, from a block of one cluster. -/
theorem malloc_wraps :
    ¬ ∀ s, heap.Reachable s → ∀ ram size, (tMalloc s.manager (request size)).1 ≠ 0 →
      Sound s.manager ram size := by
  intro h
  have hsound := h (start fun _ => 0) (.of_init ⟨_, rfl⟩) (fun _ => 0) 0xffffffff (by decide +kernel)
  exact absurd hsound.room (by decide +kernel)

/-- The failure of `t_malloc` reaches the caller, and nothing is written. -/
def Refuses (m : Manager) (ram : Nat → UInt8) (size : UInt32) : Prop :=
  (malloc m ram size).1 = 0 ∧ (malloc m ram size).2.2 = ram

/-- **A block that is not there** is given out at 0x100, and the two words go in
front of it: no failure of `t_malloc` reaches the caller, whatever the heap. -/
theorem malloc_without_block (m : Manager) (ram : Nat → UInt8) (size : UInt32)
    (h0 : (tMalloc m (request size)).1 = 0) :
    ¬ Refuses m ram size ∧ (malloc m ram size).1 = 0x100 ∧
      (malloc m ram size).2.2 = Cells.write ram 0xf8 (le32 0 ++ le32 0x1234567) := by
  have hptr : (malloc m ram size).1 = 0x100 := by
    show ((tMalloc m (request size)).1 + 0x100) &&& 0xffffff00 = _
    rw [h0]
    decide
  have hram := malloc_ram m ram size (by rw [hptr]; decide)
  rw [hptr, h0] at hram
  refine ⟨fun hrefuse => ?_, hptr, hram⟩
  have hnull := hrefuse.1
  rw [hptr] at hnull
  exact absurd hnull (by decide)

theorem malloc_without_block_large :
    ¬ Refuses (start fun _ => 0).manager (fun _ => 0) 0x600000 :=
  (malloc_without_block _ _ 0x600000 (by decide +kernel)).1

/-- 6 MiB on the empty heap. -/
theorem malloc_not_null :
    ¬ ∀ s, heap.Reachable s → ∀ ram size, (tMalloc s.manager (request size)).1 = 0 →
      Refuses s.manager ram size := by
  intro h
  have hrefuse := h (start fun _ => 0) (.of_init ⟨_, rfl⟩) (fun _ => 0) 0x600000 (by decide +kernel)
  exact absurd hrefuse.1 (by decide +kernel)

end Gentoox.Heap
