import GentooxLoader.Fatx.File

/-!
# The table of an opened partition (OpenFATXPartition)

A header that cannot be read or has another magic gives NULL.  A chain table
that cannot be read is reported, and the partition is returned with the memory
`malloc` gave for it; the size of the table is computed in 32 bits.

    fatxRawRead_first_failure  what a failing read leaves behind
    tableSize32_le         the size in 32 bits is never too large
    openFATXPartition_iff  a partition returned holds its table ↔ no read of the
                           table fails and its size fits
-/

namespace Gentoox.Fatx

open Cells Ide Lib

/-! ## A read that fails -/

/-- The sectors before the first one that fails are stored. -/
theorem rawReadLoop_first_failure (env : Env) (drive : Int) : ∀ (n fuel : Nat) (sec : UInt32)
    (len : Nat) (got : Int) (ptr : Nat) (buf : Nat → UInt8) (reads : Nat), len < fuel →
    n < sectorsFor len → (∀ i, i < n → env.fails (reads + i) = false) →
    env.fails (reads + n) = true →
    rawReadLoop env drive fuel ⟨sec, 0, len, got, ptr, buf, reads⟩ =
      some (0, write buf ptr (env.sectors drive sec n), reads + n + 1) := by
  intro n
  induction n with
  | zero =>
    intro fuel sec len got ptr buf reads hfuel hn _ hf
    obtain ⟨fuel, rfl⟩ : ∃ f, fuel = f + 1 := ⟨fuel - 1, by omega⟩
    have hlen : len ≠ 0 := by
      rintro rfl
      exact absurd hn (by decide)
    rw [Nat.add_zero] at hf
    rw [rawReadLoop_aligned env drive fuel sec len hlen, if_pos hf, Env.sectors, write_nil]
  | succ n ih =>
    intro fuel sec len got ptr buf reads hfuel hn hok hf
    obtain ⟨fuel, rfl⟩ : ∃ f, fuel = f + 1 := ⟨fuel - 1, by omega⟩
    unfold sectorsFor at hn
    have h0 : env.fails reads = false := hok 0 (by omega)
    have hmin : min len 512 = 512 := by omega
    rw [rawReadLoop_aligned env drive fuel sec len (by omega), h0, if_neg (by decide), hmin,
      ih _ _ _ _ _ _ _ (by omega) (by unfold sectorsFor; omega)
        (fun i hi => by rw [Nat.add_assoc, Nat.add_comm 1 i]; exact hok (i + 1) (by omega))
        (by rw [Nat.add_assoc, Nat.add_comm 1 n]; exact hf),
      List.take_of_length_le (by rw [length_sector]), Env.sectors, write_append, length_sector]
    congr 3
    omega

theorem fatxRawRead_first_failure (env : Env) (drive : Int) (sector : UInt32)
    {byteOffset : UInt64} (halign : byteOffset.toNat % 512 = 0) {len n reads : Nat}
    (buf : Nat → UInt8) (hn : n < sectorsFor len)
    (hok : ∀ i, i < n → env.fails (reads + i) = false) (hf : env.fails (reads + n) = true) :
    fatxRawRead env drive sector byteOffset len buf reads =
      some (0, write buf 0 (env.sectors drive (sector + (byteOffset / 512).toUInt32) n),
        reads + n + 1) := by
  have h0 : (byteOffset % 512).toNat = 0 := by
    rw [UInt64.toNat_mod]
    exact halign
  unfold fatxRawRead
  rw [h0]
  exact rawReadLoop_first_failure env drive n _ _ len 0 0 buf reads (by simp) hn hok hf

/-- A negative length: the first read decides, and nothing is stored. -/
theorem fatxRawRead_negative (env : Env) (drive : Int) (sector : UInt32) {byteOffset : UInt64}
    (halign : byteOffset.toNat % 512 = 0) {len : Int} (hlen : len < 0) (buf : Nat → UInt8)
    (reads : Nat) : fatxRawRead env drive sector byteOffset len buf reads =
      if env.fails reads then some (0, buf, reads + 1) else none := by
  have h0 : (byteOffset % 512).toNat = 0 := by
    rw [UInt64.toNat_mod]
    exact halign
  have hthis : (if len < 512 then len else 512) = len := if_pos (by omega)
  unfold fatxRawRead
  rw [h0, rawReadLoop]
  simp only [hthis, ne_eq, not_true_eq_false, if_false]
  rw [if_neg (by omega)]
  cases hf : env.fails reads with
  | true =>
    simp only [Env.readSector, hf, if_true]
    rw [if_pos (by decide), write_nil]
  | false =>
    simp only [Env.readSector, hf, Bool.false_eq_true, if_false, not_true_eq_false]
    rw [if_pos hlen]

/-! ## The size of the table -/

/-- The bytes of the chain table: an entry for each cluster, in blocks of 4096. -/
def tableSize (partitionSize : UInt64) : Nat :=
  let clusterCount := partitionSize.toNat / 0x4000
  (clusterCount * (if clusterCount ≥ 0xfff4 then 4 else 2) + 4095) / 4096 * 4096

/-- The size that `OpenFATXPartition` computes. -/
def tableSize32 (partitionSize : UInt64) : UInt32 :=
  let clusterCount := (partitionSize / 0x4000).toUInt32
  chainTableBytes clusterCount (if clusterCount ≥ 0xfff4 then 4 else 2)

theorem chainTableBytes_le (count size : UInt32) :
    (chainTableBytes count size).toNat ≤ (count.toNat * size.toNat + 4095) / 4096 * 4096 := by
  have hb : fatxChainTableBlockSize.toNat = 4096 := rfl
  have hle : (count * size).toNat ≤ count.toNat * size.toNat := by
    rw [UInt32.toNat_mul]
    exact Nat.mod_le _ _
  unfold chainTableBytes
  simp only
  generalize count * size = x at hle ⊢
  generalize count.toNat * size.toNat = y at hle ⊢
  split
  · rename_i hmod
    have hne : x.toNat % 4096 ≠ 0 := fun h => hmod (UInt32.toNat_inj.1 (by rw [UInt32.toNat_mod]; exact h))
    rw [UInt32.toNat_mul, UInt32.toNat_add, UInt32.toNat_div, hb]
    have hone : (1 : UInt32).toNat = 1 := rfl
    omega
  · omega

theorem tableSize32_le (partitionSize : UInt64) :
    (tableSize32 partitionSize).toNat ≤ tableSize partitionSize := by
  have hcount : (partitionSize / 0x4000).toUInt32.toNat = partitionSize.toNat / 0x4000 % 2 ^ 32 := by
    rw [UInt64.toNat_toUInt32, UInt64.toNat_div]
    rfl
  unfold tableSize32 tableSize
  simp only
  refine (chainTableBytes_le _ _).trans ?_
  rw [hcount]
  have hge : (partitionSize / 0x4000).toUInt32 ≥ 0xfff4 ↔
      partitionSize.toNat / 0x4000 % 2 ^ 32 ≥ 0xfff4 := by
    rw [← hcount]
    exact UInt32.le_iff_toNat_le
  simp only [hge]
  generalize partitionSize.toNat / 0x4000 = n
  -- a count that does not fit into 32 bits has entries of four bytes
  by_cases hn : n ≥ 0xfff4
  · rw [if_pos hn]
    split
    · show (_ * 4 + 4095) / 4096 * 4096 ≤ _
      omega
    · show (_ * 2 + 4095) / 4096 * 4096 ≤ _
      omega
  · rw [if_neg hn, if_neg (by omega)]
    show (_ * 2 + 4095) / 4096 * 4096 ≤ _
    omega

/-! ## The header -/

theorem header_byte (env : Env) (drive : Int) (sector : UInt32) (m : Nat → UInt8) {i : Nat}
    (hi : i < 512) : some (write m 0 ((env.sectors drive sector 8).take 4096) i) =
      (env.sector drive sector).val[i]? := by
  have hsome : ((env.sectors drive sector 8).take 4096)[i]? = (env.sector drive sector).val[i]? := by
    rw [List.getElem?_take_of_lt (by omega), Env.sectors,
      List.getElem?_append_left (by rw [length_sector]; exact hi)]
  unfold write
  rw [if_pos (Nat.zero_le i), Nat.sub_zero, hsome,
    List.getElem?_eq_getElem (by rw [length_sector]; exact hi)]
  rfl

/-- The partition begins with "FATX". -/
def Magic (env : Env) (drive : Int) (sector : UInt32) : Prop :=
  (env.sector drive sector).val.take 4 = [0x46, 0x41, 0x54, 0x58]

theorem magic_iff (env : Env) (drive : Int) (sector : UInt32) (m : Nat → UInt8) :
    dword (withTail (fun _ => 0) (write m 0 ((env.sectors drive sector 8).take 4096))) 0 =
      fatxPartitionMagic ↔ Magic env drive sector := by
  have hbyte := fun i (hi : i < 512) => header_byte env drive sector m hi
  have hlen := length_sector (env.sector drive sector)
  unfold Magic
  generalize write m 0 ((env.sectors drive sector 8).take 4096) = a at hbyte
  generalize (env.sector drive sector).val = l at hbyte hlen
  obtain ⟨b0, b1, b2, b3, rest, rfl⟩ : ∃ b0 b1 b2 b3 rest, l = b0 :: b1 :: b2 :: b3 :: rest := by
    match l, hlen with
    | b0 :: b1 :: b2 :: b3 :: rest, _ => exact ⟨b0, b1, b2, b3, rest, rfl⟩
  obtain rfl : a 0 = b0 := Option.some.inj (hbyte 0 (by omega))
  obtain rfl : a 1 = b1 := Option.some.inj (hbyte 1 (by omega))
  obtain rfl : a 2 = b2 := Option.some.inj (hbyte 2 (by omega))
  obtain rfl : a 3 = b3 := Option.some.inj (hbyte 3 (by omega))
  show (a 0).toUInt32 + (a 1).toUInt32 * 2 ^ 8 + (a 2).toUInt32 * 2 ^ 16 +
    (a 3).toUInt32 * 2 ^ 24 = _ ↔ [a 0, a 1, a 2, a 3] = _
  have h0 := (a 0).toNat_lt
  have h1 := (a 1).toNat_lt
  have h2 := (a 2).toNat_lt
  have h3 := (a 3).toNat_lt
  have hpow : (2 ^ 8 : UInt32).toNat = 256 ∧ (2 ^ 16 : UInt32).toNat = 65536 ∧
      (2 ^ 24 : UInt32).toNat = 16777216 ∧ fatxPartitionMagic.toNat = 0x58544146 :=
    ⟨rfl, rfl, rfl, rfl⟩
  rw [← UInt32.toNat_inj]
  simp only [UInt32.toNat_add, UInt32.toNat_mul, UInt8.toNat_toUInt32, List.cons.injEq,
    ← UInt8.toNat_inj, hpow, and_true]
  show _ ↔ (a 0).toNat = 0x46 ∧ (a 1).toNat = 0x41 ∧ (a 2).toNat = 0x54 ∧ (a 3).toNat = 0x58
  omega

/-! ## What the call returns -/

/-- All of the header can be read, and it has the magic. -/
def HeaderRead (env : Env) (drive : Int) (sector : UInt32) (reads : Nat) : Prop :=
  (∀ i, i < 8 → env.fails (reads + i) = false) ∧ Magic env drive sector

/-- The partition with this memory and this table in it. -/
def withTable (nDriveIndex : Int) (partitionOffset : UInt32) (partitionSize : UInt64)
    (words : Int → UInt8) (table : Nat → UInt8) : FATXPartition :=
  let clusterCount := (partitionSize / 0x4000).toUInt32
  { nDriveIndex
    partitionStart := partitionOffset.toUInt64
    partitionSize
    clusterSize := 0x4000
    clusterCount
    chainMapEntrySize := if clusterCount ≥ 0xfff4 then 4 else 2
    clusterChainMap := withTail words table
    cluster1Address := (fatxPartitionHeaderSize + tableSize32 partitionSize).toUInt64 }

theorem tail_withTail (m : Int → UInt8) (a : Nat → UInt8) : tail (withTail m a) = a := by
  funext i
  unfold tail withTail
  rw [if_pos (Int.natCast_nonneg i), Int.toNat_natCast]

section
variable (env : Env) (malloc : Nat → UInt32 → Option (Int → UInt8)) (nDriveIndex : Int)
  (partitionOffset : UInt32) (partitionSize : UInt64) (reads : Nat)

theorem fatxRawRead_header (hok : ∀ i, i < 8 → env.fails (reads + i) = false) :
    fatxRawRead env nDriveIndex partitionOffset 0 (signed fatxPartitionHeaderSize)
        (env.stack reads) reads =
      some (signed fatxPartitionHeaderSize,
        write (env.stack reads) 0 ((env.sectors nDriveIndex partitionOffset 8).take 4096),
        reads + 8) := by
  have hread := fatxRawRead_ok env nDriveIndex partitionOffset 0 (by decide) 4096 (env.stack reads)
    reads hok
  have hsector : partitionOffset + ((0 : UInt64) / 512).toUInt32 = partitionOffset :=
    UInt32.add_zero _
  rw [hsector] at hread
  exact hread

theorem openFATXPartition_null (h : ¬ HeaderRead env nDriveIndex partitionOffset reads) :
    ∃ reads', openFATXPartition env malloc nDriveIndex partitionOffset partitionSize reads =
      some (none, reads') := by
  unfold openFATXPartition
  by_cases hok : ∀ i, i < 8 → env.fails (reads + i) = false
  · rw [fatxRawRead_header env nDriveIndex partitionOffset reads hok]
    simp only
    rw [if_neg (by decide), if_pos]
    · exact ⟨_, rfl⟩
    · exact fun hmagic => h ⟨hok, (magic_iff env nDriveIndex partitionOffset _).1 hmagic⟩
  · simp only [not_forall, Bool.not_eq_false] at hok
    obtain ⟨i, hi, hf⟩ := hok
    obtain ⟨n, buf', hread, -⟩ := fatxRawRead_fail env nDriveIndex partitionOffset 0 (by decide) 4096
      (env.stack reads) reads ⟨i, hi, hf⟩
    rw [show signed fatxPartitionHeaderSize = ((4096 : Nat) : Int) from rfl, hread]
    simp only
    rw [if_pos (by decide)]
    exact ⟨_, rfl⟩

theorem openFATXPartition_eq (h : HeaderRead env nDriveIndex partitionOffset reads) :
    openFATXPartition env malloc nDriveIndex partitionOffset partitionSize reads =
      if (malloc (reads + 8) 44).isNone then some (none, reads + 8)
      else
        (malloc (reads + 8) (tableSize32 partitionSize)).elim (some (none, reads + 8)) fun words =>
          (fatxRawRead env nDriveIndex partitionOffset fatxPartitionHeaderSize.toUInt64
            (signed (tableSize32 partitionSize)) (tail words) (reads + 8)).map fun r =>
              (some (withTable nDriveIndex partitionOffset partitionSize words r.2.1), r.2.2) := by
  unfold openFATXPartition
  rw [fatxRawRead_header env nDriveIndex partitionOffset reads h.1]
  simp only
  rw [if_neg (by decide),
    if_neg fun hne => hne ((magic_iff env nDriveIndex partitionOffset _).2 h.2)]
  cases malloc (reads + 8) 44 with
  | none => rfl
  | some m =>
    simp only [Option.isNone_some, Bool.false_eq_true, if_false]
    have hsize : chainTableBytes (partitionSize / 0x4000).toUInt32
        (if (partitionSize / 0x4000).toUInt32 ≥ 0xfff4 then 4 else 2) =
      tableSize32 partitionSize := rfl
    rw [hsize]
    cases malloc (reads + 8) (tableSize32 partitionSize) with
    | none => rfl
    | some words =>
      simp only [Option.elim_some]
      split
      · rename_i hread
        rw [show fatxRawRead env nDriveIndex partitionOffset fatxPartitionHeaderSize.toUInt64
          (signed (tableSize32 partitionSize)) (tail words) (reads + 8) = none from hread]
        rfl
      · rename_i readSize table reads' hread
        rw [show fatxRawRead env nDriveIndex partitionOffset fatxPartitionHeaderSize.toUInt64
          (signed (tableSize32 partitionSize)) (tail words) (reads + 8) =
            some (readSize, table, reads') from hread]
        rfl

/-! ## Reading the table -/

/-- The bytes stored behind the header. -/
def storedTable : List UInt8 :=
  (env.sectors nDriveIndex (partitionOffset + 8) (sectorsFor (tableSize partitionSize))).take
    (tableSize partitionSize)

/-- Of the table no read fails, and its size is the one computed in 32 bits.  (A
size from 2^31 on is negative for `FATXRawRead`, which does not return unless its
first read fails.) -/
def TableRead : Prop :=
  if (tableSize32 partitionSize).toNat < 2 ^ 31 then
    (tableSize32 partitionSize).toNat = tableSize partitionSize ∧
      ∀ i, i < sectorsFor (tableSize partitionSize) → env.fails (reads + 8 + i) = false
  else env.fails (reads + 8) = false

/-- A partition returned has the magic, and its map holds the table. -/
def ReturnsTable : Prop :=
  ∀ malloc p reads',
    openFATXPartition env malloc nDriveIndex partitionOffset partitionSize reads =
      some (some p, reads') →
    Magic env nDriveIndex partitionOffset ∧
      read (tail p.clusterChainMap) 0 (tableSize partitionSize) =
        storedTable env nDriveIndex partitionOffset partitionSize

theorem length_storedTable :
    (storedTable env nDriveIndex partitionOffset partitionSize).length = tableSize partitionSize := by
  unfold storedTable sectorsFor
  rw [List.length_take, length_sectors]
  omega

theorem table_sector : partitionOffset + (fatxPartitionHeaderSize.toUInt64 / 512).toUInt32 =
    partitionOffset + 8 := rfl

theorem signed_of_lt {x : UInt32} (h : x.toNat < 2 ^ 31) : signed x = (x.toNat : Int) := if_pos h

theorem signed_of_ge {x : UInt32} (h : ¬ x.toNat < 2 ^ 31) : signed x < 0 := by
  have hx := x.toNat_lt
  unfold signed
  rw [if_neg h]
  omega

/-- Memory that differs from every byte of the table. -/
def otherMemory (l : List UInt8) : Int → UInt8 := fun i => l.getD i.toNat 0 + 1

/-- Where a cell behind what was read lies in the table, the table is not the stored one. -/
theorem table_ne {l : List UInt8} {n k : Nat} (hn : l.length = n) (hk : k < n) (a : Nat → UInt8)
    (ha : a k = otherMemory l k) : read a 0 n ≠ l := by
  intro h
  have hcell := getElem?_read a 0 n k hk
  rw [h, Nat.zero_add, ha, List.getElem?_eq_getElem (by omega)] at hcell
  have hne := Option.some.inj hcell
  unfold otherMemory at hne
  rw [Int.toNat_natCast, List.getD_eq_getElem?_getD, List.getElem?_eq_getElem (by omega),
    Option.getD_some] at hne
  have hbyte := congrArg UInt8.toNat hne
  rw [UInt8.toNat_add, show (1 : UInt8).toNat = 1 from rfl] at hbyte
  have hlt := l[k].toNat_lt
  omega

variable {env nDriveIndex partitionOffset partitionSize reads}

theorem ReturnsTable.of_tableRead
    (h : HeaderRead env nDriveIndex partitionOffset reads → TableRead env partitionSize reads) :
    ReturnsTable env nDriveIndex partitionOffset partitionSize reads := by
  intro malloc p reads' hopen
  by_cases hheader : HeaderRead env nDriveIndex partitionOffset reads
  · refine ⟨hheader.2, ?_⟩
    have htable := h hheader
    rw [openFATXPartition_eq _ _ _ _ _ _ hheader] at hopen
    split at hopen
    · cases hopen
    cases hwords : malloc (reads + 8) (tableSize32 partitionSize) with
    | none =>
      rw [hwords] at hopen
      cases hopen
    | some words =>
      rw [hwords, Option.elim_some] at hopen
      obtain ⟨r, hread, hr⟩ := Option.map_eq_some_iff.1 hopen
      cases hr
      show read (tail (withTail words r.2.1)) 0 _ = _
      rw [tail_withTail]
      unfold TableRead at htable
      split at htable
      · rename_i hlt
        obtain ⟨hsize, hok⟩ := htable
        rw [signed_of_lt hlt, hsize, fatxRawRead_ok _ _ _ _ (by decide) _ _ _ hok,
          table_sector] at hread
        cases hread
        show read (write (tail words) 0
          (storedTable env nDriveIndex partitionOffset partitionSize)) 0 _ = _
        exact read_write_of_length
          (length_storedTable env nDriveIndex partitionOffset partitionSize)
      · rename_i hge
        rw [fatxRawRead_negative _ _ _ (by decide) (signed_of_ge hge), htable] at hread
        cases hread
  · obtain ⟨reads'', hnull⟩ := openFATXPartition_null env malloc nDriveIndex partitionOffset
      partitionSize reads hheader
    rw [hnull] at hopen
    cases hopen

/-- Whatever is read into it, the partition is returned. -/
theorem openFATXPartition_some (hheader : HeaderRead env nDriveIndex partitionOffset reads)
    (m : Int → UInt8) {r : Int × (Nat → UInt8) × Nat}
    (hread : fatxRawRead env nDriveIndex partitionOffset fatxPartitionHeaderSize.toUInt64
      (signed (tableSize32 partitionSize)) (tail m) (reads + 8) = some r) :
    openFATXPartition env (fun _ _ => some m) nDriveIndex partitionOffset partitionSize reads =
      some (some (withTable nDriveIndex partitionOffset partitionSize m r.2.1), r.2.2) := by
  rw [openFATXPartition_eq _ _ _ _ _ _ hheader]
  simp only [Option.isNone_some, Bool.false_eq_true, if_false, Option.elim_some]
  rw [hread]
  rfl

/-- Memory that the read of the table leaves alone is found out. -/
theorem ReturnsTable.cell_read (h : ReturnsTable env nDriveIndex partitionOffset partitionSize reads)
    (hheader : HeaderRead env nDriveIndex partitionOffset reads) {r : Int × (Nat → UInt8) × Nat}
    {k : Nat} (hk : k < tableSize partitionSize)
    (hread : fatxRawRead env nDriveIndex partitionOffset fatxPartitionHeaderSize.toUInt64
      (signed (tableSize32 partitionSize))
      (tail (otherMemory (storedTable env nDriveIndex partitionOffset partitionSize))) (reads + 8) =
        some r)
    (hcell : r.2.1 k = tail (otherMemory (storedTable env nDriveIndex partitionOffset
      partitionSize)) k) : False := by
  obtain ⟨-, htable⟩ := h _ _ _ (openFATXPartition_some hheader _ hread)
  refine table_ne (length_storedTable env nDriveIndex partitionOffset partitionSize) hk _ ?_ htable
  show tail (withTail _ r.2.1) k = _
  rw [tail_withTail]
  exact hcell

section
variable (h : ReturnsTable env nDriveIndex partitionOffset partitionSize reads)
  (hheader : HeaderRead env nDriveIndex partitionOffset reads)

include h hheader

/-- The size of the table is not cut off: one that is too short ends in front of memory. -/
theorem ReturnsTable.size_eq (hlt : (tableSize32 partitionSize).toNat < 2 ^ 31)
    (hok : ∀ i, i < sectorsFor (tableSize32 partitionSize).toNat → env.fails (reads + 8 + i) = false) :
    (tableSize32 partitionSize).toNat = tableSize partitionSize := by
  have hle := tableSize32_le partitionSize
  by_contra hne
  have hread := fatxRawRead_ok env nDriveIndex partitionOffset fatxPartitionHeaderSize.toUInt64
    (by decide) (tableSize32 partitionSize).toNat
    (tail (otherMemory (storedTable env nDriveIndex partitionOffset partitionSize)))
    (reads + 8) hok
  rw [← signed_of_lt hlt] at hread
  refine h.cell_read hheader (Nat.lt_of_le_of_ne hle hne) hread ?_
  show write _ 0 _ _ = _
  refine write_of_ge _ _ _ _ ?_
  rw [List.length_take]
  omega

/-- No sector fails: the first read that does leaves its sector alone. -/
theorem ReturnsTable.reads_ok (hlt : (tableSize32 partitionSize).toNat < 2 ^ 31) :
    ∀ i, i < sectorsFor (tableSize32 partitionSize).toNat → env.fails (reads + 8 + i) = false := by
  have hle := tableSize32_le partitionSize
  by_contra hok
  have hfails : ∃ i, i < sectorsFor (tableSize32 partitionSize).toNat ∧
      env.fails (reads + 8 + i) = true := by
    simpa only [not_forall, exists_prop, Bool.not_eq_false] using hok
  have hbefore := fun i => Nat.find_min hfails (m := i)
  obtain ⟨hn, hf⟩ := Nat.find_spec hfails
  generalize Nat.find hfails = n at hbefore hn hf
  have hread := fatxRawRead_first_failure env nDriveIndex partitionOffset
    (show fatxPartitionHeaderSize.toUInt64.toNat % 512 = 0 by decide)
    (tail (otherMemory (storedTable env nDriveIndex partitionOffset partitionSize))) hn
    (fun i hi => Bool.eq_false_of_not_eq_true fun ht =>
      hbefore i hi ⟨Nat.lt_trans hi hn, ht⟩) hf
  rw [← signed_of_lt hlt] at hread
  refine h.cell_read hheader (k := 512 * n) ?_ hread ?_
  · unfold sectorsFor at hn
    omega
  · show write _ 0 _ _ = _
    exact write_of_ge _ _ _ _ (by rw [length_sectors]; omega)

theorem ReturnsTable.tableRead : TableRead env partitionSize reads := by
  have hle := tableSize32_le partitionSize
  unfold TableRead
  split
  · rename_i hlt
    have hok := h.reads_ok hheader hlt
    have hsize := h.size_eq hheader hlt hok
    rw [hsize] at hok
    exact ⟨hsize, hok⟩
  · rename_i hge
    by_contra hf
    rw [Bool.not_eq_false] at hf
    have hread := fatxRawRead_negative env nDriveIndex partitionOffset
      (show fatxPartitionHeaderSize.toUInt64.toNat % 512 = 0 by decide) (signed_of_ge hge)
      (tail (otherMemory (storedTable env nDriveIndex partitionOffset partitionSize))) (reads + 8)
    rw [hf, if_pos rfl] at hread
    exact h.cell_read hheader (k := 0) (by omega) hread rfl

end

/-! ## Top theorem -/

/-- **The map of an opened partition.**  That a partition returned holds its table
hangs on the reads of the table and on its size. -/
theorem openFATXPartition_iff :
    ReturnsTable env nDriveIndex partitionOffset partitionSize reads ↔
      (HeaderRead env nDriveIndex partitionOffset reads → TableRead env partitionSize reads) :=
  ⟨ReturnsTable.tableRead, ReturnsTable.of_tableRead⟩

end

/-- A partition at sector 0 whose table, the ninth sector read, cannot be read. -/
def unreadableTable : Env where
  sector _ block := paddedSector (if block = 0 then [0x46, 0x41, 0x54, 0x58] else []) 0
  fails reads := reads == 8
  stack _ _ := 0

theorem unreadable_table_returned : ¬ ReturnsTable unreadableTable 0 0 0x10000 0 := by
  intro h
  have hheader : HeaderRead unreadableTable 0 0 0 := by
    refine ⟨fun i hi => ?_, rfl⟩
    show (0 + i == 8) = false
    rw [beq_eq_false_iff_ne]
    omega
  have htable := h.tableRead hheader
  unfold TableRead at htable
  rw [if_pos (by decide)] at htable
  exact Bool.noConfusion (htable.2 0 (by decide))

end Gentoox.Fatx
