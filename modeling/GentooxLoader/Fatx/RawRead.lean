import GentooxLoader.Base.Cells
import GentooxLoader.Ide.Sector

/-!
# Raw reads (FATXRawRead)

`fatxRawRead` reads a range of bytes sector by sector and gives up at the first
sector that cannot be read; it then returns 0 (`false`) with the sectors before
it already in the buffer.  From a sector boundary:

    fatxRawRead_ok         no read fails: the bytes of the range, nothing beyond
    fatxRawRead_fail       one fails: 0

Inside a sector the bytes come from an array that nothing was read into:

    fatxRawRead_bytes_iff  the bytes asked for ↔ the offset is that of a sector

What a run depends on and the program does not decide (the contents of the
drives, which reads fail, what an uninitialised array holds) is an `Env`.
-/

namespace Gentoox.Fatx

open Cells Ide

/-! ## Algorithm -/

structure Env where
  sector : Int → UInt32 → Sector
  /-- Whether the call of `BootIdeReadSector` after `reads` others fails. -/
  fails : Nat → Bool
  /-- What an array declared after `reads` calls holds. -/
  stack : Nat → Nat → UInt8

/-- `BootIdeReadSector(drive, buf, block, 0, nBytes)` after `reads` others: the
status and the bytes stored to `buf`. -/
def Env.readSector (env : Env) (reads : Nat) (drive : Int) (block : UInt32) (nBytes : Nat) :
    Int × List UInt8 :=
  if env.fails reads then (1, []) else (0, (env.sector drive block).val.take nBytes)

/-- The variables of `FATXRawRead`; `ptr` is how far `buf` has moved. -/
structure RawRead where
  sector : UInt32
  byteOffset : Nat
  byteLen : Int
  byteRead : Int
  ptr : Nat
  buf : Nat → UInt8
  reads : Nat

/-- The `while(byte_len)` loop; `none` where the size of a `memcpy` is negative. -/
def rawReadLoop (env : Env) (drive : Int) : Nat → RawRead → Option (Int × (Nat → UInt8) × Nat)
  | 0, _ => none
  | fuel + 1, s =>
    if s.byteLen = 0 then some (s.byteRead, s.buf, s.reads)
    else
      let nThisTime := if s.byteLen < 512 then s.byteLen else 512
      if s.byteOffset ≠ 0 then
        let (status, data) := env.readSector s.reads drive s.sector 512
        let buf := write s.buf s.ptr data
        if status ≠ 0 then some (0, buf, s.reads + 1)
        else if nThisTime < s.byteOffset then none
        else
          -- the copy is from the array `ba`, which nothing was read into
          let n := (nThisTime - s.byteOffset).toNat
          rawReadLoop env drive fuel
            ⟨s.sector + 1, 0, s.byteLen - n, s.byteRead + n, s.ptr + n,
              copy buf s.ptr (env.stack s.reads) s.byteOffset n, s.reads + 1⟩
      else
        let (status, data) := env.readSector s.reads drive s.sector nThisTime.toNat
        let buf := write s.buf s.ptr data
        if status ≠ 0 then some (0, buf, s.reads + 1)
        else if nThisTime < 0 then none
        else
          rawReadLoop env drive fuel
            ⟨s.sector + 1, 0, s.byteLen - nThisTime, s.byteRead + nThisTime,
              s.ptr + nThisTime.toNat, buf, s.reads + 1⟩

/-- The return value, the buffer and the number of sector reads so far. -/
def fatxRawRead (env : Env) (drive : Int) (sector : UInt32) (byteOffset : UInt64) (byteLen : Int)
    (buf : Nat → UInt8) (reads : Nat) : Option (Int × (Nat → UInt8) × Nat) :=
  rawReadLoop env drive (byteLen.toNat + 2)
    ⟨sector + (byteOffset / 512).toUInt32, (byteOffset % 512).toNat, byteLen, 0, 0, buf, reads⟩

/-! ## The bus below -/

/-- A failed `BootIdeReadSector` stores nothing. -/
theorem bootIdeReadSector_error {packetRead : PacketRead} {info : Int → HarddiskInfo} {fuel : Nat}
    {b b' : Bus} {n status : Int} {block : UInt32} {byteOffset nBytes : Nat} {data : List UInt8}
    (ha : (info n).fAtapi = false)
    (h : bootIdeReadSector packetRead info fuel b n block byteOffset nBytes = some (status, data, b'))
    (hs : status ≠ 0) : data = [] := by
  unfold bootIdeReadSector at h
  simp only [ha, Bool.false_eq_true, if_false] at h
  generalize (if block ≥ 0x10000000 then ideCmdReadExt else ideCmdReadMultiRetry) = c at h
  split at h
  · cases h; rfl
  split at h
  · cases h; rfl
  split at h
  · cases h
  split at h
  · cases h; rfl
  split at h
  · cases h
  split at h <;> cases h <;> exact absurd rfl hs

/-- On a drive in LBA mode a read of the bus is a read of the environment with
the drive's sectors. -/
theorem readSector_bus (packetRead : PacketRead) {info : Int → HarddiskInfo} (fuel : Nat) (b : Bus)
    {n : Int} (hn : n = 0 ∨ n = 1) (hx : (info n).fDriveExists = true)
    (hlba : (info n).bLbaMode ≠ ideDhChs) {block : UInt32}
    (hcap : block.toNat < (b.drives (driveOf n)).capacity) (ha : (info n).fAtapi = false)
    {env : Env} {reads : Nat} (hsec : env.sector n block = (b.drives (driveOf n)).sector block.toNat)
    (hok : env.fails reads = false) (nBytes : Nat) : ∃ b' : Bus, b'.drives = b.drives ∧
      bootIdeReadSector packetRead info fuel b n block 0 nBytes =
        some ((env.readSector reads n block nBytes).1, (env.readSector reads n block nBytes).2, b') := by
  obtain ⟨b', hb', h⟩ := bootIdeReadSector_eq packetRead fuel b hn hx hlba hcap ha 0 nBytes
  refine ⟨b', hb', ?_⟩
  rw [h]
  simp only [Env.readSector, hok, Bool.false_eq_true, if_false, hsec, List.drop_zero]
  by_cases h512 : nBytes = 512
  · subst h512
    rw [if_neg (by decide), List.take_of_length_le (by rw [length_sector])]
  · rw [if_pos h512]

/-! ## Reading from a sector boundary -/

/-- The bytes of `n` sectors of a drive. -/
def Env.sectors (env : Env) (drive : Int) : UInt32 → Nat → List UInt8
  | _, 0 => []
  | s, n + 1 => (env.sector drive s).val ++ env.sectors drive (s + 1) n

@[simp] theorem length_sectors (env : Env) (drive : Int) (s : UInt32) (n : Nat) :
    (env.sectors drive s n).length = 512 * n := by
  induction n generalizing s with
  | zero => rfl
  | succ n ih =>
    rw [Env.sectors, List.length_append, ih, length_sector]
    omega

/-- The number of sectors `len` bytes reach into. -/
def sectorsFor (len : Nat) : Nat := (len + 511) / 512

theorem sectors_step (env : Env) (drive : Int) (s : UInt32) (len : Nat) (h : len ≠ 0) :
    (env.sectors drive s (sectorsFor len)).take len =
      (env.sector drive s).val.take (min len 512) ++
        (env.sectors drive (s + 1) (sectorsFor (len - min len 512))).take (len - min len 512) := by
  have hn : sectorsFor len = sectorsFor (len - min len 512) + 1 := by
    unfold sectorsFor
    omega
  have hfirst : (env.sector drive s).val.take len = (env.sector drive s).val.take (min len 512) := by
    rw [List.take_eq_take_iff, length_sector]
    omega
  rw [hn, Env.sectors, List.take_append, length_sector, hfirst, show len - 512 = len - min len 512 by omega]

/-- One turn of the loop on a sector boundary. -/
theorem rawReadLoop_aligned (env : Env) (drive : Int) (fuel : Nat) (sec : UInt32) (len : Nat)
    (hlen : len ≠ 0) (got : Int) (ptr : Nat) (buf : Nat → UInt8) (reads : Nat) :
    rawReadLoop env drive (fuel + 1) ⟨sec, 0, len, got, ptr, buf, reads⟩ =
      if env.fails reads then some (0, buf, reads + 1)
      else rawReadLoop env drive fuel
        ⟨sec + 1, 0, (len - min len 512 : Nat), got + (min len 512 : Nat), ptr + min len 512,
          write buf ptr ((env.sector drive sec).val.take (min len 512)), reads + 1⟩ := by
  have hthis : (if (len : Int) < 512 then (len : Int) else 512) = (min len 512 : Nat) := by
    split <;> omega
  rw [rawReadLoop]
  simp only [hthis, Int.toNat_natCast, ne_eq, not_true_eq_false, if_false]
  rw [if_neg (by omega), show (len : Int) - (min len 512 : Nat) = (len - min len 512 : Nat) by omega]
  cases hf : env.fails reads with
  | true => simp [Env.readSector, hf]
  | false =>
    simp only [Env.readSector, hf, Bool.false_eq_true, if_false, not_true_eq_false]
    rw [if_neg (by omega)]

theorem rawReadLoop_ok (env : Env) (drive : Int) : ∀ (fuel : Nat) (sec : UInt32) (len : Nat)
    (got : Int) (ptr : Nat) (buf : Nat → UInt8) (reads : Nat), len < fuel →
    (∀ i, i < sectorsFor len → env.fails (reads + i) = false) →
    rawReadLoop env drive fuel ⟨sec, 0, len, got, ptr, buf, reads⟩ =
      some (got + len, write buf ptr ((env.sectors drive sec (sectorsFor len)).take len),
        reads + sectorsFor len) := by
  intro fuel
  induction fuel with
  | zero =>
    intro sec len got ptr buf reads h
    omega
  | succ fuel ih =>
    intro sec len got ptr buf reads hfuel hok
    by_cases hlen : len = 0
    · subst hlen
      simp [rawReadLoop, sectorsFor]
    · have hn : sectorsFor len = sectorsFor (len - min len 512) + 1 := by
        unfold sectorsFor
        omega
      have h0 : env.fails reads = false := by simpa using hok 0 (by omega)
      rw [rawReadLoop_aligned env drive fuel sec len hlen, h0, if_neg (by decide), ih _ _ _ _ _ _
        (by omega), sectors_step env drive sec len hlen, write_append]
      · have hl : ((env.sector drive sec).val.take (min len 512)).length = min len 512 := by
          rw [List.length_take, length_sector]
          omega
        rw [hl, hn]
        congr 2
        · omega
        · congr 1
          omega
      · intro i hi
        rw [show reads + 1 + i = reads + (i + 1) by omega]
        exact hok (i + 1) (by omega)

theorem rawReadLoop_fail (env : Env) (drive : Int) : ∀ (fuel : Nat) (sec : UInt32) (len : Nat)
    (got : Int) (ptr : Nat) (buf : Nat → UInt8) (reads : Nat), len < fuel →
    (∃ i, i < sectorsFor len ∧ env.fails (reads + i) = true) →
    ∃ n buf', rawReadLoop env drive fuel ⟨sec, 0, len, got, ptr, buf, reads⟩ =
        some (0, buf', reads + n + 1) ∧ env.fails (reads + n) = true ∧
      ∀ i, i < ptr ∨ ptr + len ≤ i → buf' i = buf i := by
  intro fuel
  induction fuel with
  | zero =>
    intro sec len got ptr buf reads h
    omega
  | succ fuel ih =>
    rintro sec len got ptr buf reads hfuel ⟨i, hi, hf⟩
    have hlen : len ≠ 0 := by
      rintro rfl
      simp [sectorsFor] at hi
    rw [rawReadLoop_aligned env drive fuel sec len hlen]
    cases h0 : env.fails reads with
    | true => exact ⟨0, buf, by simp, h0, fun _ _ => rfl⟩
    | false =>
      have hi0 : i ≠ 0 := by
        rintro rfl
        rw [Nat.add_zero, h0] at hf
        cases hf
      obtain ⟨n, buf', he, hn, hb⟩ := ih (sec + 1) (len - min len 512) (got + (min len 512 : Nat))
        (ptr + min len 512) (write buf ptr ((env.sector drive sec).val.take (min len 512)))
        (reads + 1) (by omega) ⟨i - 1, by unfold sectorsFor at hi ⊢; omega,
          by rw [show reads + 1 + (i - 1) = reads + i by omega]; exact hf⟩
      refine ⟨n + 1, buf', ?_, ?_, ?_⟩
      · rw [if_neg (by decide), he]
        congr 3
        omega
      · rw [← hn]
        congr 1
        omega
      · intro j hj
        rw [hb j (by omega), write_of_outside]
        rw [List.length_take, length_sector]
        omega

section
variable (env : Env) (drive : Int) (sector : UInt32) (byteOffset : UInt64)
  (halign : byteOffset.toNat % 512 = 0) (len : Nat) (buf : Nat → UInt8) (reads : Nat)

include halign

/-- **No read fails.**  The bytes of the range are stored and nothing beyond them. -/
theorem fatxRawRead_ok (hok : ∀ i, i < sectorsFor len → env.fails (reads + i) = false) :
    fatxRawRead env drive sector byteOffset len buf reads =
      some ((len : Int), write buf 0 ((env.sectors drive (sector + (byteOffset / 512).toUInt32)
        (sectorsFor len)).take len), reads + sectorsFor len) := by
  have h0 : (byteOffset % 512).toNat = 0 := by
    rw [UInt64.toNat_mod]
    exact halign
  unfold fatxRawRead
  rw [h0, rawReadLoop_ok env drive _ _ _ _ _ _ _ (by simp) hok, Int.zero_add]

/-- **A read fails.**  The call returns 0 right after it. -/
theorem fatxRawRead_fail (hf : ∃ i, i < sectorsFor len ∧ env.fails (reads + i) = true) :
    ∃ n buf', fatxRawRead env drive sector byteOffset len buf reads =
        some (0, buf', reads + n + 1) ∧ env.fails (reads + n) = true ∧
      ∀ i, len ≤ i → buf' i = buf i := by
  have h0 : (byteOffset % 512).toNat = 0 := by
    rw [UInt64.toNat_mod]
    exact halign
  unfold fatxRawRead
  rw [h0]
  obtain ⟨n, buf', he, hn, hb⟩ := rawReadLoop_fail env drive ((len : Int).toNat + 2)
    (sector + (byteOffset / 512).toUInt32) len 0 0 buf reads (by simp) hf
  exact ⟨n, buf', he, hn, fun i hi => hb i (by omega)⟩

end

/-! ## Reading from any offset -/

/-- The first turn where the offset is not on a sector boundary: the sector goes
to the buffer, and over it what the array `ba` happens to hold. -/
theorem rawReadLoop_unaligned (env : Env) (drive : Int) (fuel : Nat) (sec : UInt32) {off len : Nat}
    (hoff : off ≠ 0) (hlen : len ≠ 0) (got : Int) (buf : Nat → UInt8) {reads : Nat}
    (hok : env.fails reads = false) :
    rawReadLoop env drive (fuel + 1) ⟨sec, off, len, got, 0, buf, reads⟩ =
      if min len 512 < off then none
      else rawReadLoop env drive fuel
        ⟨sec + 1, 0, (len - (min len 512 - off) : Nat), got + (min len 512 - off : Nat),
          min len 512 - off, copy (write buf 0 (env.sector drive sec).val) 0 (env.stack reads) off
            (min len 512 - off), reads + 1⟩ := by
  have hthis : (if (len : Int) < 512 then (len : Int) else 512) = (min len 512 : Nat) := by
    split <;> omega
  have hdata : (env.sector drive sec).val.take 512 = (env.sector drive sec).val :=
    List.take_of_length_le (by rw [length_sector])
  rw [rawReadLoop]
  simp only [hthis]
  rw [if_neg (by omega), if_pos hoff]
  simp only [Env.readSector, hok, Bool.false_eq_true, if_false, not_true_eq_false, ne_eq, hdata]
  by_cases hlt : min len 512 < off
  · rw [if_pos (by omega), if_pos hlt]
  · have hn : (((min len 512 : Nat) : Int) - off).toNat = min len 512 - off := by omega
    have hleft : (len : Int) - (min len 512 - off : Nat) = (len - (min len 512 - off) : Nat) := by
      omega
    rw [if_neg (by omega), if_neg hlt, hn, Nat.zero_add, hleft]

/-- The bytes that are stored on the drive from an offset on.  (A sector number
has 32 bits.) -/
def Env.bytes (env : Env) (drive : Int) (sector : UInt32) (byteOffset : UInt64) (len : Nat) :
    List UInt8 :=
  ((env.sectors drive (sector + (byteOffset / 512).toUInt32)
    (sectorsFor ((byteOffset % 512).toNat + len))).drop (byteOffset % 512).toNat).take len

/-- The call returns the length, the bytes are in the buffer, and nothing behind
them has changed, whatever was in the buffer and on the stack. -/
def ReadsBytes (env : Env) (drive : Int) (sector : UInt32) (byteOffset : UInt64) (len : Nat) :
    Prop :=
  ∀ stack buf reads, ∃ buf' reads',
    fatxRawRead { env with stack } drive sector byteOffset len buf reads =
      some ((len : Int), buf', reads') ∧
    read buf' 0 len = env.bytes drive sector byteOffset len ∧ ∀ i, len ≤ i → buf' i = buf i

section
variable {env : Env} {drive : Int} {sector : UInt32} {byteOffset : UInt64} {len : Nat}

theorem length_bytes : (env.bytes drive sector byteOffset len).length = len := by
  unfold Env.bytes sectorsFor
  rw [List.length_take, List.length_drop, length_sectors]
  omega

theorem ReadsBytes.of_aligned (hok : ∀ i, env.fails i = false)
    (halign : byteOffset.toNat % 512 = 0) : ReadsBytes env drive sector byteOffset len := by
  intro stack buf reads
  have h0 : (byteOffset % 512).toNat = 0 := by
    rw [UInt64.toNat_mod]
    exact halign
  have hsectors : ∀ (s : UInt32) (n : Nat),
      Env.sectors { env with stack } drive s n = env.sectors drive s n := by
    intro s n
    induction n generalizing s with
    | zero => rfl
    | succ n ih => exact congrArg _ (ih (s + 1))
  have hread := fatxRawRead_ok { env with stack } drive sector byteOffset halign len buf reads
    fun i _ => hok _
  rw [hsectors] at hread
  have hbytes : (env.sectors drive (sector + (byteOffset / 512).toUInt32) (sectorsFor len)).take len =
      env.bytes drive sector byteOffset len := by
    unfold Env.bytes
    rw [h0, List.drop_zero, Nat.zero_add]
  rw [hbytes] at hread
  exact ⟨_, _, hread, read_write_of_length length_bytes,
    fun i hi => write_of_ge _ _ _ _ (by rw [length_bytes, Nat.zero_add]; exact hi)⟩

theorem ReadsBytes.of_empty (h : len = 0) : ReadsBytes env drive sector byteOffset len := by
  subst h
  exact fun stack buf reads => ⟨buf, reads, rfl, rfl, fun _ _ => rfl⟩

/-- What a call leaves in the buffer for an offset inside a sector. -/
theorem fatxRawRead_unaligned (env : Env) (drive : Int) (sector : UInt32) {byteOffset : UInt64}
    {len : Nat} (hok : ∀ i, env.fails i = false) (hoff : (byteOffset % 512).toNat ≠ 0)
    (hlen : len ≠ 0) (buf : Nat → UInt8) (reads : Nat) :
    fatxRawRead env drive sector byteOffset len buf reads = none ∨
    ∃ n rest reads', n = min len 512 - (byteOffset % 512).toNat ∧
      fatxRawRead env drive sector byteOffset len buf reads =
        some ((len : Int), write (copy
          (write buf 0 (env.sector drive (sector + (byteOffset / 512).toUInt32)).val) 0
          (env.stack reads) (byteOffset % 512).toNat n) n rest, reads') ∧
      rest.length = len - n := by
  have hturn := rawReadLoop_unaligned env drive (len + 1) (sector + (byteOffset / 512).toUInt32)
    hoff hlen 0 buf (hok reads)
  unfold fatxRawRead
  rw [Int.toNat_natCast, show len + 2 = len + 1 + 1 from rfl, hturn]
  split
  · exact .inl rfl
  · rw [rawReadLoop_ok env drive _ _ _ _ _ _ _ (by omega) fun _ _ => hok _]
    generalize hn : min len 512 - (byteOffset % 512).toNat = n
    have hgot : (0 : Int) + (n : Nat) + (len - n : Nat) = len := by omega
    rw [hgot]
    refine .inr ⟨n, _, _, rfl, rfl, ?_⟩
    unfold sectorsFor
    rw [List.length_take, length_sectors]
    omega

theorem ne_add_one (b : UInt8) : b ≠ b + 1 := by
  intro hb
  have hn := congrArg UInt8.toNat hb
  rw [UInt8.toNat_add, show (1 : UInt8).toNat = 1 from rfl] at hn
  have := b.toNat_lt
  omega

/-- Where nothing is copied 512 bytes have been stored, the last of them behind the array. -/
theorem stored_behind {l : List UInt8} {len : Nat} (hlen : len < l.length) (rest : List UInt8)
    (hrest : rest.length = len) (src : Nat → UInt8) (a : Nat) :
    let buf : Nat → UInt8 := fun i => l.getD i 0 + 1
    write (copy (write buf 0 l) 0 src a 0) 0 rest len ≠ buf len := by
  intro buf hcell
  rw [write_of_ge _ _ _ _ (by omega)] at hcell
  have hstored : write buf 0 l len = l.getD len 0 := by
    have happly := write_apply buf 0 l len hlen
    rw [Nat.zero_add] at happly
    rw [happly, List.getD_eq_getElem?_getD, List.getElem?_eq_getElem hlen, Option.getD_some]
  exact ne_add_one _ (hstored.symm.trans hcell)

/-- Where some bytes are copied the first one comes from the stack. -/
theorem copied_first (m src : Nat → UInt8) (a : Nat) {n : Nat} (hn : n ≠ 0) (rest : List UInt8) :
    write (copy m 0 src a n) n rest 0 = src a := by
  rw [write_of_lt _ _ _ _ (Nat.pos_of_ne_zero hn)]
  have happly := write_apply m 0 (read src a n) 0 (by rw [length_read]; omega)
  rw [getElem_read] at happly
  exact happly

theorem ReadsBytes.aligned (hok : ∀ i, env.fails i = false)
    (h : ReadsBytes env drive sector byteOffset len) (hlen : len ≠ 0) :
    byteOffset.toNat % 512 = 0 := by
  by_contra hoff
  have hmod : (byteOffset % 512).toNat = byteOffset.toNat % 512 := UInt64.toNat_mod ..
  have hne : (byteOffset % 512).toNat ≠ 0 := by omega
  -- memory that differs from all that could rightly be there
  let sec := env.sector drive (sector + (byteOffset / 512).toUInt32)
  let stack : Nat → Nat → UInt8 :=
    fun _ _ => (env.bytes drive sector byteOffset len).getD 0 0 + 1
  let buf : Nat → UInt8 := fun i => sec.val.getD i 0 + 1
  obtain ⟨buf', reads', hread, hbytes, hframe⟩ := h stack buf 0
  rcases fatxRawRead_unaligned { env with stack } drive sector hok hne hlen buf 0 with
    hnone | ⟨n, rest, reads'', hn, hsome, hrest⟩
  · rw [hnone] at hread
    cases hread
  rw [hsome] at hread
  obtain ⟨rfl, -⟩ : _ = buf' ∧ _ := by
    simpa only [Option.some.injEq, Prod.mk.injEq, true_and] using hread
  by_cases hzero : n = 0
  · subst hzero
    have hlen512 : len < sec.val.length := by
      rw [length_sector]
      omega
    exact stored_behind hlen512 rest (by omega) _ _ (hframe len (Nat.le_refl len))
  · have hfirst := getElem?_read (write (copy (write buf 0 sec.val) 0 (stack 0)
      (byteOffset % 512).toNat n) n rest) 0 len 0 (Nat.pos_of_ne_zero hlen)
    rw [hbytes, Nat.zero_add, copied_first _ _ _ hzero] at hfirst
    have hval := congrArg (·.getD 0) hfirst
    exact ne_add_one _ (List.getD_eq_getElem?_getD.trans hval)

/-- **Raw reads.**  With no read failing, the bytes from `sector` and
`byteOffset` on are returned exactly when the offset is that of a sector, unless
nothing is asked for. -/
theorem fatxRawRead_bytes_iff (env : Env) (hok : ∀ i, env.fails i = false) (drive : Int)
    (sector : UInt32) (byteOffset : UInt64) (len : Nat) :
    ReadsBytes env drive sector byteOffset len ↔ byteOffset.toNat % 512 = 0 ∨ len = 0 := by
  constructor
  · intro h
    by_cases hlen : len = 0
    · exact .inr hlen
    · exact .inl (h.aligned hok hlen)
  · rintro (halign | hlen)
    · exact .of_aligned hok halign
    · exact .of_empty hlen

end

/-- Drives full of zeros. -/
def zeroDisk : Env where
  sector _ _ := ⟨(List.range 512).map fun _ => 0, by rw [List.length_map, List.length_range]⟩
  fails _ := false
  stack _ _ := 0

theorem fatxRawRead_bytes_iff_zero :
    ReadsBytes zeroDisk 0 0 1 1 ↔ (1 : UInt64).toNat % 512 = 0 ∨ (1 : Nat) = 0 :=
  fatxRawRead_bytes_iff zeroDisk (fun _ => rfl) 0 0 1 1

/-- The second byte of a drive. -/
theorem second_byte_not_read : ¬ ReadsBytes zeroDisk 0 0 1 1 := by
  intro h
  exact absurd (h.aligned (fun _ => rfl) (by decide)) (by decide)

end Gentoox.Fatx
