import Mathlib.Tactic.SplitIfs
import GentooxLoader.Ide.Bus

/-!
# Sector access (drivers/ide/BootIde.c)

`bootIdeReadSector` and `bootIdeWriteSector` encode a block number the same way,
but from block 2^28 on only the read switches to its 48-bit command.  The write
command left in place looks at the first level of the registers and at the low
nibble of drive/head, which is 0 there: it writes sector `block % 2^24`.

    bootIdeReadSector_eq     every block of the drive is read
    bootIdeWriteSector_eq    block, or block % 2^24 from 2^28 on, is written
    write_then_read_iff      writing does what it should ↔ block < 2^28, or both
                             sectors already hold the buffer

A result is `none` where the call does not come back (a division by zero, the
endless retry of a read).  The ATAPI half of `bootIdeReadSector` is a parameter.
-/

namespace Gentoox.Ide

/-! ## Algorithm -/

/-- `tsIdeCommandParams` -/
structure CommandParams where
  bPrecomp : UInt8
  bCountSector : UInt8
  bSector : UInt8
  wCylinder : UInt16
  bDrivehead : UInt8
  bCountSectorExt : UInt8
  bSectorExt : UInt8
  wCylinderExt : UInt16

def ideDhDefault : UInt8 := 0xA0
def ideDhSlave : UInt8 := 0x10
def ideDhMaster : UInt8 := 0x00
def ideDhLba : UInt8 := 0x40
def ideDhChs : UInt8 := 0x00
def ideDhHead (x : UInt32) : UInt8 := (x &&& 0x0F).toUInt8
def ideDhDrive (x : Int) : UInt8 := if x % 2 ≠ 0 then ideDhSlave else ideDhMaster

def ideDefaultCommand : CommandParams := ⟨0xFF, 0x01, 0x00, 0x0000, ideDhDefault ||| ideDhSlave, 0, 0, 0⟩

def ideCmdReadMultiRetry : UInt8 := 0x20
def ideCmdReadExt : UInt8 := 0x24
def ideCmdWriteMultiRetry : UInt8 := 0x30

/-- What sector access uses of `tsHarddiskInfo`. -/
structure HarddiskInfo where
  wCountHeads : UInt16
  wCountSectorsPerTrack : UInt16
  bLbaMode : UInt8
  fDriveExists : Bool
  fAtapi : Bool

def Bus.outSectorCount (b : Bus) (v : UInt8) : Bus := { b with sectorCount := b.sectorCount.push v }
def Bus.outSectorNumber (b : Bus) (v : UInt8) : Bus := { b with sectorNumber := b.sectorNumber.push v }
def Bus.outCylinderLsb (b : Bus) (v : UInt8) : Bus := { b with cylinderLsb := b.cylinderLsb.push v }
def Bus.outCylinderMsb (b : Bus) (v : UInt8) : Bus := { b with cylinderMsb := b.cylinderMsb.push v }
def Bus.outDriveHead (b : Bus) (v : UInt8) : Bus := { b with driveHead := v }
def Bus.outControl (b : Bus) (v : UInt8) : Bus := { b with control := v }

def bootIdeWaitNotBusy (b : Bus) : UInt8 := b.altStatus &&& 1

def bootIdeWaitDataReady (b : Bus) : Int :=
  if b.altStatus &&& 0x88 = 0x08 then if b.altStatus &&& 0x01 ≠ 0 then 2 else 0
  else if b.altStatus &&& 0x01 ≠ 0 then 2 else 1

def bootIdeIssueAtaCommand (b : Bus) (command : UInt8) (params : CommandParams) : Int × Bus :=
  -- 48-bit LBA
  let b := b.outSectorCount params.bCountSectorExt
  let b := b.outSectorNumber params.bSectorExt
  let b := b.outCylinderLsb (params.wCylinderExt &&& 0xFF).toUInt8
  let b := b.outCylinderMsb (params.wCylinderExt >>> 8).toUInt8
  -- End 48-bit LBA
  let b := b.outSectorCount params.bCountSector
  let b := b.outSectorNumber params.bSector
  let b := b.outCylinderLsb (params.wCylinder &&& 0xFF).toUInt8
  let b := b.outCylinderMsb (params.wCylinder >>> 8).toUInt8
  let b := b.outDriveHead params.bDrivehead
  let b := b.command command
  if bootIdeWaitNotBusy b ≠ 0 then (1, b) else (0, b)

/-- The status, the bytes stored to `buf` and the bus afterwards. -/
def bootIdeReadData (b : Bus) (size : Nat) : Int × List UInt8 × Bus :=
  if bootIdeWaitDataReady b ≠ 0 then (1, [], b)
  else
    let (ws, b) := b.inWords (size / 2)
    if b.altStatus &&& 0x01 ≠ 0 then (2, bytesOfWords ws, b) else (0, bytesOfWords ws, b)

def bootIdeWriteData (b : Bus) (buf : List UInt8) : Int × Bus :=
  let b := b.outWords (wordsOfBytes buf)
  if bootIdeWaitNotBusy b ≠ 0 then (1, b)
  else if b.altStatus &&& 0x01 ≠ 0 then (2, b) else (0, b)

/-- `while(1)` around `BootIdeReadData`. -/
def readRetry : Nat → Bus → Option (List UInt8 × Bus)
  | 0, _ => none
  | fuel + 1, b =>
    let (status, data, b) := bootIdeReadData b 512
    if status = 0 then some (data, b) else readRetry fuel b

/-- The register values for a block, the same text in both functions. -/
def encodeBlock (info : HarddiskInfo) (nDriveIndex : Int) (block : UInt32) : Option CommandParams :=
  let tsicp := { ideDefaultCommand with bCountSector := 1 }
  if block ≥ 0x10000000 then
    some { tsicp with
      bCountSectorExt := 0
      wCylinderExt := 0
      bSectorExt := ((block >>> 24) &&& 0xff).toUInt8
      wCylinder := ((block >>> 8) &&& 0xffff).toUInt16
      bSector := (block &&& 0xff).toUInt8
      bDrivehead := ideDhDrive nDriveIndex ||| ideDhLba }
  else if info.bLbaMode = ideDhChs then
    if info.wCountSectorsPerTrack = 0 ∨ info.wCountHeads = 0 then none
    else
      let track := block / info.wCountSectorsPerTrack.toUInt32
      some { tsicp with
        bSector := (1 + block % info.wCountSectorsPerTrack.toUInt32).toUInt8
        wCylinder := (track / info.wCountHeads.toUInt32).toUInt16
        bDrivehead := ideDhDefault ||| ideDhHead (track % info.wCountHeads.toUInt32) |||
          ideDhDrive nDriveIndex ||| ideDhChs }
  else
    some { tsicp with
      bSector := (block &&& 0xff).toUInt8
      wCylinder := ((block >>> 8) &&& 0xffff).toUInt16
      bDrivehead := ideDhDefault ||| ((block >>> 24) &&& 0x0f).toUInt8 |||
        ideDhDrive nDriveIndex ||| ideDhLba }

/-- The drive is selected before its parameters are looked at. -/
def selectDrive (b : Bus) (nDriveIndex : Int) : Bus :=
  b.outDriveHead (ideDhDefault ||| ideDhHead 0 ||| ideDhChs ||| ideDhDrive nDriveIndex)

def setControl (b : Bus) (info : HarddiskInfo) : Bus :=
  if info.wCountHeads > 8 then b.outControl 0x0a else b.outControl 0x02

/-- The ATAPI half of `BootIdeReadSector`. -/
abbrev PacketRead := Bus → Int → UInt32 → Nat → Option (Int × List UInt8 × Bus)

/-- The status, the bytes stored to `pbBuffer` and the bus afterwards. -/
def bootIdeReadSector (packetRead : PacketRead) (tsaHarddiskInfo : Int → HarddiskInfo) (fuel : Nat)
    (b : Bus) (nDriveIndex : Int) (block : UInt32) (byteOffset nBytes : Nat) :
    Option (Int × List UInt8 × Bus) :=
  let info := tsaHarddiskInfo nDriveIndex
  if ¬ info.fDriveExists then some (4, [], b)
  else
    let b := selectDrive b nDriveIndex
    if nDriveIndex < 0 ∨ nDriveIndex ≥ 2 then some (1, [], b)
    else if info.fAtapi then packetRead b nDriveIndex block nBytes
    else
      let b := setControl b info
      let ideReadCommand := if block ≥ 0x10000000 then ideCmdReadExt else ideCmdReadMultiRetry
      match encodeBlock info nDriveIndex block with
      | none => none
      | some tsicp =>
        let (n, b) := bootIdeIssueAtaCommand b ideReadCommand tsicp
        if n ≠ 0 then some (1, [], b)
        else
          match readRetry (fuel + 1) b with
          | none => none
          | some (baBufferSector, b) =>
            if nBytes ≠ 512 then some (0, (baBufferSector.drop byteOffset).take nBytes, b)
            else some (0, baBufferSector, b)

def bootIdeWriteSector (tsaHarddiskInfo : Int → HarddiskInfo) (b : Bus) (nDriveIndex : Int)
    (pbBuffer : Sector) (block : UInt32) : Option (Int × Bus) :=
  let info := tsaHarddiskInfo nDriveIndex
  if ¬ info.fDriveExists then some (4, b)
  else
    let b := selectDrive b nDriveIndex
    if nDriveIndex < 0 ∨ nDriveIndex ≥ 2 then some (1, b)
    else
      let b := setControl b info
      let ideWriteCommand := if block ≥ 0x10000000 then ideCmdWriteMultiRetry else ideCmdWriteMultiRetry
      match encodeBlock info nDriveIndex block with
      | none => none
      | some tsicp =>
        let (n, b) := bootIdeIssueAtaCommand b ideWriteCommand tsicp
        if n ≠ 0 then some (1, b)
        else
          let (status, b) := bootIdeWriteData b pbBuffer.val
          some (status, b)

/-! ## What the registers say -/

/-- The registers after the parameters of a command were written. -/
def Bus.load (b : Bus) (p : CommandParams) : Bus :=
  { b with
    sectorCount := ⟨p.bCountSectorExt, p.bCountSector⟩
    sectorNumber := ⟨p.bSectorExt, p.bSector⟩
    cylinderLsb := ⟨(p.wCylinderExt &&& 0xFF).toUInt8, (p.wCylinder &&& 0xFF).toUInt8⟩
    cylinderMsb := ⟨(p.wCylinderExt >>> 8).toUInt8, (p.wCylinder >>> 8).toUInt8⟩
    driveHead := p.bDrivehead }

theorem bootIdeIssueAtaCommand_eq (b : Bus) (c : UInt8) (p : CommandParams) :
    bootIdeIssueAtaCommand b c p =
      (if bootIdeWaitNotBusy ((b.load p).command c) ≠ 0 then 1 else 0, (b.load p).command c) := by
  have h : ∀ b' : Bus, b' = (b.load p).command c →
      (if bootIdeWaitNotBusy b' ≠ 0 then ((1 : Int), b') else (0, b')) =
        (if bootIdeWaitNotBusy ((b.load p).command c) ≠ 0 then 1 else 0, (b.load p).command c) := by
    rintro b' rfl
    split_ifs <;> rfl
  exact h _ rfl

section
variable (block : UInt32)

theorem low_byte : (block &&& 0xff).toUInt8.toNat = block.toNat % 2 ^ 8 := by
  rw [UInt32.toNat_toUInt8, UInt32.toNat_and]
  show (block.toNat &&& (2 ^ 8 - 1)) % 2 ^ 8 = _
  rw [Nat.and_two_pow_sub_one_eq_mod]
  omega

theorem cylinder_toNat :
    ((block >>> 8) &&& 0xffff).toUInt16.toNat = block.toNat / 2 ^ 8 % 2 ^ 16 := by
  rw [UInt32.toNat_toUInt16, UInt32.toNat_and, UInt32.toNat_shiftRight]
  show (block.toNat >>> 8 &&& (2 ^ 16 - 1)) % 2 ^ 16 = _
  rw [Nat.and_two_pow_sub_one_eq_mod, Nat.shiftRight_eq_div_pow]
  omega

theorem cylinderLsb_toNat : (((block >>> 8) &&& 0xffff).toUInt16 &&& 0xFF).toUInt8.toNat =
    block.toNat / 2 ^ 8 % 2 ^ 8 := by
  rw [UInt16.toNat_toUInt8, UInt16.toNat_and, cylinder_toNat]
  show (block.toNat / 2 ^ 8 % 2 ^ 16 &&& (2 ^ 8 - 1)) % 2 ^ 8 = _
  rw [Nat.and_two_pow_sub_one_eq_mod]
  omega

theorem cylinderMsb_toNat : (((block >>> 8) &&& 0xffff).toUInt16 >>> 8).toUInt8.toNat =
    block.toNat / 2 ^ 16 % 2 ^ 8 := by
  rw [UInt16.toNat_toUInt8, UInt16.toNat_shiftRight, cylinder_toNat]
  show (block.toNat / 2 ^ 8 % 2 ^ 16) >>> 8 % 2 ^ 8 = _
  rw [Nat.shiftRight_eq_div_pow]
  omega

theorem high_byte : ((block >>> 24) &&& 0xff).toUInt8.toNat = block.toNat / 2 ^ 24 := by
  have := block.toNat_lt
  rw [UInt32.toNat_toUInt8, UInt32.toNat_and, UInt32.toNat_shiftRight]
  show (block.toNat >>> 24 &&& (2 ^ 8 - 1)) % 2 ^ 8 = _
  rw [Nat.and_two_pow_sub_one_eq_mod, Nat.shiftRight_eq_div_pow]
  omega

theorem high_nibble : ((block >>> 24) &&& 0x0f).toUInt8.toNat = block.toNat / 2 ^ 24 % 16 := by
  rw [UInt32.toNat_toUInt8, UInt32.toNat_and, UInt32.toNat_shiftRight]
  show (block.toNat >>> 24 &&& (2 ^ 4 - 1)) % 2 ^ 8 = _
  rw [Nat.and_two_pow_sub_one_eq_mod, Nat.shiftRight_eq_div_pow]
  omega

end

/-- Which drive of the bus an index names. -/
def driveOf (nDriveIndex : Int) : Bool := nDriveIndex % 2 != 0

/-- The bits of the drive/head register with an address nibble in it. -/
theorem driveHead_bits : ∀ slave : Bool, ∀ x < 16,
    let dh := ideDhDefault ||| UInt8.ofNat x ||| (if slave then ideDhSlave else ideDhMaster) ||| ideDhLba
    (dh &&& 0x10 != 0) = slave ∧ (dh &&& 0x40 != 0) = true ∧ (dh &&& 0x0f).toNat = x := by
  decide

theorem driveHead_bits_ext : ∀ slave : Bool,
    let dh := (if slave then ideDhSlave else ideDhMaster) ||| ideDhLba
    (dh &&& 0x10 != 0) = slave ∧ (dh &&& 0x40 != 0) = true ∧ (dh &&& 0x0f).toNat = 0 := by
  decide

theorem ideDhDrive_eq (n : Int) :
    ideDhDrive n = if driveOf n then ideDhSlave else ideDhMaster := by
  unfold ideDhDrive driveOf
  by_cases h : n % 2 = 0 <;> simp [h]

section
variable {info : HarddiskInfo} {n : Int} {block : UInt32} {p : CommandParams}
  (b : Bus) (hp : encodeBlock info n block = some p)

include hp

/-- Below 2^28 the registers hold the block in 28-bit form. -/
theorem load_low (hlba : info.bLbaMode ≠ ideDhChs) (hlt : block < 0x10000000) :
    (b.load p).selected = driveOf n ∧ (b.load p).address28 = block.toNat ∧ (b.load p).count28 = 1 := by
  have hb : block.toNat < 2 ^ 28 := hlt
  simp only [encodeBlock, if_neg (UInt32.not_le.2 hlt), if_neg hlba, Option.some.injEq, ge_iff_le] at hp
  obtain ⟨h1, h2, h3⟩ := driveHead_bits (driveOf n) (block.toNat / 2 ^ 24 % 16) (Nat.mod_lt _ (by omega))
  have hx : UInt8.ofNat (block.toNat / 2 ^ 24 % 16) = ((block >>> 24) &&& 0x0f).toUInt8 := by
    apply UInt8.toNat_inj.1
    rw [high_nibble, UInt8.toNat_ofNat']
    omega
  rw [hx, ← ideDhDrive_eq] at h1 h2 h3
  subst hp
  refine ⟨h1, ?_, ?_⟩
  · unfold Bus.address28 Bus.load
    rw [if_pos h2]
    unfold Bus.lba28
    simp only [low_byte, cylinderLsb_toNat, cylinderMsb_toNat, h3]
    omega
  · rfl

/-- From 2^28 on they hold it in 48-bit form; read in 28-bit form they say
`block % 2^24`. -/
theorem load_high (hge : ¬ block < 0x10000000) : (b.load p).selected = driveOf n ∧
    (b.load p).address48 = block.toNat ∧ (b.load p).count48 = 1 ∧
    (b.load p).address28 = block.toNat % 2 ^ 24 ∧ (b.load p).count28 = 1 := by
  simp only [encodeBlock, if_pos (UInt32.not_lt.1 hge), Option.some.injEq, ge_iff_le] at hp
  obtain ⟨h1, h2, h3⟩ := driveHead_bits_ext (driveOf n)
  rw [← ideDhDrive_eq] at h1 h2 h3
  have hb := block.toNat_lt
  subst hp
  refine ⟨h1, ?_, rfl, ?_, rfl⟩
  · unfold Bus.address48 Bus.load
    simp only [high_byte]
    simp only [low_byte, cylinderLsb_toNat, cylinderMsb_toNat]
    show block.toNat % 2 ^ 8 + 2 ^ 8 * (block.toNat / 2 ^ 8 % 2 ^ 8) +
      2 ^ 16 * (block.toNat / 2 ^ 16 % 2 ^ 8) + 2 ^ 24 * (block.toNat / 2 ^ 24) + 2 ^ 32 * 0 +
        2 ^ 40 * 0 = _
    omega
  · unfold Bus.address28 Bus.load
    rw [if_pos h2]
    unfold Bus.lba28
    simp only [low_byte, cylinderLsb_toNat, cylinderMsb_toNat, h3]
    omega

end

/-! ## The data phases of one sector -/

theorem words_one (d : Drive) (lba : Nat) : d.words lba 1 = wordsOfBytes (d.sector lba).val := by
  simp [Drive.words, List.range_succ]

theorem startIn_eq (b : Bus) (lba : Nat) (h : lba < (b.drives b.selected).capacity) :
    b.startIn lba 1 = { b with
      transfer := .dataIn (wordsOfBytes ((b.drives b.selected).sector lba).val), error := false } := by
  unfold Bus.startIn
  rw [if_pos (by omega), words_one]

theorem startOut_eq (b : Bus) (lba : Nat) (h : lba < (b.drives b.selected).capacity) :
    b.startOut lba 1 = { b with transfer := .dataOut b.selected lba 1 [], error := false } := by
  unfold Bus.startOut
  rw [if_pos (by omega)]

theorem waitNotBusy_eq (b : Bus) (he : b.error = false) : bootIdeWaitNotBusy b = 0 := by
  unfold bootIdeWaitNotBusy Bus.altStatus
  rw [he]
  cases b.transfer <;> simp <;> decide

/-- A drive with data to give is ready and gives it at the first try. -/
theorem readRetry_eq (b : Bus) (s : Sector) (fuel : Nat) (he : b.error = false)
    (ht : b.transfer = .dataIn (wordsOfBytes s.val)) :
    readRetry (fuel + 1) b = some (s.val, { b with transfer := .idle }) := by
  have hready : bootIdeWaitDataReady b = 0 := by
    simp only [bootIdeWaitDataReady, Bus.altStatus, ht, he]
    decide
  have hread : bootIdeReadData b 512 = (0, s.val, { b with transfer := .idle }) := by
    unfold bootIdeReadData
    rw [if_neg (by rw [hready]; decide)]
    simp only [show 512 / 2 = 256 from rfl, inWords_sector b s ht]
    rw [bytesOfWords_wordsOfBytes _ (by rw [s.property])]
    rw [if_neg]
    simp only [Bus.altStatus, he]
    decide
  simp only [readRetry, hread, if_true]

theorem bootIdeWriteData_eq (b : Bus) (drive : Bool) (lba : Nat) (s : Sector) (he : b.error = false)
    (ht : b.transfer = .dataOut drive lba 1 []) :
    bootIdeWriteData b s.val = (0, { b.store drive lba s with transfer := .idle }) := by
  have hs : { b.store drive lba s with transfer := .idle }.altStatus = 0 := by
    simp only [Bus.altStatus, Bus.store, he]
    decide
  unfold bootIdeWriteData bootIdeWaitNotBusy
  simp only [outWords_sector b drive lba s ht, hs]
  rfl

/-! ## One sector -/

section
variable (packetRead : PacketRead) {tsaHarddiskInfo : Int → HarddiskInfo} (fuel : Nat) (b : Bus)
  {n : Int} (hn : n = 0 ∨ n = 1) (hx : (tsaHarddiskInfo n).fDriveExists = true)
  (hlba : (tsaHarddiskInfo n).bLbaMode ≠ ideDhChs) {block : UInt32}
  (hcap : block.toNat < (b.drives (driveOf n)).capacity)

theorem prepare_drives (info : HarddiskInfo) :
    (setControl (selectDrive b n) info).drives = b.drives := by
  unfold setControl
  split_ifs <;> rfl

theorem encodeBlock_isSome {info : HarddiskInfo} (hlba : info.bLbaMode ≠ ideDhChs) :
    ∃ p, encodeBlock info n block = some p := by
  unfold encodeBlock
  by_cases h : block ≥ 0x10000000
  · exact ⟨_, if_pos h⟩
  · rw [if_neg h, if_neg hlba]
    exact ⟨_, rfl⟩

include hn hx hlba hcap

/-- **Reading.**  Every block on the drive is read, by either command. -/
theorem bootIdeReadSector_eq (ha : (tsaHarddiskInfo n).fAtapi = false) (byteOffset nBytes : Nat) :
    ∃ b' : Bus, b'.drives = b.drives ∧
    bootIdeReadSector packetRead tsaHarddiskInfo fuel b n block byteOffset nBytes =
      some (0, if nBytes ≠ 512 then
        ((((b.drives (driveOf n)).sector block.toNat).val.drop byteOffset).take nBytes)
        else ((b.drives (driveOf n)).sector block.toNat).val, b') := by
  obtain ⟨p, hp⟩ : ∃ p, encodeBlock (tsaHarddiskInfo n) n block = some p := encodeBlock_isSome hlba
  have hd := prepare_drives b (n := n) (tsaHarddiskInfo n)
  have hrange : ¬ (n < 0 ∨ n ≥ 2) := by omega
  generalize hb0 : setControl (selectDrive b n) (tsaHarddiskInfo n) = b0 at hd
  have hload : (b0.load p).drives = b.drives := hd
  -- either command starts the data phase of the block's sector
  have hcmd : (b0.load p).command (if block ≥ 0x10000000 then ideCmdReadExt else ideCmdReadMultiRetry) =
      { b0.load p with
        transfer := .dataIn (wordsOfBytes ((b.drives (driveOf n)).sector block.toNat).val)
        error := false } := by
    by_cases hlt : block < 0x10000000
    · obtain ⟨h1, h2, h3⟩ := load_low b0 hp hlba hlt
      rw [if_neg (UInt32.not_le.2 hlt)]
      show (b0.load p).startIn (b0.load p).address28 (b0.load p).count28 = _
      rw [h2, h3, startIn_eq _ _ (by rw [h1, hload]; exact hcap), h1, ← hload]
    · obtain ⟨h1, h2, h3, -, -⟩ := load_high b0 hp hlt
      rw [if_pos (UInt32.not_lt.1 hlt)]
      show (b0.load p).startIn (b0.load p).address48 (b0.load p).count48 = _
      rw [h2, h3, startIn_eq _ _ (by rw [h1, hload]; exact hcap), h1, ← hload]
  refine ⟨{ b0.load p with transfer := .idle, error := false }, hload, ?_⟩
  unfold bootIdeReadSector
  simp only [hx, not_true_eq_false, if_false, if_neg hrange, ha, Bool.false_eq_true, hb0, hp,
    bootIdeIssueAtaCommand_eq, hcmd]
  rw [waitNotBusy_eq _ rfl]
  simp only [ne_eq, not_true_eq_false, if_false]
  rw [readRetry_eq _ ((b.drives (driveOf n)).sector block.toNat) fuel rfl rfl]
  simp only
  split_ifs <;> rfl

/-- The sector `BootIdeWriteSector` writes. -/
def written (block : UInt32) : Nat :=
  if block < 0x10000000 then block.toNat else block.toNat % 2 ^ 24

/-- **Writing.** -/
theorem bootIdeWriteSector_eq (buf : Sector) : ∃ b' : Bus,
    b'.drives = (b.store (driveOf n) (written block) buf).drives ∧
    bootIdeWriteSector tsaHarddiskInfo b n buf block = some (0, b') := by
  obtain ⟨p, hp⟩ : ∃ p, encodeBlock (tsaHarddiskInfo n) n block = some p := encodeBlock_isSome hlba
  have hd := prepare_drives b (n := n) (tsaHarddiskInfo n)
  have hrange : ¬ (n < 0 ∨ n ≥ 2) := by omega
  generalize hb0 : setControl (selectDrive b n) (tsaHarddiskInfo n) = b0 at hd
  have hload : (b0.load p).drives = b.drives := hd
  have hle : written block ≤ block.toNat := by
    unfold written
    split
    · exact Nat.le_refl _
    · exact Nat.mod_le _ _
  have hcmd : (b0.load p).command ideCmdWriteMultiRetry =
      { b0.load p with transfer := .dataOut (driveOf n) (written block) 1 [], error := false } := by
    show (b0.load p).startOut (b0.load p).address28 (b0.load p).count28 = _
    by_cases hlt : block < 0x10000000
    · obtain ⟨h1, h2, h3⟩ := load_low b0 hp hlba hlt
      have hw : written block = block.toNat := if_pos hlt
      rw [h2, h3, startOut_eq _ _ (by rw [h1, hload]; exact hcap), h1, hw]
    · obtain ⟨h1, -, -, h2, h3⟩ := load_high b0 hp hlt
      have hw : written block = block.toNat % 2 ^ 24 := if_neg hlt
      rw [h2, h3, ← hw, startOut_eq _ _ (by rw [h1, hload]; omega), h1]
  refine ⟨{ (b0.load p).store (driveOf n) (written block) buf with
    transfer := .idle, error := false }, ?_, ?_⟩
  · show ((b0.load p).store _ _ _).drives = _
    unfold Bus.store
    rw [hload]
  · unfold bootIdeWriteSector
    simp only [hx, not_true_eq_false, if_false, if_neg hrange, hb0, hp, ite_self,
      bootIdeIssueAtaCommand_eq, hcmd]
    rw [waitNotBusy_eq _ rfl]
    simp only [ne_eq, not_true_eq_false, if_false]
    rw [bootIdeWriteData_eq _ (driveOf n) (written block) buf rfl rfl]
    rfl

end

/-! ## Top theorem -/

/-- `BootIdeWriteSector` changes sector `block` only, reading it back gives the
buffer, and every other block reads as before. -/
def WriteThenRead (packetRead : PacketRead) (tsaHarddiskInfo : Int → HarddiskInfo) (fuel : Nat)
    (b : Bus) (n : Int) (block : UInt32) (buf : Sector) : Prop :=
  ∃ w, bootIdeWriteSector tsaHarddiskInfo b n buf block = some (0, w) ∧
    (∀ k, k ≠ block.toNat → (w.drives (driveOf n)).sector k = (b.drives (driveOf n)).sector k) ∧
    w.drives (!driveOf n) = b.drives (!driveOf n) ∧
    (∃ r, bootIdeReadSector packetRead tsaHarddiskInfo fuel w n block 0 512 = some (0, buf.val, r)) ∧
    ∀ k : UInt32, k ≠ block → k.toNat < (b.drives (driveOf n)).capacity → ∀ byteOffset nBytes,
      (bootIdeReadSector packetRead tsaHarddiskInfo fuel w n k byteOffset nBytes).map
          (fun r => (r.1, r.2.1)) =
        (bootIdeReadSector packetRead tsaHarddiskInfo fuel b n k byteOffset nBytes).map
          fun r => (r.1, r.2.1)

/-- The buffer is in its sector, and in no other, when the write went there or changes
nothing. -/
theorem written_right_iff {old new : Nat → Sector} {block : UInt32} {buf : Sector}
    (hnew : ∀ k, new k = if k = written block then buf else old k) :
    (∀ k, new k = if k = block.toNat then buf else old k) ↔
      block < 0x10000000 ∨ (old (block.toNat % 2 ^ 24) = buf ∧ old block.toNat = buf) := by
  by_cases hlt : block < 0x10000000
  · refine iff_of_true (fun k => ?_) (Or.inl hlt)
    rw [hnew, show written block = block.toNat from if_pos hlt]
  · have hwr : written block = block.toNat % 2 ^ 24 := if_neg hlt
    have hge : 2 ^ 28 ≤ block.toNat := UInt32.not_lt.1 hlt
    have hne : block.toNat % 2 ^ 24 ≠ block.toNat := by omega
    rw [hwr] at hnew
    constructor
    · intro hall
      have hwritten := hall (block.toNat % 2 ^ 24)
      have hblock := hall block.toNat
      rw [hnew, if_pos rfl, if_neg hne] at hwritten
      rw [hnew, if_neg (Ne.symm hne), if_pos rfl] at hblock
      exact Or.inr ⟨hwritten.symm, hblock⟩
    · rintro (h | ⟨e1, e2⟩) k
      · exact absurd h hlt
      · -- both sides are the old sector
        rw [hnew]
        split_ifs with h1 h2 h2
        · rfl
        · rw [h1, e1]
        · rw [h2, e2]
        · rfl

/-- **Write, then read.**  On a drive in LBA mode the write of a block of the
drive does what it should exactly when the block is below 2^28, or when both
the block and sector `block % 2^24` already hold the buffer. -/
theorem write_then_read_iff (packetRead : PacketRead) (tsaHarddiskInfo : Int → HarddiskInfo)
    (fuel : Nat) (b : Bus) (n : Int) (hn : n = 0 ∨ n = 1)
    (hx : (tsaHarddiskInfo n).fDriveExists = true) (ha : (tsaHarddiskInfo n).fAtapi = false)
    (hlba : (tsaHarddiskInfo n).bLbaMode ≠ ideDhChs) (block : UInt32)
    (hcap : block.toNat < (b.drives (driveOf n)).capacity) (buf : Sector) :
    WriteThenRead packetRead tsaHarddiskInfo fuel b n block buf ↔
      block < 0x10000000 ∨ ((b.drives (driveOf n)).sector (block.toNat % 2 ^ 24) = buf ∧
        (b.drives (driveOf n)).sector block.toNat = buf) := by
  obtain ⟨w, hwd, hw⟩ := bootIdeWriteSector_eq b hn hx hlba hcap buf
  have hsec : ∀ k, (w.drives (driveOf n)).sector k =
      if k = written block then buf else (b.drives (driveOf n)).sector k := by
    intro k
    rw [hwd]
    by_cases hk : k = written block
    · rw [hk, if_pos rfl, store_same]
    · rw [if_neg hk, store_of_ne _ _ _ _ _ hk]
  have hcapw : (w.drives (driveOf n)).capacity = (b.drives (driveOf n)).capacity := by
    rw [hwd, store_capacity]
  obtain ⟨r, -, hr⟩ := bootIdeReadSector_eq packetRead fuel w hn hx hlba
    (hcapw ▸ hcap : block.toNat < (w.drives (driveOf n)).capacity) ha 0 512
  rw [if_neg (by decide)] at hr
  rw [← written_right_iff hsec]
  constructor
  · rintro ⟨w', hw', honly, -, ⟨r', hr'⟩, -⟩ k
    obtain rfl : w = w' := by rw [hw] at hw'; simpa using hw'
    by_cases hk : k = block.toNat
    · rw [hr] at hr'
      simp only [Option.some.injEq, Prod.mk.injEq, true_and] at hr'
      rw [if_pos hk, hk]
      exact Subtype.ext hr'.1
    · rw [if_neg hk]
      exact honly k hk
  · intro hall
    refine ⟨w, hw, ?_, ?_, ⟨r, ?_⟩, ?_⟩
    · intro k hk
      rw [hall, if_neg hk]
    · rw [hwd, store_other]
    · rw [hr, hall, if_pos rfl]
    · intro k hk hkc byteOffset nBytes
      obtain ⟨r1, -, h1⟩ := bootIdeReadSector_eq packetRead fuel w hn hx hlba
        (hcapw ▸ hkc : k.toNat < (w.drives (driveOf n)).capacity) ha byteOffset nBytes
      obtain ⟨r2, -, h2⟩ := bootIdeReadSector_eq packetRead fuel b hn hx hlba hkc ha byteOffset nBytes
      rw [h1, h2, hall, if_neg (fun e => hk (UInt32.toNat_inj.1 e))]
      rfl

def filledSector (v : UInt8) : Sector := ⟨List.replicate 512 v, List.length_replicate⟩

/-- Two drives of `capacity` sectors filled with zeros. -/
def blankBus (capacity : Nat) : Bus :=
  ⟨⟨0, 0⟩, ⟨0, 0⟩, ⟨0, 0⟩, ⟨0, 0⟩, 0, 0, fun _ => ⟨capacity, 16, 63, fun _ => filledSector 0⟩,
    .idle, false⟩

def lbaInfo : Int → HarddiskInfo := fun _ => ⟨16, 63, ideDhLba, true, false⟩

theorem write_then_read_iff_sector_3 :
    WriteThenRead (fun _ _ _ _ => none) lbaInfo 0 (blankBus 100) 0 3 (filledSector 7) ↔
      (3 : UInt32) < 0x10000000 ∨
        (((blankBus 100).drives (driveOf 0)).sector ((3 : UInt32).toNat % 2 ^ 24) = filledSector 7 ∧
          ((blankBus 100).drives (driveOf 0)).sector (3 : UInt32).toNat = filledSector 7) :=
  write_then_read_iff _ _ _ _ 0 (Or.inl rfl) rfl rfl (by decide) 3 (by decide) _

/-- Block 2^28 of a blank drive: the write lands in sector 0. -/
theorem write_lands_in_sector_0 :
    ¬ WriteThenRead (fun _ _ _ _ => none) lbaInfo 0 (blankBus (2 ^ 28 + 1)) 0 0x10000000
      (filledSector 7) := by
  rintro ⟨w, hw, honly, -⟩
  have hexists : (lbaInfo 0).fDriveExists = true := rfl
  obtain ⟨w', hwd, hw'⟩ := bootIdeWriteSector_eq
    (blankBus (2 ^ 28 + 1)) (Or.inl rfl : (0 : Int) = 0 ∨ (0 : Int) = 1) hexists (by decide)
    (by decide : (0x10000000 : UInt32).toNat < _) (filledSector 7)
  obtain rfl : w = w' := by rw [hw] at hw'; simpa using hw'
  have h0 := honly 0 (by decide)
  rw [hwd, show written 0x10000000 = 0 from by decide, store_same] at h0
  exact absurd (congrArg (fun s : Sector => s.val.head?) h0) (by decide)

end Gentoox.Ide
