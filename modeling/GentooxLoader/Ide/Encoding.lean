import GentooxLoader.Ide.Sector

/-!
# Which blocks the registers can name (drivers/ide/BootIde.c)

`BootIdeDriveInit` takes the numbers of heads and of sectors per track out of the
IDENTIFY answer as they are, and bit 9 of word 49 decides between LBA and
cylinder/head/sector.  `encodeBlock` then divides by those numbers, and has 8 bits
for the sector, which counts from 1, 4 for the head and 16 for the cylinder.

    lowBlock_encoded      28 bits are enough for an LBA drive
    highBlock_encoded     48 bits for blocks from 2^28 on
    chsBlock_encoded      a block whose numbers fit
    encodeBlock_exact_iff the registers hold the block ↔ one of these
-/

namespace Gentoox.Ide

/-! ## Algorithm -/

/-- The words of an IDENTIFY answer. -/
abbrev Identify := Nat → UInt16

/-- What `BootIdeDriveInit` keeps of the answer of a disk for sector access. -/
def driveInit (driveInfo : Identify) : HarddiskInfo where
  wCountHeads := driveInfo 3
  wCountSectorsPerTrack := driveInfo 6
  bLbaMode := if driveInfo 49 &&& 0x200 ≠ 0 then ideDhLba else ideDhChs
  fDriveExists := true
  fAtapi := false

/-! ## The property -/

/-- The numbers the registers are to hold. -/
structure Numbers where
  sector : Nat
  cylinder : Nat
  head : Nat
  sectorExt : Nat
deriving DecidableEq

/-- What is computed for a block, without a limit to its size. -/
def numbers (info : HarddiskInfo) (block : Nat) : Numbers :=
  if 2 ^ 28 ≤ block then ⟨block % 2 ^ 8, block / 2 ^ 8 % 2 ^ 16, 0, block / 2 ^ 24⟩
  else if info.bLbaMode = ideDhChs then
    let track := block / info.wCountSectorsPerTrack.toNat
    ⟨1 + block % info.wCountSectorsPerTrack.toNat, track / info.wCountHeads.toNat,
      track % info.wCountHeads.toNat, 0⟩
  else ⟨block % 2 ^ 8, block / 2 ^ 8 % 2 ^ 16, block / 2 ^ 24, 0⟩

/-- The numbers that the fields hold. -/
def CommandParams.numbers (p : CommandParams) : Numbers :=
  ⟨p.bSector.toNat, p.wCylinder.toNat, (p.bDrivehead &&& 0x0f).toNat, p.bSectorExt.toNat⟩

/-- The drive has the geometry of its IDENTIFY answer. -/
def Reports (driveInfo : Identify) (d : Drive) : Prop :=
  d.heads = (driveInfo 3).toNat ∧ d.sectorsPerTrack = (driveInfo 6).toNat

/-- The block the drive finds in its registers, by the command that is issued. -/
def decoded (b : Bus) (block : UInt32) : Nat :=
  if block ≥ 0x10000000 then b.address48 else b.address28

/-- The block has an encoding, no field of it is cut off, and the drive finds the
block in it. -/
def Exact (driveInfo : Identify) (n : Int) (block : UInt32) : Prop :=
  ∃ p, encodeBlock (driveInit driveInfo) n block = some p ∧
    p.numbers = numbers (driveInit driveInfo) block.toNat ∧
    ∀ b : Bus, Reports driveInfo (b.drives (driveOf n)) →
      (b.load p).selected = driveOf n ∧ decoded (b.load p) block = block.toNat

/-- With cylinder/head/sector the geometry has no zero, and the three numbers fit. -/
def ChsFits (driveInfo : Identify) (block : Nat) : Prop :=
  let spt := (driveInfo 6).toNat
  let heads := (driveInfo 3).toNat
  spt ≠ 0 ∧ heads ≠ 0 ∧ block % spt < 255 ∧ block / spt % heads < 16 ∧ block / spt / heads < 65536

instance (driveInfo : Identify) (block : Nat) : Decidable (ChsFits driveInfo block) :=
  inferInstanceAs (Decidable (_ ∧ _))

/-! ## LBA -/

section
variable (driveInfo : Identify) (n : Int) {block : UInt32}

theorem bLbaMode_iff : (driveInit driveInfo).bLbaMode = ideDhChs ↔ driveInfo 49 &&& 0x200 = 0 := by
  show (if driveInfo 49 &&& 0x200 ≠ 0 then ideDhLba else ideDhChs) = ideDhChs ↔ _
  split
  · rename_i h
    exact iff_of_false (by decide) h
  · rename_i h
    exact iff_of_true rfl (not_not.1 h)

theorem highBlock_encoded (hge : block ≥ 0x10000000) : Exact driveInfo n block := by
  have hb : 2 ^ 28 ≤ block.toNat := hge
  obtain ⟨-, -, h3⟩ := driveHead_bits_ext (driveOf n)
  rw [← ideDhDrive_eq] at h3
  refine ⟨_, if_pos hge, ?_, fun b _ => ?_⟩
  · unfold numbers CommandParams.numbers
    rw [if_pos hb]
    simp only [high_byte]
    simp only [low_byte, cylinder_toNat, h3]
  · have hcode := (if_pos hge : encodeBlock (driveInit driveInfo) n block = _)
    obtain ⟨hsel, haddr, -⟩ := load_high b hcode (UInt32.not_lt.2 hge)
    refine ⟨hsel, ?_⟩
    unfold decoded
    rw [if_pos hge]
    exact haddr

theorem lowBlock_encoded (hlt : ¬ block ≥ 0x10000000) (hlba : driveInfo 49 &&& 0x200 ≠ 0) :
    Exact driveInfo n block := by
  have hb : ¬ 2 ^ 28 ≤ block.toNat := hlt
  have hmode : (driveInit driveInfo).bLbaMode ≠ ideDhChs := fun h => hlba ((bLbaMode_iff _).1 h)
  obtain ⟨-, -, h3⟩ := driveHead_bits (driveOf n) (block.toNat / 2 ^ 24) (by omega)
  have hx : UInt8.ofNat (block.toNat / 2 ^ 24) = ((block >>> 24) &&& 0x0f).toUInt8 := by
    apply UInt8.toNat_inj.1
    rw [high_nibble, UInt8.toNat_ofNat']
    omega
  rw [hx, ← ideDhDrive_eq] at h3
  obtain ⟨p, hp⟩ : ∃ p, encodeBlock (driveInit driveInfo) n block = some p :=
    encodeBlock_isSome hmode
  refine ⟨p, hp, ?_, fun b _ => ?_⟩
  · simp only [encodeBlock, if_neg hlt, if_neg hmode, Option.some.injEq, ge_iff_le] at hp
    subst hp
    unfold numbers CommandParams.numbers
    rw [if_neg hb, if_neg hmode]
    simp only [low_byte, cylinder_toNat, h3]
    rfl
  · obtain ⟨hsel, haddr, -⟩ := load_low b hp hmode (UInt32.not_le.1 hlt)
    refine ⟨hsel, ?_⟩
    unfold decoded
    rw [if_neg hlt]
    exact haddr

end

/-! ## Cylinder, head and sector -/

/-- The bits of the drive/head register with a head in it. -/
theorem driveHead_bits_chs : ∀ slave : Bool, ∀ x < 16,
    let dh := ideDhDefault ||| UInt8.ofNat x ||| (if slave then ideDhSlave else ideDhMaster) ||| ideDhChs
    (dh &&& 0x10 != 0) = slave ∧ (dh &&& 0x40 != 0) = false ∧ (dh &&& 0x0f).toNat = x := by
  decide

theorem ideDhHead_eq (x : UInt32) : ideDhHead x = UInt8.ofNat (x.toNat % 16) := by
  apply UInt8.toNat_inj.1
  unfold ideDhHead
  rw [UInt32.toNat_toUInt8, UInt32.toNat_and, UInt8.toNat_ofNat']
  show (x.toNat &&& (2 ^ 4 - 1)) % 2 ^ 8 = _
  rw [Nat.and_two_pow_sub_one_eq_mod]

/-- The three numbers say the block again. -/
theorem chs_block (block spt heads : Nat) :
    ((block / spt / heads) * heads + block / spt % heads) * spt + (1 + block % spt) - 1 = block := by
  rw [Nat.div_add_mod', ← Nat.add_assoc, Nat.add_right_comm, Nat.add_sub_cancel, Nat.div_add_mod']

/-- The two bytes the cylinder goes out in. -/
theorem cylinder_bytes (w : UInt16) :
    (w &&& 0xFF).toUInt8.toNat + 2 ^ 8 * (w >>> 8).toUInt8.toNat = w.toNat := by
  have hw := w.toNat_lt
  rw [UInt16.toNat_toUInt8, UInt16.toNat_toUInt8, UInt16.toNat_and, UInt16.toNat_shiftRight]
  show (w.toNat &&& (2 ^ 8 - 1)) % 2 ^ 8 + 2 ^ 8 * (w.toNat >>> 8 % 2 ^ 8) = _
  rw [Nat.and_two_pow_sub_one_eq_mod, Nat.shiftRight_eq_div_pow]
  omega

section
variable {driveInfo : Identify} {n : Int} {block : UInt32} {p : CommandParams}
  (hlt : ¬ block ≥ 0x10000000) (hchs : driveInfo 49 &&& 0x200 = 0)
include hlt hchs

/-- There is an encoding when no divisor is 0. -/
theorem encodeBlock_chs_isSome (h6 : driveInfo 6 ≠ 0) (h3 : driveInfo 3 ≠ 0) :
    ∃ p, encodeBlock (driveInit driveInfo) n block = some p := by
  unfold encodeBlock
  rw [if_neg hlt, if_pos ((bLbaMode_iff _).2 hchs), if_neg]
  · exact ⟨_, rfl⟩
  · rintro (h | h)
    · exact h6 h
    · exact h3 h

/-- The registers of a cylinder/head/sector command, each cut to its width. -/
theorem encodeBlock_chs (hp : encodeBlock (driveInit driveInfo) n block = some p) :
    (driveInfo 6).toNat ≠ 0 ∧ (driveInfo 3).toNat ≠ 0 ∧
    p.bSector.toNat = (1 + block.toNat % (driveInfo 6).toNat) % 2 ^ 8 ∧
    p.wCylinder.toNat = block.toNat / (driveInfo 6).toNat / (driveInfo 3).toNat % 2 ^ 16 ∧
    (p.bDrivehead &&& 0x10 != 0) = driveOf n ∧ (p.bDrivehead &&& 0x40 != 0) = false ∧
    (p.bDrivehead &&& 0x0f).toNat = block.toNat / (driveInfo 6).toNat % (driveInfo 3).toNat % 16 ∧
    p.bSectorExt = 0 := by
  have hb : block.toNat < 2 ^ 28 := UInt32.not_le.1 hlt
  unfold encodeBlock at hp
  rw [if_neg hlt, if_pos ((bLbaMode_iff _).2 hchs)] at hp
  split at hp
  · cases hp
  · rename_i hzero
    rw [not_or] at hzero
    have hspt : (driveInit driveInfo).wCountSectorsPerTrack.toUInt32.toNat = (driveInfo 6).toNat :=
      UInt16.toNat_toUInt32 _
    have hheads : (driveInit driveInfo).wCountHeads.toUInt32.toNat = (driveInfo 3).toNat :=
      UInt16.toNat_toUInt32 _
    obtain ⟨h1, h2, h3⟩ := driveHead_bits_chs (driveOf n)
      (block.toNat / (driveInfo 6).toNat % (driveInfo 3).toNat % 16) (Nat.mod_lt _ (by decide))
    have hhead : UInt8.ofNat (block.toNat / (driveInfo 6).toNat % (driveInfo 3).toNat % 16) =
        ideDhHead (block / (driveInit driveInfo).wCountSectorsPerTrack.toUInt32 %
          (driveInit driveInfo).wCountHeads.toUInt32) := by
      rw [ideDhHead_eq, UInt32.toNat_mod, UInt32.toNat_div, hspt, hheads]
    rw [hhead, ← ideDhDrive_eq] at h1 h2 h3
    cases hp
    refine ⟨fun h => hzero.1 (UInt16.toNat_inj.1 h), fun h => hzero.2 (UInt16.toNat_inj.1 h), ?_, ?_,
      h1, h2, h3, rfl⟩
    · have hmod := Nat.mod_le block.toNat (driveInfo 6).toNat
      rw [UInt32.toNat_toUInt8, UInt32.toNat_add, UInt32.toNat_mod, hspt]
      show (1 + block.toNat % (driveInfo 6).toNat) % 2 ^ 32 % 2 ^ 8 = _
      omega
    · rw [UInt32.toNat_toUInt16, UInt32.toNat_div, UInt32.toNat_div, hspt, hheads]

theorem chsBlock_encoded (hfits : ChsFits driveInfo block.toNat) : Exact driveInfo n block := by
  obtain ⟨hspt, hheads, hsector, hhead, hcylinder⟩ := hfits
  obtain ⟨p, hp⟩ := encodeBlock_chs_isSome (n := n) hlt hchs
    (fun h => hspt (congrArg UInt16.toNat h)) (fun h => hheads (congrArg UInt16.toNat h))
  obtain ⟨-, -, h1, h2, h3, h4, h5, h6⟩ := encodeBlock_chs hlt hchs hp
  rw [Nat.mod_eq_of_lt (by omega)] at h1 h2
  rw [Nat.mod_eq_of_lt hhead] at h5
  refine ⟨p, hp, ?_, fun b hb => ⟨h3, ?_⟩⟩
  · have hblock : ¬ 2 ^ 28 ≤ block.toNat := hlt
    unfold numbers CommandParams.numbers
    rw [if_neg hblock, if_pos ((bLbaMode_iff _).2 hchs), h1, h2, h5, h6]
    rfl
  · obtain ⟨hbheads, hbspt⟩ := hb
    have hcyl := cylinder_bytes p.wCylinder
    have hsel : (b.load p).selected = driveOf n := h3
    unfold decoded Bus.address28
    rw [if_neg hlt, if_neg (by show ¬ (p.bDrivehead &&& 0x40 != 0) = true; rw [h4]; decide)]
    unfold Bus.chs
    rw [hsel]
    show (((p.wCylinder &&& 0xFF).toUInt8.toNat + 2 ^ 8 * (p.wCylinder >>> 8).toUInt8.toNat) *
      (b.drives (driveOf n)).heads + (p.bDrivehead &&& 0x0f).toNat) *
        (b.drives (driveOf n)).sectorsPerTrack + p.bSector.toNat - 1 = _
    rw [hcyl, hbheads, hbspt, h1, h2, h5]
    exact chs_block ..

theorem chsFits_of_exact (h : Exact driveInfo n block) : ChsFits driveInfo block.toNat := by
  obtain ⟨p, hp, hnum, -⟩ := h
  obtain ⟨hspt, hheads, h1, h2, -, -, h5, -⟩ := encodeBlock_chs hlt hchs hp
  have hb : ¬ 2 ^ 28 ≤ block.toNat := hlt
  unfold numbers CommandParams.numbers at hnum
  rw [if_neg hb, if_pos ((bLbaMode_iff _).2 hchs)] at hnum
  simp only [Numbers.mk.injEq] at hnum
  obtain ⟨g1, g2, g3, -⟩ := hnum
  rw [h1] at g1
  rw [h2] at g2
  rw [h5] at g3
  have hsector := Nat.mod_lt (1 + block.toNat % (driveInfo 6).toNat) (show 0 < 2 ^ 8 by decide)
  have hcylinder := Nat.mod_lt
    (block.toNat / (driveInfo 6).toNat / (driveInfo 3).toNat) (show 0 < 2 ^ 16 by decide)
  have hhead := Nat.mod_lt
    (block.toNat / (driveInfo 6).toNat % (driveInfo 3).toNat) (show 0 < 16 by decide)
  rw [g1] at hsector
  rw [g2] at hcylinder
  rw [g3] at hhead
  exact ⟨hspt, hheads, Nat.lt_of_add_lt_add_left (n := 1) hsector, hhead, hcylinder⟩

end

/-! ## Top theorem -/

/-- **Register encodings.** Whatever a disk answers, a block is encoded exactly
when it needs 48 bits, or the disk has LBA, or its cylinder, head and sector fit
the registers. -/
theorem encodeBlock_exact_iff (driveInfo : Identify) (n : Int) (block : UInt32) :
    Exact driveInfo n block ↔
      block ≥ 0x10000000 ∨ driveInfo 49 &&& 0x200 ≠ 0 ∨ ChsFits driveInfo block.toNat := by
  by_cases hge : block ≥ 0x10000000
  · exact iff_of_true (highBlock_encoded driveInfo n hge) (.inl hge)
  rw [or_iff_right hge]
  by_cases hlba : driveInfo 49 &&& 0x200 ≠ 0
  · exact iff_of_true (lowBlock_encoded driveInfo n hge hlba) (.inl hlba)
  rw [or_iff_right hlba]
  have hchs := not_not.1 hlba
  exact ⟨chsFits_of_exact hge hchs, chsBlock_encoded hge hchs⟩

/-- A disk without LBA that says it has 1000 sectors, 16 heads and no sectors on a
track: there is no encoding of its first block. -/
def noSectors : Identify := fun i => if i = 60 then 1000 else if i = 3 then 16 else 0

/-- The same disk with 256 sectors on a track has no room for the number of the last one. -/
def manySectors : Identify := fun i =>
  if i = 60 then 1000 else if i = 3 then 16 else if i = 6 then 256 else 0

theorem encodeBlock_not_exact : ¬ Exact noSectors 0 0 ∧ ¬ Exact manySectors 0 255 ∧
    (encodeBlock (driveInit noSectors) 0 0).isNone ∧
    (encodeBlock (driveInit manySectors) 0 255).map (·.bSector) = some 0 := by
  refine ⟨?_, ?_, by decide, by decide⟩
  · rintro ⟨p, hp, -⟩
    have hnone : encodeBlock (driveInit noSectors) 0 0 = none := by decide
    rw [hnone] at hp
    cases hp
  · rintro ⟨p, hp, hnum, -⟩
    have hsome : (encodeBlock (driveInit manySectors) 0 255).map (·.bSector) = some 0 := by decide
    rw [hp] at hsome
    have hzero : p.bSector = 0 := Option.some.inj hsome
    have hsector := congrArg Numbers.sector hnum
    have hwant : (numbers (driveInit manySectors) (255 : UInt32).toNat).sector = 256 := by decide
    rw [hwant] at hsector
    have hgot : p.numbers.sector = p.bSector.toNat := rfl
    rw [hgot, hzero] at hsector
    cases hsector

end Gentoox.Ide
