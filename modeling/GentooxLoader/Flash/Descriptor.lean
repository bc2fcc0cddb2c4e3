import GentooxLoader.Flash.Protocol

/-!
# Which chip it is (drivers/flash/BootFlash.c)

`BootFlashGetDescriptor` asks the chip for its ID in the way of the 28xxx chips,
and then in the way of the 29xxx chips unless it got an answer.  What it takes
for an answer is a first byte that differs from the first byte of the contents;
the second byte it reads again instead of comparing the device ID.

    describe_spec        later nothing changes the ID, and no 29xxx command is given
    identify_taken       the first bytes differ: the ID is taken
    identify_goes_on     they do not: the 29xxx sequence is tried
    getDescriptor_iff    the ID is kept, and is asked for no further ↔ the first bytes
                         differ, or both do not
    same_manufacturer    a chip whose contents begin with its manufacturer's byte
-/

namespace Gentoox.Flash

/-! ## Algorithm -/

/-- `KNOWN_FLASH_TYPE` -/
structure KnownFlashType where
  bManufacturerId : UInt8
  bDeviceId : UInt8
  szFlashDescription : String
  dwLengthInBytes : UInt32
  /-- The loop over its blocks ends. -/
  blocks : dwLengthInBytes ≤ 0xffff0000

/-- What is printed to `m_szFlashDescription`, piece by piece. -/
inductive DescriptionPart where
  | known (szFlashDescription : String) (kilobytes : UInt32)
  | masterLockSet
  | blockLocks
  | blockLock (bit : UInt8)
  | blanks
  | readOnly (manf dev : UInt8)
  | unknown (manf dev : UInt8)
  deriving DecidableEq

/-- The fields of `OBJECT_FLASH` that the call sets. -/
structure Descriptor where
  bManufacturerId : UInt8
  bDeviceId : UInt8
  szFlashDescription : List DescriptionPart
  dwLengthInBytes : UInt32
  fDetectedUsing28xxxConventions : Bool
  fIsBelievedCapableOfWriteAndErase : Bool
  deriving DecidableEq

section
variable {σ : Type} (c : Chip σ)

/-- 29xxx protocol -/
def probe29xxx (s : State σ) : (UInt8 × UInt8) × State σ :=
  let s := s.writes c [(0x5555, 0xf0), (0x5555, 0xaa), (0x2aaa, 0x55), (0x5555, 0xf0),
    (0x5555, 0xaa), (0x2aaa, 0x55), (0x5555, 0x90)]
  let m := s.read c 0
  let d := m.2.read c 1
  ((m.1, d.1), d.2.write c 0x5555 0xf0)

/-- 28xxx protocol, seen on Sharp -/
def probe28xxx (s : State σ) : (UInt8 × UInt8) × State σ :=
  let s := s.writes c [(0x5555, 0xff), (0x5555, 0x90)]
  let m := s.read c 0
  let d := (m.2.write c 0x5555 0x90).read c 1
  ((m.1, d.1), d.2.write c 0x5555 0xff)

/-- The loop, over the values of `nTries` to come; `normal` are the first two
bytes in normal mode. -/
def identify (normal : UInt8 × UInt8) :
    List Nat → Descriptor → State σ → Descriptor × State σ
  | [], pof, s => (pof, s)
  | nTries :: later, pof, s =>
    let r := if nTries ≠ 1 then probe29xxx c s else probe28xxx c s
    let pof := { pof with
      bManufacturerId := r.1.1
      bDeviceId := r.1.2
      fDetectedUsing28xxxConventions := decide (nTries = 1) }
    if normal.1 ≠ r.1.1 then (pof, r.2)
    else
      let b := r.2.read c 1
      if normal.2 ≠ b.1 then (pof, b.2) else identify normal later pof b.2

/-- The lock of block `n`. -/
def readLock (r : Descriptor × State σ) (n : Nat) : Descriptor × State σ :=
  let b := (r.2.write c 0x5555 0x90).read c (UInt32.ofNat (0x10000 * n) ||| 2)
  ({ r.1 with szFlashDescription := r.1.szFlashDescription ++ [.blockLock (b.1 &&& 1)] }, b.2)

/-- The locks of a 28xxx chip. -/
def readLocks (pof : Descriptor) (s : State σ) : Descriptor × State σ :=
  let b := (s.write c 0x5555 0x90).read c 3
  let pof := if b.1 ≠ 0 then
      { pof with
        fIsBelievedCapableOfWriteAndErase := false
        szFlashDescription := pof.szFlashDescription ++ [.masterLockSet] }
    else pof
  let pof := { pof with szFlashDescription := pof.szFlashDescription ++ [.blockLocks] }
  let r := (List.range ((pof.dwLengthInBytes.toNat + 0xffff) / 0x10000)).foldl (readLock c) (pof, b.2)
  ({ r.1 with szFlashDescription := r.1.szFlashDescription ++ [.blanks] },
    r.2.writes c [(0x5555, 0x50), (0x5555, 0xff)])

/-- Interpret the ID; the table ends with a manufacturer of zero. -/
def describe (normal : UInt8 × UInt8) (pkft : List KnownFlashType) (pof : Descriptor) (s : State σ) :
    Bool × Descriptor × State σ :=
  match (pkft.takeWhile (·.bManufacturerId ≠ 0)).find? fun t =>
      t.bManufacturerId = pof.bManufacturerId ∧ t.bDeviceId = pof.bDeviceId with
  | some t =>
    let pof := { pof with
      szFlashDescription := [.known t.szFlashDescription (t.dwLengthInBytes / 1024)]
      dwLengthInBytes := t.dwLengthInBytes }
    (true, if pof.fDetectedUsing28xxxConventions then readLocks c pof s else (pof, s))
  | none =>
    if normal.1 = pof.bManufacturerId then
      let b := s.read c 1
      if normal.2 = b.1 then
        (false, { pof with szFlashDescription := [.readOnly pof.bManufacturerId pof.bDeviceId] }, b.2)
      else
        (false, { pof with szFlashDescription := [.unknown pof.bManufacturerId pof.bDeviceId] }, b.2)
    else (false, { pof with szFlashDescription := [.unknown pof.bManufacturerId pof.bDeviceId] }, s)

def normalModeFirstTwoBytes (s : State σ) : (UInt8 × UInt8) × State σ :=
  let b0 := { s with szAdditionalErrorInfo := .empty }.read c 0
  let b1 := b0.2.read c 1
  ((b0.1, b1.1), b1.2)

def bootFlashGetDescriptor (pkft : List KnownFlashType) (pof : Descriptor) (s : State σ) :
    Bool × Descriptor × State σ :=
  let pof := { pof with fIsBelievedCapableOfWriteAndErase := true }
  let normal := normalModeFirstTwoBytes c s
  let r := identify c normal.1 [1, 2] pof normal.2
  describe c normal.1 pkft r.1 r.2

end

/-! ## After the ID -/

section
variable {σ : Type} {c : Chip σ}

/-- The ID and what it was found with are the same, and every command went to 0x5555. -/
structure Described (pof pof' : Descriptor) (s s' : State σ) : Prop where
  manf : pof'.bManufacturerId = pof.bManufacturerId
  dev : pof'.bDeviceId = pof.bDeviceId
  conventions : pof'.fDetectedUsing28xxxConventions = pof.fDetectedUsing28xxxConventions
  wrote : ∃ l, s'.wrote = s.wrote ++ l ∧ ∀ w ∈ l, w.1 = 0x5555

theorem Described.trans {pof pof' pof'' : Descriptor} {s s' s'' : State σ}
    (h : Described pof pof' s s') (h' : Described pof' pof'' s' s'') :
    Described pof pof'' s s'' := by
  obtain ⟨l, hl, hat⟩ := h.wrote
  obtain ⟨l', hl', hat'⟩ := h'.wrote
  refine ⟨h'.manf.trans h.manf, h'.dev.trans h.dev, h'.conventions.trans h.conventions,
    l ++ l', by rw [hl', hl, List.append_assoc], fun w hw => ?_⟩
  rcases List.mem_append.1 hw with hw | hw
  · exact hat w hw
  · exact hat' w hw

/-- Nothing but the description is changed. -/
theorem described_quiet {pof pof' : Descriptor} {s s' : State σ}
    (hmanf : pof'.bManufacturerId = pof.bManufacturerId) (hdev : pof'.bDeviceId = pof.bDeviceId)
    (h28 : pof'.fDetectedUsing28xxxConventions = pof.fDetectedUsing28xxxConventions)
    (hwrote : s'.wrote = s.wrote) : Described pof pof' s s' :=
  ⟨hmanf, hdev, h28, [], by rw [hwrote, List.append_nil], fun _ hw => by cases hw⟩

theorem readLock_described (r : Descriptor × State σ) (n : Nat) :
    Described r.1 (readLock c r n).1 r.2 (readLock c r n).2 :=
  ⟨rfl, rfl, rfl, [(0x5555, 0x90)], rfl, fun w hw => by rw [List.mem_singleton.1 hw]⟩

theorem readLocks_described (pof : Descriptor) (s : State σ) :
    Described pof (readLocks c pof s).1 s (readLocks c pof s).2 := by
  have hloop : ∀ (blocks : List Nat) (r : Descriptor × State σ),
      Described r.1 (blocks.foldl (readLock c) r).1 r.2 (blocks.foldl (readLock c) r).2 := by
    intro blocks
    induction blocks with
    | nil => exact fun r => described_quiet rfl rfl rfl rfl
    | cons n blocks ih => exact fun r => (readLock_described r n).trans (ih _)
  have hend : ∀ r : Descriptor × State σ, Described r.1
      { r.1 with szFlashDescription := r.1.szFlashDescription ++ [.blanks] } r.2
      (r.2.writes c [(0x5555, 0x50), (0x5555, 0xff)]) := fun r =>
    ⟨rfl, rfl, rfl, [(0x5555, 0x50), (0x5555, 0xff)], writes_wrote _ _, by simp⟩
  have hstart : ∀ pof' : Descriptor, pof'.bManufacturerId = pof.bManufacturerId →
      pof'.bDeviceId = pof.bDeviceId →
      pof'.fDetectedUsing28xxxConventions = pof.fDetectedUsing28xxxConventions →
      Described pof pof' s ((s.write c 0x5555 0x90).read c 3).2 := fun pof' hmanf hdev h28 =>
    ⟨hmanf, hdev, h28, [(0x5555, 0x90)], rfl, by simp⟩
  unfold readLocks
  refine Described.trans ?_ (hend _)
  refine Described.trans (hstart _ ?_ ?_ ?_) (hloop _ _)
  · simp only
    split <;> rfl
  · simp only
    split <;> rfl
  · simp only
    split <;> rfl

/-- **After the ID.** -/
theorem describe_spec (normal : UInt8 × UInt8) (pkft : List KnownFlashType) (pof : Descriptor)
    (s : State σ) : Described pof (describe c normal pkft pof s).2.1 s
      (describe c normal pkft pof s).2.2 := by
  unfold describe
  split
  · rename_i t _
    have hknown : Described pof { pof with
        szFlashDescription := [.known t.szFlashDescription (t.dwLengthInBytes / 1024)]
        dwLengthInBytes := t.dwLengthInBytes } s s := described_quiet rfl rfl rfl rfl
    simp only
    split
    · exact hknown.trans (readLocks_described _ s)
    · exact hknown
  · split
    · simp only
      split
      · exact described_quiet rfl rfl rfl rfl
      · exact described_quiet rfl rfl rfl rfl
    · exact described_quiet rfl rfl rfl rfl

end

/-! ## Answers -/

section
variable {σ : Type} (c : Chip σ)

/-- The chip reads as contents that begin with `content`, answers the 28xxx
sequence with `id`, and after the reset has `again` at address 1. -/
structure Answers (s : State σ) (content id : UInt8 × UInt8) (again : UInt8) : Prop where
  content : (normalModeFirstTwoBytes c s).1 = content
  id : (probe28xxx c (normalModeFirstTwoBytes c s).2).1 = id
  again : ((probe28xxx c (normalModeFirstTwoBytes c s).2).2.read c 1).1 = again

/-- The command every 29xxx sequence has was given. -/
def Probed29xxx (s s' : State σ) : Prop :=
  ∃ l, s'.wrote = s.wrote ++ l ∧ (0x2aaa, 0x55) ∈ l

end

section
variable {σ : Type} {c : Chip σ} {s : State σ} {content id : UInt8 × UInt8} {again : UInt8}
  {pkft : List KnownFlashType} {pof : Descriptor}

/-- The commands of the 28xxx sequence. -/
def sequence28xxx : List (UInt32 × UInt8) :=
  [(0x5555, 0xff), (0x5555, 0x90), (0x5555, 0x90), (0x5555, 0xff)]

/-- The commands of the 29xxx sequence. -/
def sequence29xxx : List (UInt32 × UInt8) :=
  [(0x5555, 0xf0), (0x5555, 0xaa), (0x2aaa, 0x55), (0x5555, 0xf0), (0x5555, 0xaa), (0x2aaa, 0x55),
    (0x5555, 0x90), (0x5555, 0xf0)]

theorem normalMode_wrote : (normalModeFirstTwoBytes c s).2.wrote = s.wrote := rfl

theorem probe28xxx_wrote : (probe28xxx c s).2.wrote = s.wrote ++ sequence28xxx := by
  simp [probe28xxx, sequence28xxx, State.write]

theorem probe29xxx_wrote : (probe29xxx c s).2.wrote = s.wrote ++ sequence29xxx := by
  simp [probe29xxx, sequence29xxx, State.write]

/-- The ID differs in what is compared: it is taken and no 29xxx command is given. -/
theorem identify_taken (h : Answers c s content id again)
    (hdiffers : content.1 ≠ id.1 ∨ content.2 ≠ again) (pof : Descriptor) :
    let r := identify c content [1, 2] pof (normalModeFirstTwoBytes c s).2
    (r.1.bManufacturerId, r.1.bDeviceId) = id ∧ r.1.fDetectedUsing28xxxConventions = true ∧
      r.2.wrote = s.wrote ++ sequence28xxx := by
  obtain ⟨-, rfl, rfl⟩ := h
  unfold identify
  rw [if_neg (not_not.2 rfl)]
  by_cases hmanf : content.1 ≠ (probe28xxx c (normalModeFirstTwoBytes c s).2).1.1
  · simp only [if_pos hmanf]
    exact ⟨trivial, rfl, probe28xxx_wrote⟩
  · simp only [if_neg hmanf, if_pos (hdiffers.resolve_left hmanf)]
    exact ⟨trivial, rfl, probe28xxx_wrote⟩

/-- The last try gives its commands whatever comes of it. -/
theorem identify_last (normal : UInt8 × UInt8) (pof : Descriptor) (s : State σ) :
    (identify c normal [2] pof s).2.wrote = (probe29xxx c s).2.wrote := by
  unfold identify
  rw [if_pos (show (2 : Nat) ≠ 1 by decide)]
  simp only
  split
  · rfl
  · split <;> rfl

/-- What is compared is the same: the 29xxx sequence is tried. -/
theorem identify_goes_on (h : Answers c s content id again) (hmanf : content.1 = id.1)
    (hagain : content.2 = again) (pof : Descriptor) :
    Probed29xxx s (identify c content [1, 2] pof (normalModeFirstTwoBytes c s).2).2 := by
  obtain ⟨-, rfl, rfl⟩ := h
  unfold identify
  rw [if_neg (not_not.2 rfl)]
  simp only [if_neg (not_not.2 hmanf), if_neg (not_not.2 hagain)]
  refine ⟨sequence28xxx ++ sequence29xxx, ?_, by decide⟩
  rw [identify_last, probe29xxx_wrote, read_wrote, probe28xxx_wrote, normalMode_wrote,
    List.append_assoc]

theorem Probed29xxx.described {s' s'' : State σ} {pof' : Descriptor} (h : Probed29xxx s s')
    (hd : Described pof pof' s' s'') : Probed29xxx s s'' := by
  obtain ⟨l, hl, hmem⟩ := h
  obtain ⟨l', hl', -⟩ := hd.wrote
  exact ⟨l ++ l', by rw [hl', hl, List.append_assoc], List.mem_append_left _ hmem⟩

/-! ## Top theorem -/

/-- **The ID.**  An ID other than the contents is kept as found the 28xxx way, and
only plain contents are probed further, unless the manufacturer's byte alone is
that of the contents and the contents are back after the reset. -/
theorem getDescriptor_iff (h : Answers c s content id again) :
    ((id ≠ content → ((bootFlashGetDescriptor c pkft pof s).2.1.bManufacturerId,
          (bootFlashGetDescriptor c pkft pof s).2.1.bDeviceId) = id ∧
        (bootFlashGetDescriptor c pkft pof s).2.1.fDetectedUsing28xxxConventions = true) ∧
      (Probed29xxx s (bootFlashGetDescriptor c pkft pof s).2.2 → id = content)) ↔
    (id.1 = content.1 → again = content.2 → id.2 = content.2) := by
  have hcontent : (normalModeFirstTwoBytes c s).1 = content := h.content
  unfold bootFlashGetDescriptor
  simp only [hcontent]
  generalize ({ pof with fIsBelievedCapableOfWriteAndErase := true } : Descriptor) = pof
  have hd := describe_spec (c := c) content pkft
    (identify c content [1, 2] pof (normalModeFirstTwoBytes c s).2).1
    (identify c content [1, 2] pof (normalModeFirstTwoBytes c s).2).2
  constructor
  · rintro ⟨-, hplain⟩ hmanf hagain
    rw [hplain ((identify_goes_on h hmanf.symm hagain.symm pof).described hd)]
  · intro hcond
    by_cases hdiffers : content.1 ≠ id.1 ∨ content.2 ≠ again
    · obtain ⟨hid, h28, hwrote⟩ := identify_taken h hdiffers pof
      refine ⟨fun _ => ⟨?_, ?_⟩, ?_⟩
      · rw [hd.manf, hd.dev]
        exact hid
      · rw [hd.conventions]
        exact h28
      · rintro ⟨l, hl, hmem⟩
        obtain ⟨l', hl', hat⟩ := hd.wrote
        rw [hl', hwrote, List.append_assoc] at hl
        rw [← List.append_cancel_left hl] at hmem
        rcases List.mem_append.1 hmem with hmem | hmem
        · exact absurd hmem (by decide)
        · exact absurd (hat _ hmem) (by decide)
    · obtain ⟨hmanf, hagain⟩ := not_or.1 hdiffers
      have hsame : id = content :=
        Prod.ext (not_not.1 hmanf).symm (hcond (not_not.1 hmanf).symm (not_not.1 hagain).symm)
      exact ⟨fun hne => absurd hsame hne, fun _ => hsame⟩

end

/-- A chip of the 28xxx kind, which reads as its ID or as its contents. -/
def sharp (content id : UInt8 × UInt8) : Chip Bool where
  read identifies a :=
    (if a = 0 then (if identifies then id.1 else content.1)
      else if a = 1 then (if identifies then id.2 else content.2) else 0, identifies)
  write identifies a v :=
    if a = 0x5555 ∧ v = 0x90 then true
    else if a = 0x5555 ∧ v = 0xff then false
    else identifies

def unknownFlash : Descriptor := ⟨0, 0, [], 0, false, false⟩

def reading : State Bool := ⟨false, [], [], .empty⟩

theorem getDescriptor_iff_other_manufacturer :
    let r := bootFlashGetDescriptor (sharp (0x09, 0x62) (0xb0, 0xc9)) [] unknownFlash reading
    (((0xb0, 0xc9) : UInt8 × UInt8) ≠ (0x09, 0x62) →
        (r.2.1.bManufacturerId, r.2.1.bDeviceId) = (0xb0, 0xc9) ∧
          r.2.1.fDetectedUsing28xxxConventions = true) ∧
      (Probed29xxx reading r.2.2 → ((0xb0, 0xc9) : UInt8 × UInt8) = (0x09, 0x62)) := by
  have h : Answers (sharp (0x09, 0x62) (0xb0, 0xc9)) reading (0x09, 0x62) (0xb0, 0xc9) 0x62 :=
    ⟨rfl, rfl, rfl⟩
  exact (getDescriptor_iff h).2 fun hmanf => absurd hmanf (by decide)

/-- **A manufacturer's byte that the contents begin with.**  The chip answers, and
the ID it answered with is lost to the 29xxx sequence, which it does not know. -/
theorem same_manufacturer :
    let c := sharp (0xb0, 0x62) (0xb0, 0xc9)
    let r := bootFlashGetDescriptor c [] unknownFlash reading
    Answers c reading (0xb0, 0x62) (0xb0, 0xc9) 0x62 ∧
      ¬ (((0xb0, 0xc9) : UInt8 × UInt8) ≠ (0xb0, 0x62) →
        (r.2.1.bManufacturerId, r.2.1.bDeviceId) = (0xb0, 0xc9) ∧
          r.2.1.fDetectedUsing28xxxConventions = true) :=
  ⟨⟨rfl, rfl, rfl⟩, fun h => absurd (h (by decide)).2 (by decide)⟩

end Gentoox.Flash
