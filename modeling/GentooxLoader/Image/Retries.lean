import GentooxLoader.Image.Start

/-!
# What the loader reports (boot_rom/2bBootStartBios.c)

The loop of `BootStartBiosLoader` with a flash that may read differently at each
try.  The cromwell is told how it was loaded by four words of its image.  The
counter of the tries is set to zero inside of the loop, so what it is told is
always one.

    retryLoop_const            with a flash that does not change it is the loop of `loadLoop`
    loadAttempts_spec          it ends at the first try that reads a right hash, or after all
    loadAttempts_bank          the word of the bank is right
    loadAttempts_reports_iff   both words are right ↔ the first try is good, or none
-/

namespace Gentoox.Image

open Cells Lib

/-! ## Algorithm -/

def cromwellMemoryPos : Nat := 0x03A00000

/-- The banks tried, and how the loop ended. -/
structure Attempts where
  tried : List Nat
  outcome : Outcome

section
variable (d : Digests) (flash : Nat → Nat → UInt8) (s : Checksumstruct)

/-- The tries that are left, and the number of this one; `flash` is what is read at each. -/
def retryLoop : Nat → Nat → Nat → Nat → (Nat → UInt8) → Attempts
  | 0, _, _, _, _ => ⟨[], .noValidImage⟩
  | left + 1, loadretry, _, flashbank, ram =>
    let cromloadtry := 0
    let flashbank := nextBank s.biossizeType loadretry flashbank
    let cromloadtry := cromloadtry + 1
    let checksum := read (flash loadretry)
      (buildinflashFlash flashbank + s.compressedImageStart).toNat 20
    let ram := copyImage (flash loadretry) s ram flashbank
    let data := read ram cromwellCompressTemploc s.compressedImageSize.toNat
    if checksum = (d.sha1 data).toList then
      ⟨[flashbank], .started ⟨data, cromloadtry, flashbank + 1, s.biossizeType⟩⟩
    else
      let rest := retryLoop left (loadretry + 1) cromloadtry flashbank ram
      { rest with tried := flashbank :: rest.tried }

/-- `validimage=0; flashbank=3; for (loadretry=0;loadretry<100;loadretry++)` -/
def loadAttempts (ram : Nat → UInt8) : Attempts := retryLoop d flash s 100 0 0 3 ram

end

/-- The words that are stored over the image once it is decompressed. -/
def tellCromwell (st : Started) (ram : Nat → UInt8) : Nat → UInt8 :=
  let ram := write ram (cromwellMemoryPos + 0x20) (le32 1)
  let ram := write ram (cromwellMemoryPos + 0x24) (le32 (UInt32.ofNat st.cromloadtry))
  let ram := write ram (cromwellMemoryPos + 0x28) (le32 (UInt32.ofNat st.flashbank))
  write ram (cromwellMemoryPos + 0x2C) (le32 st.biossizeType)

/-! ## The banks -/

/-- The bank of each try. -/
def bankOf (biossizeType : UInt32) (loadretry : Nat) : Nat :=
  if biossizeType = 1 then [1, 2, 0, 3].getD (loadretry / 25) 0 else 3

theorem nextBank_zero (biossizeType : UInt32) : nextBank biossizeType 0 3 = bankOf biossizeType 0 := by
  unfold nextBank bankOf
  by_cases h1 : biossizeType = 1
  · subst h1
    rfl
  · rw [if_neg h1, if_neg h1, ite_self]

theorem nextBank_succ (biossizeType : UInt32) {i : Nat} (hi : i + 1 < 100) :
    nextBank biossizeType (i + 1) (bankOf biossizeType i) = bankOf biossizeType (i + 1) := by
  have hbanks : ∀ i < 99, nextBank 1 (i + 1) (bankOf 1 i) = bankOf 1 (i + 1) := by decide
  by_cases h1 : biossizeType = 1
  · subst h1
    exact hbanks i (by omega)
  · unfold nextBank bankOf
    rw [if_neg h1, if_neg h1, if_neg h1, ite_self]

/-! ## The tries -/

section
variable {d : Digests} {s : Checksumstruct}

/-- With a flash that does not change. -/
theorem retryLoop_const (flash : Nat → UInt8) (left loadretry cromloadtry flashbank : Nat)
    (ram : Nat → UInt8) :
    (retryLoop d (fun _ => flash) s left loadretry cromloadtry flashbank ram).outcome =
      loadLoop d flash s left loadretry flashbank ram := by
  induction left generalizing loadretry cromloadtry flashbank ram with
  | zero => rfl
  | succ left ih =>
    unfold retryLoop loadLoop
    simp only
    split
    · rfl
    · exact ih _ _ _ _

variable {flash : Nat → Nat → UInt8}

/-- What a try hashes. -/
def dataAt (flash : Nat → Nat → UInt8) (s : Checksumstruct) (i : Nat) : List UInt8 :=
  read (flash i) (buildinflashFlash (bankOf s.biossizeType i) + s.compressedImageStart + 20).toNat
    s.compressedImageSize.toNat

/-- A try reads a bank with the hash of its data. -/
def Good (d : Digests) (flash : Nat → Nat → UInt8) (s : Checksumstruct) (i : Nat) : Prop :=
  read (flash i) (buildinflashFlash (bankOf s.biossizeType i) + s.compressedImageStart).toNat 20 =
    (d.sha1 (dataAt flash s i)).toList

/-- One try, with the bank it takes. -/
theorem retryLoop_succ {left i cromloadtry flashbank : Nat} {ram : Nat → UInt8}
    (hnext : nextBank s.biossizeType i flashbank = bankOf s.biossizeType i) :
    (Good d flash s i → retryLoop d flash s (left + 1) i cromloadtry flashbank ram =
        ⟨[bankOf s.biossizeType i],
          .started ⟨dataAt flash s i, 1, bankOf s.biossizeType i + 1, s.biossizeType⟩⟩) ∧
      (¬ Good d flash s i → ∃ ram', retryLoop d flash s (left + 1) i cromloadtry flashbank ram =
        ⟨bankOf s.biossizeType i ::
            (retryLoop d flash s left (i + 1) 1 (bankOf s.biossizeType i) ram').tried,
          (retryLoop d flash s left (i + 1) 1 (bankOf s.biossizeType i) ram').outcome⟩) := by
  constructor
  · intro hgood
    rw [retryLoop]
    simp only
    rw [hnext, read_copyImage]
    exact if_pos hgood
  · intro hbad
    refine ⟨copyImage (flash i) s ram (bankOf s.biossizeType i), ?_⟩
    rw [retryLoop]
    simp only
    rw [hnext, read_copyImage]
    exact if_neg hbad

/-- The banks of the tries from one to another. -/
def banksFrom (s : Checksumstruct) (i n : Nat) : List Nat :=
  (List.range' i n).map (bankOf s.biossizeType)

/-- The loop from some try on ends at the first good one, or goes through; by
induction on the tries that are left. -/
theorem retryLoop_spec {left i cromloadtry flashbank : Nat} {ram : Nat → UInt8}
    (htotal : i + left = 100)
    (hnext : left ≠ 0 → nextBank s.biossizeType i flashbank = bankOf s.biossizeType i) :
    (∃ k, i ≤ k ∧ k < 100 ∧ Good d flash s k ∧ (∀ j, i ≤ j → j < k → ¬ Good d flash s j) ∧
      retryLoop d flash s left i cromloadtry flashbank ram = ⟨banksFrom s i (k + 1 - i),
        .started ⟨dataAt flash s k, 1, bankOf s.biossizeType k + 1, s.biossizeType⟩⟩) ∨
      (∀ j, i ≤ j → j < 100 → ¬ Good d flash s j) ∧
        retryLoop d flash s left i cromloadtry flashbank ram =
          ⟨banksFrom s i left, .noValidImage⟩ := by
  induction left generalizing i cromloadtry flashbank ram with
  | zero => exact .inr ⟨fun j h1 h2 => by omega, rfl⟩
  | succ left ih =>
    obtain ⟨hdone, hgo⟩ := retryLoop_succ (hnext (Nat.succ_ne_zero left))
    by_cases hgood : Good d flash s i
    · refine .inl ⟨i, Nat.le_refl i, by omega, hgood, fun j h1 h2 => by omega, ?_⟩
      rw [hdone hgood, Nat.add_sub_cancel_left]
      rfl
    · obtain ⟨ram', hram'⟩ := hgo hgood
      have hbefore : ∀ {k}, (∀ j, i + 1 ≤ j → j < k → ¬ Good d flash s j) →
          ∀ j, i ≤ j → j < k → ¬ Good d flash s j := by
        intro k hk j h1 h2
        rcases Nat.eq_or_lt_of_le h1 with rfl | h1
        · exact hgood
        · exact hk j h1 h2
      have hnext' : left ≠ 0 → nextBank s.biossizeType (i + 1) (bankOf s.biossizeType i) =
          bankOf s.biossizeType (i + 1) := fun h0 => nextBank_succ s.biossizeType (by omega)
      rw [hram']
      rcases ih (by omega) hnext' with ⟨k, hik, hk, hkgood, hkfirst, hloop⟩ | ⟨hnone, hloop⟩
      · refine .inl ⟨k, by omega, hk, hkgood, hbefore hkfirst, ?_⟩
        rw [hloop, show k + 1 - i = (k + 1 - (i + 1)) + 1 by omega]
        rfl
      · refine .inr ⟨hbefore hnone, ?_⟩
        rw [hloop]
        rfl

variable (d flash s) in
/-- **The loop** ends at the first try that reads a right hash. -/
theorem loadAttempts_spec (ram : Nat → UInt8) :
    (∃ k, k < 100 ∧ Good d flash s k ∧ (∀ j, j < k → ¬ Good d flash s j) ∧
      loadAttempts d flash s ram = ⟨banksFrom s 0 (k + 1),
        .started ⟨dataAt flash s k, 1, bankOf s.biossizeType k + 1, s.biossizeType⟩⟩) ∨
      (∀ j, j < 100 → ¬ Good d flash s j) ∧
        loadAttempts d flash s ram = ⟨banksFrom s 0 100, .noValidImage⟩ := by
  rcases @retryLoop_spec d s flash 100 0 0 3 ram (Nat.zero_add 100)
    fun _ => nextBank_zero s.biossizeType with ⟨k, -, hk, hgood, hfirst, hloop⟩ | ⟨hnone, hloop⟩
  · exact .inl ⟨k, hk, hgood, fun j hj => hfirst j (Nat.zero_le j) hj, hloop⟩
  · exact .inr ⟨fun j hj => hnone j (Nat.zero_le j) hj, hloop⟩

/-! ## What the cromwell is told -/

theorem tellCromwell_words (st : Started) (ram : Nat → UInt8) :
    read (tellCromwell st ram) (cromwellMemoryPos + 0x24) 4 =
        le32 (UInt32.ofNat st.cromloadtry) ∧
      read (tellCromwell st ram) (cromwellMemoryPos + 0x28) 4 =
        le32 (UInt32.ofNat st.flashbank) := by
  have hlen : ∀ x : UInt32, (le32 x).length = 4 := fun _ => rfl
  unfold tellCromwell
  simp only
  constructor
  · rw [read_write_of_outside _ _ _ _ _ (.inl (by omega)),
      read_write_of_outside _ _ _ _ _ (.inl (by omega)), read_write_of_length (hlen _)]
  · rw [read_write_of_outside _ _ _ _ _ (.inl (by omega)), read_write_of_length (hlen _)]

/-- The words are those of the run: how many banks were tried, and which was the last. -/
structure Reports (d : Digests) (flash : Nat → Nat → UInt8) (s : Checksumstruct) (a : Attempts) :
    Prop where
  order : s.biossizeType = 1 →
    a.tried = (List.range a.tried.length).map fun i => [1, 2, 0, 3].getD (i / 25) 0
  words : ∀ st, a.outcome = .started st → ∀ ram, ∃ b, a.tried.getLast? = some b ∧
    read (flash (a.tried.length - 1)) (buildinflashFlash b + s.compressedImageStart).toNat 20 =
      (d.sha1 st.bufferIN).toList ∧
    read (tellCromwell st ram) (cromwellMemoryPos + 0x24) 4 =
      le32 (UInt32.ofNat a.tried.length) ∧
    read (tellCromwell st ram) (cromwellMemoryPos + 0x28) 4 = le32 (UInt32.ofNat (b + 1))

theorem banksFrom_order (htype : s.biossizeType = 1) (n : Nat) : banksFrom s 0 n =
    (List.range (banksFrom s 0 n).length).map fun i => [1, 2, 0, 3].getD (i / 25) 0 := by
  unfold banksFrom bankOf
  rw [List.length_map, List.length_range', htype, ← List.range_eq_range']
  rfl

theorem length_banksFrom (s : Checksumstruct) (i n : Nat) : (banksFrom s i n).length = n := by
  unfold banksFrom
  rw [List.length_map, List.length_range']

theorem getLast?_banksFrom (s : Checksumstruct) (n : Nat) :
    (banksFrom s 0 (n + 1)).getLast? = some (bankOf s.biossizeType n) := by
  unfold banksFrom
  rw [← List.range_eq_range', List.range_succ, List.map_append, List.map_singleton,
    List.getLast?_concat]

/-- The word of the bank is right in every run that starts. -/
theorem loadAttempts_bank {ram : Nat → UInt8} {st : Started}
    (hst : (loadAttempts d flash s ram).outcome = .started st) (ram' : Nat → UInt8) :
    ∃ b, (loadAttempts d flash s ram).tried.getLast? = some b ∧
      read (flash ((loadAttempts d flash s ram).tried.length - 1))
        (buildinflashFlash b + s.compressedImageStart).toNat 20 = (d.sha1 st.bufferIN).toList ∧
      read (tellCromwell st ram') (cromwellMemoryPos + 0x28) 4 = le32 (UInt32.ofNat (b + 1)) := by
  rcases loadAttempts_spec d s flash ram with
    ⟨k, -, hgood, -, hloop⟩ | ⟨-, hloop⟩
  · rw [hloop] at hst ⊢
    obtain rfl := Outcome.started.inj hst
    refine ⟨bankOf s.biossizeType k, getLast?_banksFrom s k, ?_, (tellCromwell_words _ _).2⟩
    rw [length_banksFrom]
    exact hgood
  · rw [hloop] at hst
    cases hst

/-- The word of the tries is right of the first one only. -/
theorem Reports.first {k : Nat} {st : Started} (hk : k < 100) (htry : st.cromloadtry = 1)
    (h : Reports d flash s ⟨banksFrom s 0 (k + 1), .started st⟩) : k = 0 := by
  obtain ⟨b, -, -, htold, -⟩ := h.words st rfl fun _ => 0
  rw [(tellCromwell_words _ _).1, length_banksFrom, htry] at htold
  have hbyte : 1 % 2 ^ 32 % 2 ^ 8 = (k + 1) % 2 ^ 32 % 2 ^ 8 :=
    congrArg (fun l => (l.headD 0).toNat) htold
  omega

/-! ## Top theorem -/

/-- **The words are right** exactly if the first try is good, or none is. -/
theorem loadAttempts_reports_iff (ram : Nat → UInt8) :
    Reports d flash s (loadAttempts d flash s ram) ↔
      Good d flash s 0 ∨ ∀ i, i < 100 → ¬ Good d flash s i := by
  have hbank := @loadAttempts_bank d s flash ram
  rcases loadAttempts_spec d s flash ram with
    ⟨k, hk, hgood, hfirst, hloop⟩ | ⟨hnone, hloop⟩
  · rw [hloop] at hbank ⊢
    constructor
    · intro h
      obtain rfl := h.first hk rfl
      exact .inl hgood
    · rintro (h0 | hnone)
      · obtain rfl : k = 0 := by
          by_contra hne
          exact hfirst 0 (Nat.pos_of_ne_zero hne) h0
        refine ⟨fun htype => banksFrom_order htype 1, ?_⟩
        intro st hst ram'
        obtain ⟨b, hlast, hhash, hword⟩ := hbank hst ram'
        obtain rfl := Outcome.started.inj hst
        exact ⟨b, hlast, hhash, (tellCromwell_words _ _).1, hword⟩
      · exact absurd hgood (hnone k hk)
  · rw [hloop]
    refine iff_of_true ⟨fun htype => banksFrom_order htype 100, ?_⟩ (.inr hnone)
    intro st hst
    cases hst

end

/-! ## A bad read -/

/-- A ROM of three bytes at the start of bank 1. -/
def smallRom : Checksumstruct := ⟨[], 0, 0, 3, 1⟩

/-- The first try reads zeros, the others the ROM with its hash. -/
def badFirst : Nat → Nat → UInt8 := fun i =>
  if i = 0 then fun _ => 0
  else write (fun _ => 0xff) 0xfff40000 ((digests.sha1 [0x5a, 0x5a, 0x5a]).toList ++ [0x5a, 0x5a, 0x5a])

theorem badFirst_good : ¬ Good digests badFirst smallRom 0 ∧ Good digests badFirst smallRom 1 := by
  unfold Good
  decide +kernel

/-- The second try starts the cromwell, which is told that it was the first. -/
theorem badFirst_reports :
    ¬ Reports digests badFirst smallRom (loadAttempts digests badFirst smallRom fun _ => 0) := by
  intro h
  rcases loadAttempts_spec digests smallRom badFirst fun _ => 0 with
    ⟨k, hk, hgood, -, hloop⟩ | ⟨hnone, -⟩
  · rw [hloop] at h
    obtain rfl := h.first hk rfl
    exact badFirst_good.1 hgood
  · exact hnone 1 (by decide) badFirst_good.2

end Gentoox.Image
