import GentooxLoader.Base.Words
import GentooxLoader.Flash.Protocol
import GentooxLoader.Flash.Turns

/-!
# How often the flash functions try (drivers/flash/BootFlash.c)

Neither loop moves on from a byte that does not read as it should.  What ends
them is a count of tries, for the 4K block of the byte when erasing and for the
byte when programming.  Whatever the chip reads as, as long as its waits end,

    eraseTurn_next       a turn that goes on has tried, or moves on
    erase_retries        the count of a block
    jobs_end             both functions return, after at most 4 tries for each
                         block or byte

and the same for programming.
-/

namespace Gentoox.Flash

open Loops

/-! ## Algorithm -/

section
variable {σ : Type} (c : Chip σ) (pof : ObjectFlash)

/-- The variables of the erase loop as it starts. -/
def eraseVars (s : State σ) : Erase σ :=
  ⟨pof.dwStartOffset, pof.dwLengthUsedArea, 0xffffffff, maxEraseRetriesIn4KBlockBeforeFailing,
    ({ s with szAdditionalErrorInfo := .empty }.callback pof .eraseStart 0 0).2⟩

def programVars (s : State σ) : Program σ :=
  ⟨pof.dwStartOffset, pof.dwLengthUsedArea, 0, 0xffffffff, 4,
    ({ s with szAdditionalErrorInfo := .empty }.callback pof .programStart 0 0).2⟩

/-- The turn gives the chip an erase command. -/
def Erase.tried (v : Erase σ) : Bool :=
  decide (v.dwLen ≠ 0 ∧ (v.s.read c v.dw).1 ≠ 0xff ∧ v.retry.nCountEraseRetryIn4KBlock ≠ 0)

/-- The turn gives the chip a program command. -/
def Program.tried (pba : UInt32 → UInt8) (v : Program σ) : Bool :=
  decide (v.dwLen ≠ 0 ∧ (v.s.read c v.dw).1 ≠ pba v.dwSrc ∧ v.retry.nCountProgramRetries ≠ 0)

/-- The 4K block of the address, counted on where the region goes past the last one. -/
def Erase.block (v : Erase σ) : Nat :=
  (pof.dwStartOffset.toNat + (pof.dwLengthUsedArea.toNat - v.dwLen.toNat)) / 0x1000

end

section
variable {σ : Type} {c : Chip σ} {pof : ObjectFlash} {pba : UInt32 → UInt8} {fuel fuel' : Nat}

/-! ## Fuel -/

theorem waitToggle_mono {dw : UInt32} {s : State σ} {r : UInt32 × State σ} (hle : fuel ≤ fuel')
    (h : waitToggle c fuel dw s = some r) : waitToggle c fuel' dw s = some r :=
  loop_mono hle h

theorem erase28xxx_mono {dw : UInt32} {s : State σ} {r : UInt8 × State σ} (hle : fuel ≤ fuel')
    (h : erase28xxx c fuel dw s = some r) : erase28xxx c fuel' dw s = some r := by
  obtain ⟨r', hloop, rfl⟩ := Option.map_eq_some_iff.1 h
  exact Option.map_eq_some_iff.2 ⟨r', loop_mono hle hloop, rfl⟩

theorem eraseBlock29xxx_mono {dw : UInt32} {s : State σ} {r : UInt32 × State σ}
    (hle : fuel ≤ fuel') (h : eraseBlock29xxx c fuel dw s = some r) :
    eraseBlock29xxx c fuel' dw s = some r := by
  obtain ⟨r', hwait, h⟩ := Option.bind_eq_some_iff.1 h
  refine Option.bind_eq_some_iff.2 ⟨r', waitToggle_mono hle hwait, ?_⟩
  split_ifs at h ⊢
  · exact waitToggle_mono hle h
  · exact h

theorem erase29xxx_mono {dw : UInt32} {n : Int} {s s' : State σ} (hle : fuel ≤ fuel')
    (h : erase29xxx c pof fuel dw n s = some s') : erase29xxx c pof fuel' dw n s = some s' := by
  obtain ⟨r, hblock, h⟩ := Option.bind_eq_some_iff.1 h
  refine Option.bind_eq_some_iff.2 ⟨r, eraseBlock29xxx_mono hle hblock, ?_⟩
  split_ifs at h ⊢
  · obtain ⟨r', hwait, rfl⟩ := Option.map_eq_some_iff.1 h
    exact Option.map_eq_some_iff.2 ⟨r', waitToggle_mono hle hwait, rfl⟩
  · exact h

theorem eraseTurn_grows : Grows (eraseTurn c pof) := by
  intro fuel fuel' v t hle h
  unfold eraseTurn at h ⊢
  simp only at h ⊢
  split_ifs at h ⊢
  · exact h
  · unfold Erase.erase at h ⊢
    split_ifs at h ⊢
    · exact h
    · obtain ⟨r, hr, rfl⟩ := Option.map_eq_some_iff.1 h
      exact Option.map_eq_some_iff.2 ⟨r, erase28xxx_mono hle hr, rfl⟩
    · obtain ⟨s', hr, rfl⟩ := Option.map_eq_some_iff.1 h
      exact Option.map_eq_some_iff.2 ⟨s', erase29xxx_mono hle hr, rfl⟩
  · exact h

theorem programTurn_grows : Grows (programTurn c pof pba) := by
  intro fuel fuel' v t hle h
  unfold programTurn at h ⊢
  simp only at h ⊢
  split_ifs at h ⊢
  · exact h
  · unfold Program.program at h ⊢
    split_ifs at h ⊢
    · exact h
    · obtain ⟨r, hr, rfl⟩ := Option.map_eq_some_iff.1 h
      obtain ⟨r', hloop, rfl⟩ := Option.map_eq_some_iff.1 hr
      exact Option.map_eq_some_iff.2
        ⟨_, Option.map_eq_some_iff.2 ⟨r', loop_mono hle hloop, rfl⟩, rfl⟩
    · obtain ⟨s', hr, rfl⟩ := Option.map_eq_some_iff.1 h
      obtain ⟨r, hwait, rfl⟩ := Option.map_eq_some_iff.1 hr
      exact Option.map_eq_some_iff.2
        ⟨_, Option.map_eq_some_iff.2 ⟨r, waitToggle_mono hle hwait, rfl⟩, rfl⟩
  · exact h

/-! ## What a turn does -/

/-- A turn that goes on has tried to erase the block, or moves on. -/
theorem eraseTurn_next {v w : Erase σ} (h : eraseTurn c pof fuel v = some (.next w)) :
    (v.tried c = true ∧ ∃ s, w = { v.retry with s := s }) ∨
      (v.tried c = false ∧ v.dwLen ≠ 0 ∧
        ∃ s, w = { v with dwLen := v.dwLen - 1, dw := v.dw + 1, s := s }) := by
  unfold Erase.tried
  rw [decide_eq_true_iff, decide_eq_false_iff_not]
  cases eraseTurn_step h with
  | erased28xxx hun htries => exact .inl ⟨⟨hun.1, hun.2, htries⟩, _, rfl⟩
  | erased29xxx hun htries => exact .inl ⟨⟨hun.1, hun.2, htries⟩, _, rfl⟩
  | advanced hlen hread => exact .inr ⟨fun h => h.2.1 hread, hlen, _, rfl⟩

/-- A turn that goes on has tried to program the byte, or moves on. -/
theorem programTurn_next {v w : Program σ} (h : programTurn c pof pba fuel v = some (.next w)) :
    (v.tried c pba = true ∧ ∃ s, w = { v.retry with s := s }) ∨
      (v.tried c pba = false ∧ v.dwLen ≠ 0 ∧
        ∃ s, w = { v with dwLen := v.dwLen - 1, dw := v.dw + 1, dwSrc := v.dwSrc + 1, s := s }) := by
  unfold Program.tried
  rw [decide_eq_true_iff, decide_eq_false_iff_not]
  cases programTurn_step h with
  | programmed28xxx hun htries => exact .inl ⟨⟨hun.1, hun.2, htries⟩, _, rfl⟩
  | programmed29xxx hun htries => exact .inl ⟨⟨hun.1, hun.2, htries⟩, _, rfl⟩
  | advanced hlen hread => exact .inr ⟨fun h => h.2.1 hread, hlen, _, rfl⟩

/-! ## Where a loop is -/

/-- `dwLen` bytes of the region are to come, from `dw` on. -/
structure Within (pof : ObjectFlash) (dw dwLen : UInt32) : Prop where
  le : dwLen.toNat ≤ pof.dwLengthUsedArea.toNat
  dw : dw.toNat =
    (pof.dwStartOffset.toNat + (pof.dwLengthUsedArea.toNat - dwLen.toNat)) % 2 ^ 32

theorem toNat_dec {n : UInt32} (h : n ≠ 0) : (n - 1).toNat = n.toNat - 1 ∧ 1 ≤ n.toNat := by
  have hpos : n.toNat ≠ 0 := fun h0 => h (UInt32.toNat_inj.1 h0)
  rw [UInt32.toNat_sub_of_le _ _ (UInt32.le_iff_toNat_le.2 (by rw [UInt32.toNat_one]; omega)),
    UInt32.toNat_one]
  omega

theorem within_start : Within pof pof.dwStartOffset pof.dwLengthUsedArea := by
  refine ⟨Nat.le_refl _, ?_⟩
  rw [Nat.sub_self, Nat.add_zero, Nat.mod_eq_of_lt pof.dwStartOffset.toNat_lt]

theorem Within.next {dw dwLen : UInt32} (h : Within pof dw dwLen) (hlen : dwLen ≠ 0) :
    Within pof (dw + 1) (dwLen - 1) := by
  obtain ⟨hle, hdw⟩ := h
  obtain ⟨hdec, hpos⟩ := toNat_dec hlen
  refine ⟨by omega, ?_⟩
  rw [hdec, UInt32.toNat_add, UInt32.toNat_one, hdw]
  omega

/-- Addresses of one 4K block. -/
theorem sameBlock_iff (a b : UInt32) :
    a &&& 0xfffff000 = b &&& 0xfffff000 ↔ a.toNat / 0x1000 = b.toNat / 0x1000 := by
  have hmask : ∀ x : UInt32, (x &&& 0xfffff000).toNat = x.toNat / 0x1000 * 0x1000 := fun x =>
    Words.and_mask x (k := 12) (by decide) (by decide)
  rw [← UInt32.toNat_inj, hmask, hmask]
  omega

/-! ## The count of a block -/

/-- The tries left for the 4K block. -/
def Erase.tries (v : Erase σ) : Nat :=
  if v.dwLastEraseAddress &&& 0xfffff000 = v.dw &&& 0xfffff000 then
    (v.nCountEraseRetryIn4KBlock - 1).toNat
  else 4

structure Erase.Counts (pof : ObjectFlash) (v : Erase σ) : Prop where
  within : Within pof v.dw v.dwLen
  pos : 1 ≤ v.nCountEraseRetryIn4KBlock
  le : v.nCountEraseRetryIn4KBlock ≤ 4

theorem eraseVars_counts (s : State σ) : (eraseVars pof s).Counts pof :=
  ⟨within_start, by show (1 : Int) ≤ 4; decide, by show (4 : Int) ≤ 4; decide⟩

theorem Erase.retry_spec (v : Erase σ) : v.retry.dw = v.dw ∧ v.retry.dwLen = v.dwLen ∧
    v.retry.dwLastEraseAddress &&& 0xfffff000 = v.dw &&& 0xfffff000 ∧
    v.retry.nCountEraseRetryIn4KBlock =
      if v.dwLastEraseAddress &&& 0xfffff000 = v.dw &&& 0xfffff000 then
        v.nCountEraseRetryIn4KBlock - 1
      else 4 := by
  unfold Erase.retry
  split
  · rename_i h
    exact ⟨rfl, rfl, h, rfl⟩
  · exact ⟨rfl, rfl, rfl, rfl⟩

theorem Erase.Counts.retry {v : Erase σ} (h : v.Counts pof)
    (htry : v.retry.nCountEraseRetryIn4KBlock ≠ 0) (s : State σ) :
    ({ v.retry with s := s } : Erase σ).Counts pof ∧
      ({ v.retry with s := s } : Erase σ).tries + 1 = v.tries := by
  obtain ⟨hwithin, hpos, hle⟩ := h
  obtain ⟨hdw, hlen, hlast, hn⟩ := v.retry_spec
  rw [hn] at htry
  refine ⟨⟨?_, ?_, ?_⟩, ?_⟩
  · show Within pof v.retry.dw v.retry.dwLen
    rw [hdw, hlen]
    exact hwithin
  · show 1 ≤ v.retry.nCountEraseRetryIn4KBlock
    rw [hn]
    split_ifs at htry ⊢ <;> omega
  · show v.retry.nCountEraseRetryIn4KBlock ≤ 4
    rw [hn]
    split_ifs <;> omega
  · unfold Erase.tries
    simp only
    rw [hdw, if_pos hlast, hn]
    split_ifs at htry ⊢ <;> omega

theorem Erase.Counts.advance {v : Erase σ} (h : v.Counts pof) (hlen : v.dwLen ≠ 0) (s : State σ) :
    let w : Erase σ := { v with dwLen := v.dwLen - 1, dw := v.dw + 1, s := s }
    w.Counts pof ∧ v.block pof ≤ w.block pof ∧ (w.block pof = v.block pof → w.tries ≤ v.tries) := by
  obtain ⟨hwithin, hpos, hle⟩ := h
  have hnext := hwithin.next hlen
  obtain ⟨hdec, hpos'⟩ := toNat_dec hlen
  have hlt := hwithin.le
  refine ⟨⟨hnext, hpos, hle⟩, ?_, fun hblock => ?_⟩
  · unfold Erase.block
    simp only [hdec]
    omega
  · -- in the same block the counter is what it was
    have hsame : v.dw &&& 0xfffff000 = (v.dw + 1) &&& 0xfffff000 := by
      rw [sameBlock_iff, hnext.dw, hwithin.dw]
      unfold Erase.block at hblock
      simp only [hdec] at hblock ⊢
      omega
    unfold Erase.tries
    simp only
    rw [← hsame]

theorem erase_retries : Retries (eraseTurn c pof) (Erase.Counts pof) (Erase.tried c)
    (fun v => v.dwLen.toNat) (Erase.block pof) Erase.tries 4 where
  le v h := by
    have := h.le
    unfold Erase.tries
    split <;> omega
  pos v h htry := by
    unfold Erase.tried at htry
    rw [← (h.retry (of_decide_eq_true htry).2.2 v.s).2]
    exact Nat.succ_le_succ (Nat.zero_le _)
  next fuel v w h ht := by
    rcases eraseTurn_next ht with ⟨htry, s, rfl⟩ | ⟨hno, hlen, s, rfl⟩
    · unfold Erase.tried at htry
      obtain ⟨hkeep, htries⟩ := h.retry (of_decide_eq_true htry).2.2 s
      obtain ⟨-, hlen, -, -⟩ := v.retry_spec
      refine ⟨hkeep, .inl ⟨htry, ?_, ?_, htries⟩⟩
      · exact congrArg UInt32.toNat hlen
      · unfold Erase.block
        simp only
        rw [hlen]
    · obtain ⟨hkeep, hplace, htries⟩ := h.advance hlen s
      obtain ⟨hdec, hpos⟩ := toNat_dec hlen
      refine ⟨hkeep, .inr ⟨hno, ?_, hplace, htries⟩⟩
      show (v.dwLen - 1).toNat < v.dwLen.toNat
      omega

/-! ## The count of a byte -/

/-- The tries left for the byte. -/
def Program.tries (v : Program σ) : Nat :=
  if v.dwLastProgramAddress = v.dw then (v.nCountProgramRetries - 1).toNat else 4

structure Program.Counts (pof : ObjectFlash) (v : Program σ) : Prop where
  within : Within pof v.dw v.dwLen
  pos : 1 ≤ v.nCountProgramRetries
  le : v.nCountProgramRetries ≤ 4

theorem programVars_counts (pof : ObjectFlash) (s : State σ) : (programVars pof s).Counts pof :=
  ⟨within_start, by show (1 : Int) ≤ 4; decide, by show (4 : Int) ≤ 4; decide⟩

theorem Program.retry_spec (v : Program σ) : v.retry.dw = v.dw ∧ v.retry.dwLen = v.dwLen ∧
    v.retry.dwLastProgramAddress = v.dw ∧ v.retry.nCountProgramRetries =
      if v.dwLastProgramAddress = v.dw then v.nCountProgramRetries - 1 else 4 := by
  unfold Program.retry
  split
  · rename_i h
    exact ⟨rfl, rfl, h, rfl⟩
  · exact ⟨rfl, rfl, rfl, rfl⟩

theorem Program.Counts.retry {v : Program σ} (h : v.Counts pof)
    (htry : v.retry.nCountProgramRetries ≠ 0) (s : State σ) :
    ({ v.retry with s := s } : Program σ).Counts pof ∧
      ({ v.retry with s := s } : Program σ).tries + 1 = v.tries := by
  obtain ⟨hwithin, hpos, hle⟩ := h
  obtain ⟨hdw, hlen, hlast, hn⟩ := v.retry_spec
  rw [hn] at htry
  refine ⟨⟨?_, ?_, ?_⟩, ?_⟩
  · show Within pof v.retry.dw v.retry.dwLen
    rw [hdw, hlen]
    exact hwithin
  · show 1 ≤ v.retry.nCountProgramRetries
    rw [hn]
    split_ifs at htry ⊢ <;> omega
  · show v.retry.nCountProgramRetries ≤ 4
    rw [hn]
    split_ifs <;> omega
  · unfold Program.tries
    simp only
    rw [hdw, if_pos hlast, hn]
    split_ifs at htry ⊢ <;> omega

/-- The place of a byte is the number of bytes before it. -/
theorem program_retries : Retries (programTurn c pof pba) (Program.Counts pof)
    (Program.tried c pba) (fun v => v.dwLen.toNat)
    (fun v => pof.dwLengthUsedArea.toNat - v.dwLen.toNat) Program.tries 4 where
  le v h := by
    have := h.le
    unfold Program.tries
    split <;> omega
  pos v h htry := by
    unfold Program.tried at htry
    rw [← (h.retry (of_decide_eq_true htry).2.2 v.s).2]
    exact Nat.succ_le_succ (Nat.zero_le _)
  next fuel v w h ht := by
    rcases programTurn_next ht with ⟨htry, s, rfl⟩ | ⟨hno, hlen, s, rfl⟩
    · unfold Program.tried at htry
      obtain ⟨hkeep, htries⟩ := h.retry (of_decide_eq_true htry).2.2 s
      obtain ⟨-, hlen, -, -⟩ := v.retry_spec
      exact ⟨hkeep, .inl ⟨htry, congrArg UInt32.toNat hlen, by simp only [hlen], htries⟩⟩
    · obtain ⟨hdec, hpos⟩ := toNat_dec hlen
      have hle := h.within.le
      refine ⟨⟨h.within.next hlen, h.pos, h.le⟩, .inr ⟨hno, ?_, ?_, fun hplace => ?_⟩⟩
      · simp only [hdec]
        omega
      · simp only [hdec]
        omega
      · simp only [hdec] at hplace
        omega

/-! ## The waits that end by themselves -/

/-- Programming the 28xxx way has a time to live. -/
theorem programStatus_ends (dw : UInt32) (w : UInt32 × Wait σ) :
    ∃ r, Fuel.Ends (fun fuel => loop (programStatusTurn c dw) fuel w) (some r) := by
  -- the spin comes down first, then the time to live, of which 0 is the longest
  refine ends_of_total (fun v => ?_)
    (fun v : UInt32 × Wait σ => v.2.n.toNat * 2 ^ 32 + (v.1 - 1).toNat) (fun v v' h => ?_) w
  · unfold programStatusTurn
    simp only
    generalize (if v.2.b &&& 0x80 = 0 then v.1 - 1 else v.1) = ttl
    split
    · exact ⟨_, rfl⟩
    · exact ⟨_, rfl⟩
  · unfold programStatusTurn at h
    simp only at h
    generalize httl : (if v.2.b &&& 0x80 = 0 then v.1 - 1 else v.1) = ttl at h
    split at h
    · rename_i hgo
      cases h
      simp only [spin_toNat]
      by_cases hspin : v.2.n = 0
      · obtain ⟨hb, hlive⟩ := hgo.resolve_right (not_not.2 hspin)
        rw [if_pos hb] at httl
        rw [hspin, UInt32.toNat_zero, httl]
        obtain ⟨hdec, hpos⟩ := toNat_dec hlive
        omega
      · obtain ⟨-, hpos⟩ := toNat_dec hspin
        have hlt := UInt32.toNat_lt (ttl - 1)
        omega
    · cases h

theorem programTurn_ends (h28 : pof.fDetectedUsing28xxxConventions = true) (v : Program σ) :
    ∃ fuel t, programTurn c pof pba fuel v = some t := by
  have hwait : ∀ (dw : UInt32) (data : UInt8) (s : State σ),
      ∃ fuel r, program28xxx c fuel dw data s = some r := by
    intro dw data s
    obtain ⟨r, n, hn⟩ := programStatus_ends (c := c) dw
      (0xfffff, ⟨0, 2, s.writes c [(dw, 0x40), (dw, data)]⟩)
    exact ⟨n, _, Option.map_eq_some_iff.2 ⟨r, hn n (Nat.le_refl n), rfl⟩⟩
  unfold programTurn Program.program
  simp only [h28, if_true]
  split
  · exact ⟨0, _, rfl⟩
  · split
    · split
      · exact ⟨0, _, rfl⟩
      · obtain ⟨fuel, r, hr⟩ := hwait ({ v with s := (v.s.read c v.dw).2 } : Program σ).retry.dw
          (pba v.dwSrc) ({ v with s := (v.s.read c v.dw).2 } : Program σ).retry.s
        exact ⟨fuel, _, Option.map_eq_some_iff.2 ⟨r, hr, rfl⟩⟩
    · exact ⟨0, _, rfl⟩

/-- Verifying has no wait in it. -/
theorem verify_ends (c : Chip σ) (pof : ObjectFlash) (pba : UInt32 → UInt8) (s : State σ) :
    ∃ r, Fuel.Ends (fun fuel => verify c pof pba fuel s) (some r) := by
  have hnow : ∀ r : Bool × State σ, Fuel.Ends (fun _ : Nat => some r) (some r) := fun r =>
    ⟨0, fun _ _ => rfl⟩
  unfold verify
  simp only
  split
  · split
    · refine ends_of_total (fun v => ?_) (fun v : Verify σ => v.dwLen.toNat) (fun v w h => ?_) _
      · unfold verifyTurn
        simp only
        split
        · exact ⟨_, rfl⟩
        · split
          · exact ⟨_, rfl⟩
          · exact ⟨_, rfl⟩
      · unfold verifyTurn at h
        simp only at h
        split at h
        · cases h
        · rename_i hlen
          split at h
          · cases h
          · cases h
            obtain ⟨hdec, hpos⟩ := toNat_dec hlen
            show (v.dwLen - 1).toNat < v.dwLen.toNat
            omega
    · exact ⟨_, hnow _⟩
  · exact ⟨_, hnow _⟩

theorem erase_ends {s : State σ} (hwaits : TurnsEnd (eraseTurn c pof) (eraseVars pof s)) :
    ∃ r, Fuel.Ends (fun fuel => bootFlashEraseMinimalRegion c pof fuel s) (some r) := by
  unfold bootFlashEraseMinimalRegion
  simp only
  split
  · exact erase_retries.ends eraseTurn_grows (eraseVars_counts s) hwaits
  · exact ⟨_, 0, fun _ _ => rfl⟩

theorem program_ends {s : State σ} (hwaits : pof.fDetectedUsing28xxxConventions = false →
    TurnsEnd (programTurn c pof pba) (programVars pof s)) :
    ∃ r, Fuel.Ends (fun fuel => bootFlashProgram c pof pba fuel s) (some r) := by
  have hturns : TurnsEnd (programTurn c pof pba) (programVars pof s) := by
    cases h28 : pof.fDetectedUsing28xxxConventions with
    | false => exact hwaits h28
    | true => exact fun w _ => programTurn_ends h28 w
  unfold bootFlashProgram
  simp only
  split
  · obtain ⟨r, n, hr⟩ :=
      program_retries.ends programTurn_grows (programVars_counts pof s) hturns
    by_cases htrue : r.1 = true
    · obtain ⟨r', n', hr'⟩ := verify_ends c pof pba r.2
      refine ⟨r', max n n', fun fuel hfuel => ?_⟩
      refine Option.bind_eq_some_iff.2 ⟨r, hr fuel (le_of_max_le_left hfuel), ?_⟩
      rw [if_pos htrue]
      exact hr' fuel (le_of_max_le_right hfuel)
    · refine ⟨r, n, fun fuel hfuel => ?_⟩
      refine Option.bind_eq_some_iff.2 ⟨r, hr fuel hfuel, ?_⟩
      rw [if_neg htrue]
  · exact ⟨_, 0, fun _ _ => rfl⟩

end

/-! ## Top theorem -/

section
variable {σ : Type} (c : Chip σ) (pof : ObjectFlash) (pba : UInt32 → UInt8) (s s' : State σ)

/-- The erase commands the run on `fuel` gives at one block, by a turn each. -/
def eraseRounds (blockOf : Erase σ → Nat) (fuel block : Nat) : Nat :=
  (turns (eraseTurn c pof fuel) fuel (eraseVars pof s)).countP fun v =>
    v.tried c && blockOf v == block

/-- The program commands the run on `fuel` gives at the byte at `a`, by a turn each. -/
def programAttempts (fuel : Nat) (a : UInt32) : Nat :=
  (turns (programTurn c pof pba fuel) fuel (programVars pof s)).countP fun v =>
    v.tried c pba && v.dw == a

theorem eraseRounds_le (fuel block : Nat) :
    eraseRounds c pof s (Erase.block pof) fuel block ≤ 4 := by
  refine erase_retries.count_le (k := block) (fun v _ hp => ?_) (eraseVars_counts s) fuel fuel
  obtain ⟨htry, hblock⟩ := Bool.and_eq_true_iff.1 hp
  exact ⟨htry, eq_of_beq hblock⟩

theorem eraseRounds_address_le
    (hfit : pof.dwStartOffset.toNat + pof.dwLengthUsedArea.toNat ≤ 2 ^ 32) (fuel block : Nat) :
    eraseRounds c pof s (fun v => v.dw.toNat / 0x1000) fuel block ≤ 4 := by
  refine erase_retries.count_le (k := block) (fun v hcounts hp => ?_) (eraseVars_counts s) fuel fuel
  obtain ⟨htry, hblock⟩ := Bool.and_eq_true_iff.1 hp
  refine ⟨htry, ?_⟩
  unfold Erase.tried at htry
  obtain ⟨-, hpos⟩ := toNat_dec (of_decide_eq_true htry).1
  obtain ⟨⟨hle, hdw⟩, -, -⟩ := hcounts
  rw [Nat.mod_eq_of_lt (by omega)] at hdw
  rw [← eq_of_beq hblock]
  show v.block pof = v.dw.toNat / 0x1000
  rw [hdw]
  rfl

theorem programAttempts_le (fuel : Nat) (a : UInt32) : programAttempts c pof pba s fuel a ≤ 4 := by
  refine program_retries.count_le (k := (a.toNat + 2 ^ 32 - pof.dwStartOffset.toNat) % 2 ^ 32)
    (fun v hcounts hp => ?_) (programVars_counts pof s) fuel fuel
  obtain ⟨htry, ha⟩ := Bool.and_eq_true_iff.1 hp
  refine ⟨htry, ?_⟩
  obtain ⟨⟨hle, hdw⟩, -, -⟩ := hcounts
  rw [← eq_of_beq ha, hdw]
  have hused := pof.dwLengthUsedArea.toNat_lt
  have hstart := pof.dwStartOffset.toNat_lt
  omega

/-- **The jobs end.**  With a chip that answers anything, as long as each wait
ends, both functions return; erasing gave no 4K block and programming no byte
more than four tries.  A 4K block is told by its addresses, or by the place in the
region where that goes past the last address. -/
theorem jobs_end :
    ((TurnsEnd (eraseTurn c pof) (eraseVars pof s) →
        ∃ r, Fuel.Ends (fun fuel => bootFlashEraseMinimalRegion c pof fuel s) (some r)) ∧
      (∀ fuel block, eraseRounds c pof s (Erase.block pof) fuel block ≤ 4) ∧
      (pof.dwStartOffset.toNat + pof.dwLengthUsedArea.toNat ≤ 2 ^ 32 →
        ∀ fuel block, eraseRounds c pof s (fun v => v.dw.toNat / 0x1000) fuel block ≤ 4)) ∧
    ((pof.fDetectedUsing28xxxConventions = false →
        TurnsEnd (programTurn c pof pba) (programVars pof s')) →
      ∃ r, Fuel.Ends (fun fuel => bootFlashProgram c pof pba fuel s') (some r)) ∧
    ∀ fuel a, programAttempts c pof pba s' fuel a ≤ 4 :=
  ⟨⟨erase_ends, eraseRounds_le c pof s, eraseRounds_address_le c pof s⟩, program_ends,
    programAttempts_le c pof pba s'⟩

end

/-- A chip that nothing erases. -/
def stuck : Chip Unit where
  read _ _ := (0, ())
  write _ _ _ := ()

def stuckJob : ObjectFlash := ⟨8, 0, 1, none, false⟩

theorem stuck_waitToggle (dw : UInt32) (s : State Unit) :
    waitToggle stuck 1 dw s = some (0, s) := by
  have hsame : toggleTurn stuck dw ⟨0, 0, s⟩ = some (.done (0, s)) := if_neg fun h => h rfl
  exact loop_done hsame 0

theorem stuck_erases (dw : UInt32) (n : Int) (s : State Unit) :
    ∃ s', erase29xxx stuck stuckJob 1 dw n s = some s' := by
  unfold erase29xxx eraseBlock29xxx
  rw [stuck_waitToggle, Option.bind_some, if_pos (show (0 : UInt32) < 3 by decide),
    stuck_waitToggle, Option.bind_some]
  split
  · rw [stuck_waitToggle]
    exact ⟨_, rfl⟩
  · exact ⟨_, rfl⟩

theorem stuck_waits (v : Erase Unit) : ∃ fuel t, eraseTurn stuck stuckJob fuel v = some t := by
  refine ⟨1, ?_⟩
  unfold eraseTurn Erase.erase
  simp only
  split
  · exact ⟨_, rfl⟩
  · split
    · split
      · exact ⟨_, rfl⟩
      · obtain ⟨s', hs'⟩ := stuck_erases ({ v with s := (v.s.read stuck v.dw).2 } : Erase Unit).retry.dw
          ({ v with s := (v.s.read stuck v.dw).2 } : Erase Unit).retry.nCountEraseRetryIn4KBlock
          ({ v with s := (v.s.read stuck v.dw).2 } : Erase Unit).retry.s
        exact ⟨_, Option.map_eq_some_iff.2 ⟨s', hs', rfl⟩⟩
    · exact ⟨_, rfl⟩

theorem jobs_end_stuck : ∃ r, Fuel.Ends
    (fun fuel => bootFlashEraseMinimalRegion stuck stuckJob fuel ⟨(), [], [], .empty⟩) (some r) :=
  (jobs_end stuck stuckJob (fun _ => 0) ⟨(), [], [], .empty⟩ ⟨(), [], [], .empty⟩).1.1
    fun w _ => stuck_waits w

end Gentoox.Flash
