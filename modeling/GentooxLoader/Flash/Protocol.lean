import GentooxLoader.Flash.BootFlash

/-!
# Chips and their commands

A `Protocol` is what the flash functions rely on in a chip.  Between two commands
it is idle and reads as its contents; an erase command turns bytes of the
addressed block to 0xff, a program command clears bits of the addressed byte.
The waits end after reads that show the command is over (`status_reads`,
`waitToggle_reads`), so that after each command

    Kept P a s s'   the chip is idle again and only the block of `a` has changed
-/

namespace Gentoox.Flash

open Loops

/-! ## Chips -/

section
variable {σ : Type} (c : Chip σ)

def Chip.writes (x : σ) (l : List (UInt32 × UInt8)) : σ := l.foldl (fun x w => c.write x w.1 w.2) x

/-- `n` reads at `a`: the last byte and the chip after it. -/
def Chip.reads (a : UInt32) : Nat → σ → UInt8 × σ
  | 0, x => (0, x)
  | n + 1, x => c.read (Chip.reads a n x).2 a

/-- What the two functions rely on in a chip, under the conventions it was
detected with.  `block` tells the erase blocks apart. -/
structure Protocol (pof : ObjectFlash) where
  mem : σ → UInt32 → UInt8
  block : UInt32 → UInt32
  /-- The chip waits for a command and reads as its contents. -/
  Idle : σ → Prop
  read_idle : ∀ x a, Idle x → a < pof.dwLengthInBytes →
    (c.read x a).1 = mem x a ∧ Idle (c.read x a).2 ∧
      ∀ b, b < pof.dwLengthInBytes → mem (c.read x a).2 b = mem x b
  /-- No longer busy, after the time it may take to go busy. -/
  erase28xxx : pof.fDetectedUsing28xxxConventions = true →
    ∀ x a n, Idle x → a < pof.dwLengthInBytes → 0x100 ≤ n →
    let r := c.reads a n (c.writes x [(0x5555, 0x50), (a, 0x20), (a, 0xd0)])
    r.1 &&& 0x80 ≠ 0 →
    let y := c.writes r.2 [(0x5555, 0x50), (0x5555, 0xff)]
    Idle y ∧ ∀ b, b < pof.dwLengthInBytes →
      mem y b = mem x b ∨ block b = block a ∧ mem y b = 0xff
  program28xxx : pof.fDetectedUsing28xxxConventions = true →
    ∀ x a v n, Idle x → a < pof.dwLengthInBytes → 2 ≤ n →
    let r := c.reads a n (c.writes x [(a, 0x40), (a, v)])
    r.1 &&& 0x80 ≠ 0 →
    let y := c.writes r.2 [(a, 0x50), (a, 0xff)]
    Idle y ∧ (∀ b, b < pof.dwLengthInBytes → b ≠ a → mem y b = mem x b) ∧
      mem y a &&& mem x a = mem y a
  /-- Two reads show the same bit 6: the command is done, or was none. -/
  erase29xxx : pof.fDetectedUsing28xxxConventions = false →
    ∀ x a code n, Idle x → a < pof.dwLengthInBytes → code = 0x50 ∨ code = 0x30 →
    let r := c.reads a (n + 1) (c.writes x (eraseSequence a code))
    let r' := c.read r.2 a
    r'.1 &&& 0x40 = r.1 &&& 0x40 →
    Idle r'.2 ∧ ∀ b, b < pof.dwLengthInBytes →
      mem r'.2 b = mem x b ∨ block b = block a ∧ mem r'.2 b = 0xff
  eraseChip : pof.fDetectedUsing28xxxConventions = false →
    ∀ x a n, Idle x → a < pof.dwLengthInBytes →
    let r := c.reads a (n + 1) (c.writes x (eraseSequence 0x5555 0x10))
    let r' := c.read r.2 a
    r'.1 &&& 0x40 = r.1 &&& 0x40 →
    Idle r'.2 ∧ ∀ b, b < pof.dwLengthInBytes → mem r'.2 b = mem x b ∨ mem r'.2 b = 0xff
  program29xxx : pof.fDetectedUsing28xxxConventions = false →
    ∀ x a v n, Idle x → a < pof.dwLengthInBytes →
    let r := c.reads a (n + 1) (c.writes x (programSequence a v))
    let r' := c.read r.2 a
    r'.1 &&& 0x40 = r.1 &&& 0x40 →
    Idle r'.2 ∧ (∀ b, b < pof.dwLengthInBytes → b ≠ a → mem r'.2 b = mem x b) ∧
      mem r'.2 a &&& mem x a = mem r'.2 a
  reset : pof.fDetectedUsing28xxxConventions = false → ∀ x, Idle x →
    Idle (c.writes x resetSequence) ∧
      ∀ b, b < pof.dwLengthInBytes → mem (c.writes x resetSequence) b = mem x b

end

/-! ## States -/

section
variable {σ : Type} {c : Chip σ} {pof : ObjectFlash}

@[simp] theorem read_fst (s : State σ) (a : UInt32) : (s.read c a).1 = (c.read s.chip a).1 := rfl

@[simp] theorem read_chip (s : State σ) (a : UInt32) :
    (s.read c a).2.chip = (c.read s.chip a).2 := rfl

@[simp] theorem read_wrote (s : State σ) (a : UInt32) : (s.read c a).2.wrote = s.wrote := rfl

@[simp] theorem writes_chip (s : State σ) (l : List (UInt32 × UInt8)) :
    (s.writes c l).chip = c.writes s.chip l := by
  induction l generalizing s with
  | nil => rfl
  | cons w l ih => exact ih (s.write c w.1 w.2)

@[simp] theorem writes_wrote (s : State σ) (l : List (UInt32 × UInt8)) :
    (s.writes c l).wrote = s.wrote ++ l := by
  induction l generalizing s with
  | nil => exact (List.append_nil _).symm
  | cons w l ih =>
    have h := ih (s.write c w.1 w.2)
    rw [State.write, List.append_assoc] at h
    exact h

@[simp] theorem callback_chip (s : State σ) (ee : EnumEvents) (dwPos dwExtent : UInt32) :
    (s.callback pof ee dwPos dwExtent).2.chip = s.chip := by
  unfold State.callback
  split <;> rfl

@[simp] theorem callback_wrote (s : State σ) (ee : EnumEvents) (dwPos dwExtent : UInt32) :
    (s.callback pof ee dwPos dwExtent).2.wrote = s.wrote := by
  unfold State.callback
  split <;> rfl

@[simp] theorem report_wrote (s : State σ) (ee eeEnd : EnumEvents) (dwPos dw : UInt32)
    (dwExtent : UInt8 → UInt32) : (s.report c pof ee eeEnd dwPos dw dwExtent).wrote = s.wrote := by
  unfold State.report
  split
  · rfl
  · simp

theorem update_wrote (s : State σ) (ee : EnumEvents) (dw dwPos : UInt32) :
    (s.update pof ee dw dwPos).2.wrote = s.wrote := by
  unfold State.update
  split
  · exact callback_wrote _ _ _ _
  · rfl

/-! ## Waiting for the chip -/

/-- `n` reads at `dw` and nothing else. -/
def State.after (c : Chip σ) (s : State σ) (dw : UInt32) (n : Nat) : UInt8 × State σ :=
  ((c.reads dw n s.chip).1, { s with chip := (c.reads dw n s.chip).2 })

theorem after_succ (s : State σ) (dw : UInt32) (n : Nat) :
    s.after c dw (n + 1) = (s.after c dw n).2.read c dw := rfl

theorem spin_toNat (n : UInt32) : (spin n).toNat = n.toNat - 1 := by
  unfold spin
  split_ifs with h
  · have hpos : n.toNat ≠ 0 := fun h0 => h (UInt32.toNat_inj.1 h0)
    rw [UInt32.toNat_sub_of_le _ _ (UInt32.le_iff_toNat_le.2 (by rw [UInt32.toNat_one]; omega))]
    rfl
  · rw [not_not.1 h]
    rfl

theorem status_reads {fuel : Nat} {dw : UInt32} {s : State σ} {r : UInt8 × State σ}
    (h : loop (statusTurn c dw) fuel ⟨0, 0x100, s⟩ = some r) :
    (∃ n, 0x100 ≤ n ∧ r = s.after c dw n) ∧ r.1 &&& 0x80 ≠ 0 := by
  -- after n reads the spin is down to 0x100 - n
  refine loop_rule (I := fun w : Wait σ => ∃ n, (w.b, w.s) = s.after c dw n ∧ w.n.toNat = 0x100 - n)
    (Q := fun r => (∃ n, 0x100 ≤ n ∧ r = s.after c dw n) ∧ r.1 &&& 0x80 ≠ 0) ?_ ⟨0, rfl, rfl⟩ h
  rintro w t ⟨n, hn, hspin⟩ ht
  unfold statusTurn at ht
  split_ifs at ht with hb <;> cases ht
  · refine ⟨n + 1, ?_, ?_⟩
    · rw [after_succ, ← hn]
    · rw [spin_toNat, hspin]
      omega
  · obtain ⟨hb, h0⟩ := not_or.1 hb
    rw [not_not.1 h0, UInt32.toNat_zero] at hspin
    exact ⟨⟨n, by omega, hn⟩, hb⟩

theorem programStatus_reads {fuel : Nat} {dw : UInt32} {s : State σ}
    {r : UInt32 × UInt8 × State σ}
    (h : loop (programStatusTurn c dw) fuel (0xfffff, ⟨0, 2, s⟩) = some r) :
    (∃ n, 2 ≤ n ∧ r.2 = s.after c dw n) ∧ (r.1 ≠ 0 → r.2.1 &&& 0x80 ≠ 0) := by
  refine loop_rule (I := fun w : UInt32 × Wait σ =>
      ∃ n, (w.2.b, w.2.s) = s.after c dw n ∧ w.2.n.toNat = 2 - n)
    (Q := fun r => (∃ n, 2 ≤ n ∧ r.2 = s.after c dw n) ∧ (r.1 ≠ 0 → r.2.1 &&& 0x80 ≠ 0))
    ?_ ⟨0, rfl, rfl⟩ h
  rintro w t ⟨n, hn, hspin⟩ ht
  unfold programStatusTurn at ht
  simp only at ht
  generalize (if w.2.b &&& 0x80 = 0 then w.1 - 1 else w.1) = ttl at ht
  split_ifs at ht with hb <;> cases ht
  · refine ⟨n + 1, ?_, ?_⟩
    · rw [after_succ, ← hn]
    · rw [spin_toNat, hspin]
      omega
  · obtain ⟨hb, h0⟩ := not_or.1 hb
    rw [not_not.1 h0, UInt32.toNat_zero] at hspin
    exact ⟨⟨n, by omega, hn⟩, fun hlive h => hb ⟨h, hlive⟩⟩

theorem toggled (b r : UInt8) (h : r &&& 0x40 ≠ b &&& 0x40) : (b ^^^ 0x40) &&& 0x40 = r &&& 0x40 := by
  have hbit : ∀ x : UInt8, x &&& 0x40 = 0 ∨ x &&& 0x40 = 0x40 := by
    rintro ⟨x⟩
    revert x
    decide +kernel
  have hxor : ∀ x : UInt8, (x ^^^ 0x40) &&& 0x40 = (x &&& 0x40) ^^^ 0x40 := by
    rintro ⟨x⟩
    revert x
    decide +kernel
  rw [hxor]
  rcases hbit b with hb | hb <;> rcases hbit r with hr | hr <;> rw [hb, hr] at h ⊢
  · exact absurd rfl h
  · rfl
  · rfl
  · exact absurd rfl h

theorem waitToggle_reads {fuel : Nat} {dw : UInt32} {s : State σ} {r : UInt32 × State σ}
    (h : waitToggle c fuel dw s = some r) :
    ∃ n, (s.after c dw (n + 2)).1 &&& 0x40 = (s.after c dw (n + 1)).1 &&& 0x40 ∧
      r.2 = (s.after c dw (n + 2)).2 := by
  -- b shows the bit of the last read
  refine loop_rule (I := fun w : Wait σ => ∃ n, w.s = (s.after c dw (n + 1)).2 ∧
      (s.after c dw (n + 1)).1 &&& 0x40 = w.b &&& 0x40)
    (Q := fun r => ∃ n, (s.after c dw (n + 2)).1 &&& 0x40 = (s.after c dw (n + 1)).1 &&& 0x40 ∧
      r.2 = (s.after c dw (n + 2)).2) ?_ ⟨0, rfl, rfl⟩ h
  rintro w t ⟨n, hn, hb⟩ ht
  unfold toggleTurn at ht
  simp only at ht
  split_ifs at ht with hbit <;> cases ht
  · refine ⟨n + 1, ?_, ?_⟩
    · rw [after_succ, ← hn]
    · rw [after_succ, ← hn]
      exact (toggled _ _ hbit).symm
  · refine ⟨n, ?_, ?_⟩
    · rw [hb, after_succ, ← hn]
      exact not_not.1 hbit
    · rw [after_succ, ← hn]

/-! ## Commands -/

/-- The job is on the whole chip. -/
def Whole (pof : ObjectFlash) : Prop :=
  pof.dwStartOffset = 0 ∧ pof.dwLengthUsedArea = pof.dwLengthInBytes

variable {P : Protocol c pof} {s s' s'' : State σ} {a : UInt32} {fuel : Nat}

/-- The chip is idle again, and bytes outside the block of `a` are as before
unless the job is on the whole chip. -/
structure Kept (P : Protocol c pof) (a : UInt32) (s s' : State σ) : Prop where
  idle : P.Idle s'.chip
  mem : ∀ b, b < pof.dwLengthInBytes →
    P.mem s'.chip b = P.mem s.chip b ∨ P.block b = P.block a ∨ Whole pof

theorem Kept.trans (h : Kept P a s s') (h' : Kept P a s' s'') : Kept P a s s'' := by
  refine ⟨h'.idle, fun b hb => ?_⟩
  rcases h'.mem b hb with h2 | h2
  · rw [h2]
    exact h.mem b hb
  · exact .inr h2

theorem kept_read (h : P.Idle s.chip) (ha : a < pof.dwLengthInBytes) : Kept P a s (s.read c a).2 :=
  ⟨(P.read_idle _ _ h ha).2.1, fun b hb => .inl ((P.read_idle _ _ h ha).2.2 b hb)⟩

theorem kept_callback (h : P.Idle s.chip) (ee : EnumEvents) (dwPos dwExtent : UInt32) :
    Kept P a s (s.callback pof ee dwPos dwExtent).2 := by
  refine ⟨?_, fun b _ => .inl ?_⟩
  · rw [callback_chip]
    exact h
  · rw [callback_chip]

theorem kept_reset (h29 : pof.fDetectedUsing28xxxConventions = false) (h : P.Idle s.chip) :
    Kept P a s (s.writes c resetSequence) := by
  refine ⟨?_, fun b hb => .inl ?_⟩
  · rw [writes_chip]
    exact (P.reset h29 _ h).1
  · rw [writes_chip]
    exact (P.reset h29 _ h).2 b hb

theorem kept_erase28xxx {r : UInt8 × State σ}
    (h28 : pof.fDetectedUsing28xxxConventions = true) (h : P.Idle s.chip) (ha : a < pof.dwLengthInBytes)
    (hr : erase28xxx c fuel a s = some r) : Kept P a s r.2 := by
  obtain ⟨r', hloop, rfl⟩ := Option.map_eq_some_iff.1 hr
  obtain ⟨⟨n, hn, rfl⟩, hbit⟩ := status_reads hloop
  obtain ⟨hidle, hmem⟩ := P.erase28xxx h28 s.chip a n h ha hn hbit
  refine ⟨?_, fun b hb => ?_⟩
  · rw [writes_chip]
    exact hidle
  · rw [writes_chip]
    exact (hmem b hb).imp_right fun hblock => .inl hblock.1

theorem kept_erase {code : UInt8} {r : UInt32 × State σ}
    (h29 : pof.fDetectedUsing28xxxConventions = false) (hcode : code = 0x50 ∨ code = 0x30)
    (h : P.Idle s.chip) (ha : a < pof.dwLengthInBytes)
    (hr : waitToggle c fuel a (s.writes c (eraseSequence a code)) = some r) : Kept P a s r.2 := by
  obtain ⟨n, hbit, hafter⟩ := waitToggle_reads hr
  obtain ⟨hidle, hmem⟩ := P.erase29xxx h29 s.chip a code n h ha hcode hbit
  refine ⟨?_, fun b hb => ?_⟩
  · rw [hafter]
    exact hidle
  · rw [hafter]
    exact (hmem b hb).imp_right fun hblock => .inl hblock.1

theorem kept_eraseChip {r : UInt32 × State σ}
    (h29 : pof.fDetectedUsing28xxxConventions = false) (hwhole : Whole pof) (h : P.Idle s.chip)
    (ha : a < pof.dwLengthInBytes)
    (hr : waitToggle c fuel a (s.writes c (eraseSequence 0x5555 0x10)) = some r) :
    Kept P a s r.2 := by
  obtain ⟨n, hbit, hafter⟩ := waitToggle_reads hr
  obtain ⟨hidle, -⟩ := P.eraseChip h29 s.chip a n h ha hbit
  refine ⟨?_, fun b _ => .inr (.inr hwhole)⟩
  rw [hafter]
  exact hidle

theorem writes_append (l l' : List (UInt32 × UInt8)) :
    s.writes c (l ++ l') = (s.writes c l).writes c l' := List.foldl_append

theorem kept_eraseBlock29xxx {r : UInt32 × State σ}
    (h29 : pof.fDetectedUsing28xxxConventions = false) (h : P.Idle s.chip)
    (ha : a < pof.dwLengthInBytes) (hr : eraseBlock29xxx c fuel a s = some r) :
    Kept P a s r.2 := by
  obtain ⟨r₁, h1, hr⟩ := Option.bind_eq_some_iff.1 hr
  have k1 : Kept P a s r₁.2 := kept_erase h29 (.inl rfl) h ha h1
  split_ifs at hr
  · rw [writes_append] at hr
    have hreset : Kept P a r₁.2 (r₁.2.writes c resetSequence) := kept_reset h29 k1.idle
    exact k1.trans (hreset.trans (kept_erase h29 (.inr rfl) hreset.idle ha hr))
  · cases hr
    exact k1

theorem kept_erase29xxx {n : Int} (h29 : pof.fDetectedUsing28xxxConventions = false)
    (h : P.Idle s.chip) (ha : a < pof.dwLengthInBytes)
    (hr : erase29xxx c pof fuel a n s = some s') : Kept P a s s' := by
  obtain ⟨r, h1, hr⟩ := Option.bind_eq_some_iff.1 hr
  have k1 := kept_eraseBlock29xxx h29 h ha h1
  split_ifs at hr with hlast
  · obtain ⟨r', h2, rfl⟩ := Option.map_eq_some_iff.1 hr
    rw [writes_append] at h2
    have hreset : Kept P a r.2 (r.2.writes c resetSequence) := kept_reset h29 k1.idle
    exact k1.trans (hreset.trans (kept_eraseChip h29 hlast.2.2 hreset.idle ha h2))
  · cases hr
    exact k1

theorem kept_program28xxx {v : UInt8} {r : UInt32 × UInt8 × State σ}
    (h28 : pof.fDetectedUsing28xxxConventions = true) (h : P.Idle s.chip)
    (ha : a < pof.dwLengthInBytes) (hr : program28xxx c fuel a v s = some r) (hlive : r.1 ≠ 0) :
    Kept P a s r.2.2 := by
  obtain ⟨r', hloop, rfl⟩ := Option.map_eq_some_iff.1 hr
  obtain ⟨⟨n, hn, hafter⟩, hbit⟩ := programStatus_reads hloop
  simp only at hlive ⊢
  rw [hafter] at hbit ⊢
  obtain ⟨hidle, hmem, -⟩ := P.program28xxx h28 s.chip a v n h ha hn (hbit hlive)
  refine ⟨?_, fun b hb => ?_⟩
  · rw [writes_chip]
    exact hidle
  · rw [writes_chip]
    by_cases hab : b = a
    · exact .inr (.inl (congrArg P.block hab))
    · exact .inl (hmem b hb hab)

theorem kept_program29xxx {v : UInt8} (h29 : pof.fDetectedUsing28xxxConventions = false)
    (h : P.Idle s.chip) (ha : a < pof.dwLengthInBytes)
    (hr : program29xxx c fuel a v s = some s') : Kept P a s s' := by
  obtain ⟨r, hwait, rfl⟩ := Option.map_eq_some_iff.1 hr
  obtain ⟨n, hbit, hafter⟩ := waitToggle_reads hwait
  obtain ⟨hidle, hmem, -⟩ := P.program29xxx h29 s.chip a v n h ha hbit
  refine ⟨?_, fun b hb => ?_⟩
  · rw [hafter]
    exact hidle
  · rw [hafter]
    by_cases hab : b = a
    · exact .inr (.inl (congrArg P.block hab))
    · exact .inl (hmem b hb hab)

end

end Gentoox.Flash
