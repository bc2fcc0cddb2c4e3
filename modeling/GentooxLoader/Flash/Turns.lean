import GentooxLoader.Flash.BootFlash

/-!
# The turns of the flash loops (drivers/flash/BootFlash.c)

What one turn of the erase, the program and the verify loop can do, with what it
has tested on the way.

    eraseTurn_step     the erase loop is at its end, is out of tries, finds a bad
                       status, has tried once more, is a byte on, or is stopped
    programTurn_step   the program loop
    verifyTurn_step    the verify loop
-/

namespace Gentoox.Flash

open Loops

section
variable {σ : Type} (c : Chip σ) (pof : ObjectFlash) (pba : UInt32 → UInt8)

/-- The byte is one to erase. -/
def Erase.Unerased (v : Erase σ) : Prop := v.dwLen ≠ 0 ∧ (v.s.read c v.dw).1 ≠ 0xff

/-- The byte is one to program. -/
def Program.Unprogrammed (v : Program σ) : Prop :=
  v.dwLen ≠ 0 ∧ (v.s.read c v.dw).1 ≠ pba v.dwSrc

/-- The callback is told of the byte that needs no erasing. -/
def Erase.updated (v : Erase σ) : Bool × State σ :=
  (v.s.read c v.dw).2.update pof .eraseUpdate v.dw (v.dw - pof.dwStartOffset)

def Program.updated (v : Program σ) : Bool × State σ :=
  (v.s.read c v.dw).2.update pof .programUpdate v.dw v.dwSrc

/-- A turn of the erase loop. -/
inductive EraseStep (fuel : Nat) (v : Erase σ) : Turn (Erase σ) (Bool × State σ) → Prop where
  | finished (hlen : v.dwLen = 0) : EraseStep fuel v (.done (v.s.callback pof .eraseEnd 0 0))
  | gaveUp (hun : v.Unerased c) (htries : v.retry.nCountEraseRetryIn4KBlock = 0) :
      EraseStep fuel v (.done (false, ({ v with s := (v.s.read c v.dw).2 } : Erase σ).failed c pof))
  | badStatus {r : UInt8 × State σ} (hun : v.Unerased c)
      (htries : v.retry.nCountEraseRetryIn4KBlock ≠ 0)
      (h28 : pof.fDetectedUsing28xxxConventions = true)
      (hr : erase28xxx c fuel v.dw (v.s.read c v.dw).2 = some r) (hbad : r.1 &&& 0x7e ≠ 0) :
      EraseStep fuel v (.done (false, ({ v with s := r.2 } : Erase σ).badStatus c pof r.1))
  | erased28xxx {r : UInt8 × State σ} (hun : v.Unerased c)
      (htries : v.retry.nCountEraseRetryIn4KBlock ≠ 0)
      (h28 : pof.fDetectedUsing28xxxConventions = true)
      (hr : erase28xxx c fuel v.dw (v.s.read c v.dw).2 = some r) (hgood : r.1 &&& 0x7e = 0) :
      EraseStep fuel v (.next { v.retry with s := r.2 })
  | erased29xxx {s : State σ} (hun : v.Unerased c)
      (htries : v.retry.nCountEraseRetryIn4KBlock ≠ 0)
      (h29 : pof.fDetectedUsing28xxxConventions = false)
      (hr : erase29xxx c pof fuel v.dw v.retry.nCountEraseRetryIn4KBlock (v.s.read c v.dw).2 =
        some s) : EraseStep fuel v (.next { v.retry with s })
  | advanced (hlen : v.dwLen ≠ 0) (hread : (v.s.read c v.dw).1 = 0xff)
      (hgo : (v.updated c pof).1 = true) :
      EraseStep fuel v
        (.next { v with dwLen := v.dwLen - 1, dw := v.dw + 1, s := (v.updated c pof).2 })
  | aborted (hlen : v.dwLen ≠ 0) (hread : (v.s.read c v.dw).1 = 0xff)
      (hstop : (v.updated c pof).1 = false) :
      EraseStep fuel v
        (.done (false, { (v.updated c pof).2 with szAdditionalErrorInfo := .eraseAborted }))

/-- A turn of the program loop. -/
inductive ProgramStep (fuel : Nat) (v : Program σ) :
    Turn (Program σ) (Bool × State σ) → Prop where
  | finished (hlen : v.dwLen = 0) : ProgramStep fuel v (.done (true, v.s))
  | gaveUp (hun : v.Unprogrammed c pba) (htries : v.retry.nCountProgramRetries = 0) :
      ProgramStep fuel v
        (.done (false, ({ v with s := (v.s.read c v.dw).2 } : Program σ).failed c pof (pba v.dwSrc)))
  | badStatus {r : UInt32 × UInt8 × State σ} (hun : v.Unprogrammed c pba)
      (htries : v.retry.nCountProgramRetries ≠ 0)
      (h28 : pof.fDetectedUsing28xxxConventions = true)
      (hr : program28xxx c fuel v.dw (pba v.dwSrc) (v.s.read c v.dw).2 = some r)
      (hbad : r.2.1 &&& 0x7e ≠ 0 ∨ r.1 = 0) :
      ProgramStep fuel v (.done (false,
        ({ v with s := r.2.2 } : Program σ).badStatus c pof (pba v.dwSrc) r.1 r.2.1))
  | programmed28xxx {r : UInt32 × UInt8 × State σ} (hun : v.Unprogrammed c pba)
      (htries : v.retry.nCountProgramRetries ≠ 0)
      (h28 : pof.fDetectedUsing28xxxConventions = true)
      (hr : program28xxx c fuel v.dw (pba v.dwSrc) (v.s.read c v.dw).2 = some r)
      (hgood : ¬ (r.2.1 &&& 0x7e ≠ 0 ∨ r.1 = 0)) :
      ProgramStep fuel v (.next { v.retry with s := r.2.2 })
  | programmed29xxx {s : State σ} (hun : v.Unprogrammed c pba)
      (htries : v.retry.nCountProgramRetries ≠ 0)
      (h29 : pof.fDetectedUsing28xxxConventions = false)
      (hr : program29xxx c fuel v.dw (pba v.dwSrc) (v.s.read c v.dw).2 = some s) :
      ProgramStep fuel v (.next { v.retry with s })
  | advanced (hlen : v.dwLen ≠ 0) (hread : (v.s.read c v.dw).1 = pba v.dwSrc)
      (hgo : (v.updated c pof).1 = true) :
      ProgramStep fuel v (.next { v with
        dwLen := v.dwLen - 1
        dw := v.dw + 1
        dwSrc := v.dwSrc + 1
        s := (v.updated c pof).2 })
  | aborted (hlen : v.dwLen ≠ 0) (hread : (v.s.read c v.dw).1 = pba v.dwSrc)
      (hstop : (v.updated c pof).1 = false) :
      ProgramStep fuel v
        (.done (false, { (v.updated c pof).2 with szAdditionalErrorInfo := .programAborted }))

/-- A turn of the verify loop. -/
inductive VerifyStep (v : Verify σ) : Turn (Verify σ) (Bool × State σ) → Prop where
  | finished (hlen : v.dwLen = 0) : VerifyStep v (.done (v.s.callback pof .verifyEnd 0 0))
  | failed (hlen : v.dwLen ≠ 0) (hread : (v.s.read c v.dw).1 ≠ pba v.dwSrc) :
      VerifyStep v
        (.done (false, ({ v with s := (v.s.read c v.dw).2 } : Verify σ).failed c pof (pba v.dwSrc)))
  | advanced (hlen : v.dwLen ≠ 0) (hread : (v.s.read c v.dw).1 = pba v.dwSrc) :
      VerifyStep v (.next
        ⟨v.dw + 1, v.dwLen - 1, v.dwSrc + 1, (v.s.read c v.dw).2⟩)

end

section
variable {σ : Type} {c : Chip σ} {pof : ObjectFlash} {pba : UInt32 → UInt8} {fuel : Nat}

/-! ## Trying again -/

theorem Erase.retry_frame (v : Erase σ) :
    v.retry.dw = v.dw ∧ v.retry.dwLen = v.dwLen ∧ v.retry.s = v.s := by
  unfold Erase.retry
  split <;> exact ⟨rfl, rfl, rfl⟩

theorem Program.retry_frame (v : Program σ) : v.retry.dw = v.dw ∧ v.retry.dwLen = v.dwLen ∧
    v.retry.dwSrc = v.dwSrc ∧ v.retry.s = v.s := by
  unfold Program.retry
  split <;> exact ⟨rfl, rfl, rfl, rfl⟩

theorem Erase.retry_s (v : Erase σ) (s : State σ) :
    ({ v with s := s } : Erase σ).retry = { v.retry with s := s } := by
  unfold Erase.retry
  split <;> rfl

theorem Program.retry_s (v : Program σ) (s : State σ) :
    ({ v with s := s } : Program σ).retry = { v.retry with s := s } := by
  unfold Program.retry
  split <;> rfl

/-! ## The three loops -/

theorem eraseTurn_step {v : Erase σ} {t : Turn (Erase σ) (Bool × State σ)}
    (ht : eraseTurn c pof fuel v = some t) : EraseStep c pof fuel v t := by
  obtain ⟨hdw, -, -⟩ := v.retry_frame
  -- a try leaves the address, and with it what an error reports
  have hfailed (s : State σ) : ({ v.retry with s } : Erase σ).failed c pof =
      ({ v with s } : Erase σ).failed c pof := by
    unfold Erase.failed
    rw [hdw]
  have hbadStatus (s : State σ) (b : UInt8) : ({ v.retry with s } : Erase σ).badStatus c pof b =
      ({ v with s } : Erase σ).badStatus c pof b := by
    unfold Erase.badStatus
    rw [hdw]
  unfold eraseTurn at ht
  simp only at ht
  split at ht
  · rename_i hlen
    cases ht
    exact .finished hlen
  rename_i hlen
  split at ht
  · rename_i hread
    rw [Erase.retry_s] at ht
    unfold Erase.erase at ht
    split_ifs at ht with htries h28
    · cases ht
      rw [hfailed]
      exact .gaveUp ⟨hlen, hread⟩ htries
    · obtain ⟨r, hr, rfl⟩ := Option.map_eq_some_iff.1 ht
      rw [hdw] at hr
      split_ifs with hbad
      · rw [hbadStatus]
        exact .badStatus ⟨hlen, hread⟩ htries h28 hr hbad
      · exact .erased28xxx ⟨hlen, hread⟩ htries h28 hr (not_not.1 hbad)
    · obtain ⟨s', hr, rfl⟩ := Option.map_eq_some_iff.1 ht
      rw [hdw] at hr
      exact .erased29xxx ⟨hlen, hread⟩ htries (Bool.eq_false_iff.2 h28) hr
  · rename_i hread
    cases ht
    unfold Erase.advance
    simp only
    split
    · rename_i hgo
      exact .advanced hlen (not_not.1 hread) hgo
    · rename_i hstop
      exact .aborted hlen (not_not.1 hread) (Bool.eq_false_iff.2 hstop)

theorem programTurn_step {v : Program σ} {t : Turn (Program σ) (Bool × State σ)}
    (ht : programTurn c pof pba fuel v = some t) : ProgramStep c pof pba fuel v t := by
  obtain ⟨hdw, -, -, -⟩ := v.retry_frame
  have hfailed (s : State σ) (data : UInt8) :
      ({ v.retry with s } : Program σ).failed c pof data =
        ({ v with s } : Program σ).failed c pof data := by
    unfold Program.failed
    rw [hdw]
  have hbadStatus (s : State σ) (data : UInt8) (ttl : UInt32) (b : UInt8) :
      ({ v.retry with s } : Program σ).badStatus c pof data ttl b =
        ({ v with s } : Program σ).badStatus c pof data ttl b := by
    unfold Program.badStatus
    rw [hdw]
  unfold programTurn at ht
  simp only at ht
  split at ht
  · rename_i hlen
    cases ht
    exact .finished hlen
  rename_i hlen
  split at ht
  · rename_i hread
    rw [Program.retry_s] at ht
    unfold Program.program at ht
    split_ifs at ht with htries h28
    · cases ht
      rw [hfailed]
      exact .gaveUp ⟨hlen, hread⟩ htries
    · obtain ⟨r, hr, rfl⟩ := Option.map_eq_some_iff.1 ht
      rw [hdw] at hr
      split_ifs with hbad
      · rw [hbadStatus]
        exact .badStatus ⟨hlen, hread⟩ htries h28 hr hbad
      · exact .programmed28xxx ⟨hlen, hread⟩ htries h28 hr hbad
    · obtain ⟨s', hr, rfl⟩ := Option.map_eq_some_iff.1 ht
      rw [hdw] at hr
      exact .programmed29xxx ⟨hlen, hread⟩ htries (Bool.eq_false_iff.2 h28) hr
  · rename_i hread
    cases ht
    unfold Program.advance
    simp only
    split
    · rename_i hgo
      exact .advanced hlen (not_not.1 hread) hgo
    · rename_i hstop
      exact .aborted hlen (not_not.1 hread) (Bool.eq_false_iff.2 hstop)

theorem verifyTurn_step {v : Verify σ} {t : Turn (Verify σ) (Bool × State σ)}
    (ht : verifyTurn c pof pba v = some t) : VerifyStep c pof pba v t := by
  unfold verifyTurn at ht
  simp only at ht
  split at ht
  · rename_i hlen
    cases ht
    exact .finished hlen
  rename_i hlen
  split at ht
  · rename_i hread
    cases ht
    exact .failed hlen hread
  · rename_i hread
    cases ht
    exact .advanced hlen (not_not.1 hread)

end

end Gentoox.Flash
