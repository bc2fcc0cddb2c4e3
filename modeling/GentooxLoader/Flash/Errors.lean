import GentooxLoader.Flash.Events
import GentooxLoader.Flash.Rounds

/-!
# Where the errors are (drivers/flash/BootFlash.h)

An error event is to tell the offset from the start of the flash.  The five
places that report one stop the function at the byte they report: running out of
tries at a byte to program and the verifying tell its address, both errors of
erasing and the status of a programming its offset in the region.

    eraseTurn_errors     what the last turn of an erase job reports
    programTurn_errors   of the programming
    verifyTurn_errors    of the verifying
    located_iff          the address is told ↔ the region starts at 0, or nobody is
                         told, or the byte is not in one of these places
    erase_error_offset   a byte of the second half of a chip
-/

namespace Gentoox.Flash

open Loops

/-! ## Algorithm -/

def EnumEvents.isError : EnumEvents → Bool
  | .eraseError | .programError | .verifyError => true
  | _ => false

section
variable {σ : Type} (c : Chip σ) (pof : ObjectFlash) (pba : UInt32 → UInt8) (fuel : Nat)

/-- The turn that ended the erase loop. -/
def eraseStop (s : State σ) : Option (Erase σ) :=
  if ({ s with szAdditionalErrorInfo := .empty }.callback pof .eraseStart 0 0).1 then
    (turns (eraseTurn c pof fuel) fuel (eraseVars pof s)).getLast?
  else none

def programStop (s : State σ) : Option (Program σ) :=
  if ({ s with szAdditionalErrorInfo := .empty }.callback pof .programStart 0 0).1 then
    (turns (programTurn c pof pba fuel) fuel (programVars pof s)).getLast?
  else none

/-- The variables of the verify loop as it starts. -/
def verifyVars (s : State σ) : Verify σ :=
  ⟨pof.dwStartOffset, pof.dwLengthUsedArea, 0,
    ((s.callback pof .programEnd 0 0).2.callback pof .verifyStart 0 0).2⟩

def verifyStop (s : State σ) : Option (Verify σ) :=
  (turns (verifyTurn c pof pba) fuel (verifyVars pof s)).getLast?

/-- The address of the byte that stopped the erase job. -/
def eraseFailing (s : State σ) : Option UInt32 := (eraseStop c pof fuel s).map (·.dw)

/-- The address of the byte that stopped the programming, or else the verifying. -/
def programFailing (s : State σ) : Option UInt32 :=
  match loop (programTurn c pof pba fuel) fuel (programVars pof s) with
  | some (true, s') => (verifyStop c pof pba fuel s').map (·.dw)
  | _ => (programStop c pof pba fuel s).map (·.dw)

end

/-! ## Sequences of events -/

def Quiet (t : List Call) : Prop := ∀ e ∈ t, e.ee.isError = false

/-- Every error is reported at `pos`. -/
def ErrorsAt (pos : UInt32) (t : List Call) : Prop := ∀ e ∈ t, e.ee.isError = true → e.dwPos = pos

/-- An error is reported, at `pos`. -/
structure Failed (pos : UInt32) (t : List Call) : Prop where
  errors : ErrorsAt pos t
  one : ∃ e ∈ t, e.ee.isError = true

/-- Every error is reported at `failing`. -/
def Located (failing : Option UInt32) (t : List Call) : Prop :=
  ∀ e ∈ t, e.ee.isError = true → failing = some e.dwPos

theorem Quiet.errorsAt {t : List Call} (h : Quiet t) (pos : UInt32) : ErrorsAt pos t := by
  intro e he herror
  rw [h e he] at herror
  cases herror

theorem Quiet.append {t : List Call} {call : Call} (h : Quiet t) (hcall : call.ee.isError = false) :
    Quiet (t ++ [call]) := by
  intro e he
  rcases List.mem_append.1 he with he | he
  · exact h e he
  · rw [List.mem_singleton.1 he]
    exact hcall

theorem Quiet.fail {t : List Call} {call : Call} {pos : UInt32} (h : Quiet t)
    (hcall : call.ee.isError = true) (hpos : call.dwPos = pos) : Failed pos (t ++ [call]) := by
  refine ⟨fun e he herror => ?_, call, List.mem_append_right t List.mem_cons_self, hcall⟩
  rcases List.mem_append.1 he with he | he
  · rw [h e he] at herror
    cases herror
  · rw [List.mem_singleton.1 he]
    exact hpos

theorem Failed.append {t : List Call} {call : Call} {pos : UInt32} (h : Failed pos t)
    (hcall : call.ee.isError = false) : Failed pos (t ++ [call]) := by
  obtain ⟨e, he, herror⟩ := h.one
  refine ⟨fun e he herror => ?_, e, List.mem_append_left _ he, herror⟩
  rcases List.mem_append.1 he with he | he
  · exact h.errors e he herror
  · rw [List.mem_singleton.1 he, hcall] at herror
    cases herror

theorem located_iff_errorsAt {t : List Call} {pos : UInt32} :
    Located (some pos) t ↔ ErrorsAt pos t :=
  ⟨fun h e he herror => (Option.some.inj (h e he herror)).symm,
    fun h e he herror => congrArg some (h e he herror).symm⟩

theorem Quiet.located {t : List Call} (h : Quiet t) (failing : Option UInt32) :
    Located failing t := by
  intro e he herror
  rw [h e he] at herror
  cases herror

theorem Failed.told_iff {t : List Call} {pos dw : UInt32} (h : Failed pos t) :
    Located (some dw) t ↔ pos = dw := by
  rw [located_iff_errorsAt]
  constructor
  · intro hdw
    obtain ⟨e, he, herror⟩ := h.one
    rw [← h.errors e he herror, hdw e he herror]
  · rintro rfl
    exact h.errors

/-! ## What a turn reports -/

section
variable {σ : Type} {c : Chip σ} {pof : ObjectFlash} {pba : UInt32 → UInt8} {s₀ s s' : State σ}
  {fuel : Nat}

theorem Since.quiet {ee : EnumEvents} {dwPos dwExtent : UInt32} (hee : ee.isError = false)
    (h : Since pof s₀ Quiet s) : Since pof s₀ Quiet (s.callback pof ee dwPos dwExtent).2 :=
  h.callback (R := fun _ => Quiet) fun _ _ ht => ht.append hee

theorem Since.update_quiet {ee : EnumEvents} {dw dwPos : UInt32} (hee : ee.isError = false)
    (h : Since pof s₀ Quiet s) : Since pof s₀ Quiet (s.update pof ee dw dwPos).2 := by
  unfold State.update
  split
  · exact h.quiet hee
  · exact h

theorem Since.report_failed {ee eeEnd : EnumEvents} {dwPos dw : UInt32} {dwExtent : UInt8 → UInt32}
    (hee : ee.isError = true) (hend : eeEnd.isError = false) (h : Since pof s₀ Quiet s) :
    Since pof s₀ (Failed dwPos) (s.report c pof ee eeEnd dwPos dw dwExtent) := by
  unfold State.report
  cases hf : pof.pcallbackFlash with
  | none => exact h.of_none hf
  | some f =>
    have hread : Since pof s₀ Quiet (s.read c dw).2 := h.of_calls rfl
    have herror : Since pof s₀ (Failed dwPos)
        ((s.read c dw).2.callback pof ee dwPos (dwExtent (s.read c dw).1)).2 :=
      hread.callback (R := fun _ => Failed dwPos) fun t answer ht => ht.fail hee rfl
    exact herror.callback (R := fun _ => Failed dwPos) fun t answer ht => ht.append hend

/-- What the last turn of an erase job reports. -/
theorem eraseTurn_errors {v : Erase σ} {t : Turn (Erase σ) (Bool × State σ)}
    (h : Since pof s₀ Quiet v.s) (ht : eraseTurn c pof fuel v = some t) :
    t.Keeps (fun w => Since pof s₀ Quiet w.s) (fun r =>
      (v.Unerased c → Since pof s₀ (Failed (v.dw - pof.dwStartOffset)) r.2) ∧
        (¬ v.Unerased c → Since pof s₀ Quiet r.2)) := by
  have hread : Since pof s₀ Quiet (v.s.read c v.dw).2 := h.of_calls rfl
  have hreport {s : State σ} (hs : Since pof s₀ Quiet s) :
      Since pof s₀ (Failed (v.dw - pof.dwStartOffset))
        (s.report c pof .eraseError .eraseEnd (v.dw - pof.dwStartOffset) v.dw (·.toUInt32)) :=
    hs.report_failed rfl rfl
  have hup : Since pof s₀ Quiet (v.updated c pof).2 := hread.update_quiet rfl
  cases eraseTurn_step ht with
  | finished hlen => exact ⟨fun hun => absurd hlen hun.1, fun _ => h.quiet rfl⟩
  | gaveUp hun => exact ⟨fun _ => (hreport hread).of_calls rfl, fun hno => absurd hun hno⟩
  | badStatus hun _ _ hr =>
    have hs := hread.of_calls (erase28xxx_calls hr)
    exact ⟨fun _ => (hreport hs).of_calls rfl, fun hno => absurd hun hno⟩
  | erased28xxx _ _ _ hr => exact hread.of_calls (erase28xxx_calls hr)
  | erased29xxx _ _ _ hr => exact hread.of_calls (erase29xxx_calls hr)
  | advanced => exact hup
  | aborted _ heq => exact ⟨fun hun => absurd heq hun.2, fun _ => hup.of_calls rfl⟩

/-- Out of tries the address is reported, a bad status by the place in the region. -/
def Program.errorPos (c : Chip σ) (pof : ObjectFlash) (pba : UInt32 → UInt8) (v : Program σ) :
    UInt32 :=
  if v.tried c pba then v.dw - pof.dwStartOffset else v.dw

/-- What the last turn of the programming reports. -/
theorem programTurn_errors {v : Program σ} {t : Turn (Program σ) (Bool × State σ)}
    (h : Since pof s₀ Quiet v.s) (ht : programTurn c pof pba fuel v = some t) :
    t.Keeps (fun w => Since pof s₀ Quiet w.s) (fun r =>
      (v.Unprogrammed c pba → r.1 = false ∧ Since pof s₀ (Failed (v.errorPos c pof pba)) r.2) ∧
        (¬ v.Unprogrammed c pba → Since pof s₀ Quiet r.2)) := by
  have hread : Since pof s₀ Quiet (v.s.read c v.dw).2 := h.of_calls rfl
  have hreport {s : State σ} (dwPos : UInt32) (hs : Since pof s₀ Quiet s) :
      Since pof s₀ (Failed dwPos) (s.report c pof .programError .programEnd dwPos v.dw
        (dataPair (pba v.dwSrc))) := hs.report_failed rfl rfl
  have hup : Since pof s₀ Quiet (v.updated c pof).2 := hread.update_quiet rfl
  cases programTurn_step ht with
  | finished hlen => exact ⟨fun hun => absurd hlen hun.1, fun _ => h⟩
  | gaveUp hun htries =>
    have hpos : v.errorPos c pof pba = v.dw := by
      unfold Program.errorPos Program.tried
      rw [if_neg fun htry => (of_decide_eq_true htry).2.2 htries]
    rw [hpos]
    exact ⟨fun _ => ⟨rfl, (hreport v.dw hread).of_calls rfl⟩, fun hno => absurd hun hno⟩
  | badStatus hun htries _ hr =>
    have hpos : v.errorPos c pof pba = v.dw - pof.dwStartOffset := by
      unfold Program.errorPos Program.tried
      rw [if_pos (decide_eq_true ⟨hun.1, hun.2, htries⟩)]
    have hs := hread.of_calls (program28xxx_calls hr)
    rw [hpos]
    exact ⟨fun _ => ⟨rfl, (hreport _ hs).of_calls rfl⟩, fun hno => absurd hun hno⟩
  | programmed28xxx _ _ _ hr => exact hread.of_calls (program28xxx_calls hr)
  | programmed29xxx _ _ _ hr => exact hread.of_calls (program29xxx_calls hr)
  | advanced => exact hup
  | aborted _ heq => exact ⟨fun hun => absurd heq hun.2, fun _ => hup.of_calls rfl⟩

/-- What the last turn of the verifying reports. -/
theorem verifyTurn_errors {v : Verify σ} {t : Turn (Verify σ) (Bool × State σ)}
    (h : Since pof s₀ Quiet v.s) (ht : verifyTurn c pof pba v = some t) :
    t.Keeps (fun w => Since pof s₀ Quiet w.s) (fun r => Since pof s₀ (ErrorsAt v.dw) r.2) := by
  have hquiet : ∀ {s : State σ}, Since pof s₀ Quiet s → Since pof s₀ (ErrorsAt v.dw) s :=
    fun hs => hs.imp fun t ht => ht.errorsAt v.dw
  have hread : Since pof s₀ Quiet (v.s.read c v.dw).2 := h.of_calls rfl
  cases verifyTurn_step ht with
  | finished => exact hquiet (h.quiet rfl)
  | failed =>
    show Since pof s₀ (ErrorsAt v.dw) _
    unfold Verify.failed
    cases hf : pof.pcallbackFlash with
    | none => exact hquiet hread
    | some f =>
      have hread' : Since pof s₀ Quiet ((v.s.read c v.dw).2.read c v.dw).2 := hread.of_calls rfl
      have herror : Since pof s₀ (Failed v.dw) (((v.s.read c v.dw).2.read c v.dw).2.callback pof
          .verifyError v.dw (dataPair (pba v.dwSrc) ((v.s.read c v.dw).2.read c v.dw).1)).2 :=
        hread'.callback (R := fun _ => Failed v.dw) fun t answer ht => ht.fail rfl rfl
      simp only
      split
      · refine Since.imp (S := Failed v.dw) ?_ fun t ht => ht.errors
        exact herror.callback (R := fun _ => Failed v.dw) fun t answer ht => ht.append rfl
      · exact herror.imp fun t ht => ht.errors
  | advanced => exact hread

/-! ## The two functions -/

theorem since_quiet_refl (pof : ObjectFlash) (s : State σ) :
    Since pof s Quiet ({ s with szAdditionalErrorInfo := .empty } : State σ) := by
  refine ⟨[], (List.append_nil _).symm, ?_⟩
  split
  · rfl
  · intro e he
    cases he

/-- Without a callback there is nothing to say. -/
theorem Since.located_of_failed {pos : UInt32} (h : Since pof s₀ (Failed pos) s) (dw : UInt32) :
    ∃ t, s.calls = s₀.calls ++ t ∧ (Located (some dw) t ↔ pos = dw ∨ pof.pcallbackFlash = none) := by
  obtain ⟨t, ht, h⟩ := h
  refine ⟨t, ht, ?_⟩
  cases hf : pof.pcallbackFlash with
  | none =>
    rw [hf] at h
    obtain rfl : t = [] := h
    exact ⟨fun _ => .inr rfl, fun _ e he => by cases he⟩
  | some f =>
    rw [hf] at h
    have hfailed : Failed pos t := h
    rw [hfailed.told_iff]
    exact ⟨.inl, fun h => h.resolve_right (by simp)⟩

theorem Since.located_of_errorsAt {dw : UInt32} (h : Since pof s₀ (ErrorsAt dw) s) :
    ∃ t, s.calls = s₀.calls ++ t ∧ Located (some dw) t := by
  obtain ⟨t, ht, h⟩ := h
  refine ⟨t, ht, ?_⟩
  split at h
  · rw [h]
    intro e he
    cases he
  · exact located_iff_errorsAt.2 h

theorem Since.located_of_quiet (h : Since pof s₀ Quiet s) (failing : Option UInt32) :
    ∃ t, s.calls = s₀.calls ++ t ∧ Located failing t := by
  obtain ⟨t, ht, h⟩ := h
  refine ⟨t, ht, ?_⟩
  split at h
  · rw [h]
    intro e he
    cases he
  · exact h.located failing

theorem erase_located {r : Bool × State σ}
    (hr : bootFlashEraseMinimalRegion c pof fuel s = some r) :
    ∃ t, r.2.calls = s.calls ++ t ∧ (Located (eraseFailing c pof fuel s) t ↔
      pof.dwStartOffset = 0 ∨ pof.pcallbackFlash = none ∨
        ∀ w, eraseStop c pof fuel s = some w → ¬ w.Unerased c) := by
  have hstart : Since pof s Quiet
      (({ s with szAdditionalErrorInfo := .empty } : State σ).callback pof .eraseStart 0 0).2 :=
    (since_quiet_refl pof s).quiet rfl
  unfold bootFlashEraseMinimalRegion at hr
  simp only at hr
  unfold eraseFailing eraseStop
  split at hr
  · rename_i hyes
    rw [if_pos hyes]
    obtain ⟨w, hlast, hw, hdone⟩ := last_turn (I := fun v : Erase σ => Since pof s Quiet v.s)
      (fun v w hv ht => eraseTurn_errors hv ht) hstart hr
    have hturns : (turns (eraseTurn c pof fuel) fuel (eraseVars pof s)).getLast? = some w := hlast
    obtain ⟨hfail, hquiet⟩ := eraseTurn_errors hw hdone
    rw [hturns]
    by_cases hun : w.Unerased c
    · obtain ⟨t, ht, hiff⟩ := (hfail hun).located_of_failed w.dw
      refine ⟨t, ht, ?_⟩
      rw [Option.map_some, hiff, sub_eq_self]
      simp [hun]
    · obtain ⟨t, ht, hloc⟩ := (hquiet hun).located_of_quiet (some w.dw)
      exact ⟨t, ht, iff_of_true hloc (.inr (.inr fun w' hw' => by cases hw'; exact hun))⟩
  · rename_i hno
    cases hr
    rw [if_neg hno]
    obtain ⟨t, ht, hloc⟩ := hstart.located_of_quiet none
    exact ⟨t, ht, iff_of_true hloc (.inr (.inr fun w' hw' => by cases hw'))⟩

theorem verify_located {r : Bool × State σ} (h : Since pof s₀ Quiet s)
    (hr : verify c pof pba fuel s = some r) :
    ∃ t, r.2.calls = s₀.calls ++ t ∧ Located ((verifyStop c pof pba fuel s).map (·.dw)) t := by
  have hend : Since pof s₀ Quiet (s.callback pof .programEnd 0 0).2 := h.quiet rfl
  have hstart : Since pof s₀ Quiet ((s.callback pof .programEnd 0 0).2.callback pof .verifyStart
    0 0).2 := hend.quiet rfl
  unfold verify at hr
  simp only at hr
  split at hr
  · split at hr
    · obtain ⟨w, hlast, hw, hdone⟩ := last_turn (I := fun v : Verify σ => Since pof s₀ Quiet v.s)
        (fun v w hv ht => verifyTurn_errors hv ht) hstart hr
      have hturns : (turns (verifyTurn c pof pba) fuel (verifyVars pof s)).getLast? = some w := hlast
      unfold verifyStop
      rw [hturns]
      exact (verifyTurn_errors hw hdone).located_of_errorsAt
    · cases hr
      exact hstart.located_of_quiet _
  · cases hr
    exact hend.located_of_quiet _

theorem program_located {r : Bool × State σ} (hr : bootFlashProgram c pof pba fuel s = some r) :
    ∃ t, r.2.calls = s.calls ++ t ∧ (Located (programFailing c pof pba fuel s) t ↔
      pof.dwStartOffset = 0 ∨ pof.pcallbackFlash = none ∨
        ∀ w, programStop c pof pba fuel s = some w → w.tried c pba = false) := by
  have hstart : Since pof s Quiet
      (({ s with szAdditionalErrorInfo := .empty } : State σ).callback pof .programStart 0 0).2 :=
    (since_quiet_refl pof s).quiet rfl
  unfold bootFlashProgram at hr
  simp only at hr
  split at hr
  · rename_i hyes
    obtain ⟨r₁, hloop, hr⟩ := Option.bind_eq_some_iff.1 hr
    obtain ⟨w, hlast, hw, hdone⟩ := last_turn (I := fun v : Program σ => Since pof s Quiet v.s)
      (fun v w hv ht => programTurn_errors hv ht) hstart hloop
    have hstop : programStop c pof pba fuel s = some w := by
      unfold programStop
      rw [if_pos hyes]
      exact hlast
    obtain ⟨hfail, hquiet⟩ := programTurn_errors hw hdone
    -- a command is given for a byte to program
    have htried : ¬ w.Unprogrammed c pba → w.tried c pba = false := fun hun =>
      decide_eq_false fun h => hun ⟨h.1, h.2.1⟩
    have hloop' : loop (programTurn c pof pba fuel) fuel (programVars pof s) = some r₁ := hloop
    unfold programFailing
    rw [hloop', hstop]
    obtain ⟨answer, s₁⟩ := r₁
    cases answer with
    | true =>
      have hun : ¬ w.Unprogrammed c pba := fun hun => absurd (hfail hun).1 (by simp)
      rw [if_pos rfl] at hr
      obtain ⟨t, ht, hloc⟩ := verify_located (hquiet hun) hr
      exact ⟨t, ht, iff_of_true hloc (.inr (.inr fun w' hw' => by cases hw'; exact htried hun))⟩
    | false =>
      cases hr
      by_cases hun : w.Unprogrammed c pba
      · obtain ⟨t, ht, hiff⟩ := (hfail hun).2.located_of_failed w.dw
        refine ⟨t, ht, hiff.trans ?_⟩
        unfold Program.errorPos
        split_ifs with htry
        · rw [sub_eq_self]
          simp [htry]
        · simp [htry]
      · obtain ⟨t, ht, hloc⟩ := (hquiet hun).located_of_quiet (some w.dw)
        exact ⟨t, ht, iff_of_true hloc (.inr (.inr fun w' hw' => by cases hw'; exact htried hun))⟩
  · rename_i hno
    cases hr
    have hstop : programStop c pof pba fuel s = none := if_neg hno
    obtain ⟨t, ht, hloc⟩ := hstart.located_of_quiet (programFailing c pof pba fuel s)
    refine ⟨t, ht, iff_of_true hloc (.inr (.inr fun w' hw' => ?_))⟩
    rw [hstop] at hw'
    cases hw'

end

/-! ## Top theorem -/

/-- **Offsets of errors.**  Whatever the chip and the callback do, when one of the
two functions returns, every error it reported has the address of the byte that
stopped it exactly when the region starts at 0, there is no callback, or that byte
did not stop an erase loop as not erased, nor the programming in a turn that gave a
command. -/
theorem located_iff {σ : Type} (c : Chip σ) (pof : ObjectFlash) (pba : UInt32 → UInt8) (fuel : Nat)
    (s : State σ) (r : Bool × State σ) :
    (bootFlashEraseMinimalRegion c pof fuel s = some r →
      ∃ t, r.2.calls = s.calls ++ t ∧ (Located (eraseFailing c pof fuel s) t ↔
        pof.dwStartOffset = 0 ∨ pof.pcallbackFlash = none ∨
          ∀ w, eraseStop c pof fuel s = some w → ¬ w.Unerased c)) ∧
    (bootFlashProgram c pof pba fuel s = some r →
      ∃ t, r.2.calls = s.calls ++ t ∧ (Located (programFailing c pof pba fuel s) t ↔
        pof.dwStartOffset = 0 ∨ pof.pcallbackFlash = none ∨
          ∀ w, programStop c pof pba fuel s = some w → w.tried c pba = false)) :=
  ⟨erase_located, program_located⟩

/-- Errors reported at 0 are in the right place when the job starts there. -/
theorem located_iff_stuck : ∃ r t,
    bootFlashEraseMinimalRegion stuck ⟨0x80000, 0, 0x40000, some fun _ _ _ _ => true, false⟩ 5
        ⟨(), [], [], .empty⟩ = some r ∧
      r.2.calls = t ∧ (∃ e ∈ t, e.ee.isError = true) ∧
      Located (eraseFailing stuck ⟨0x80000, 0, 0x40000, some fun _ _ _ _ => true, false⟩ 5
        ⟨(), [], [], .empty⟩) t := by
  have hcalls : (bootFlashEraseMinimalRegion stuck
      ⟨0x80000, 0, 0x40000, some fun _ _ _ _ => true, false⟩ 5 ⟨(), [], [], .empty⟩).map (·.2.calls) =
      some [⟨.eraseStart, 0, 0, true⟩, ⟨.eraseError, 0, 0, true⟩, ⟨.eraseEnd, 0, 0, true⟩] := rfl
  obtain ⟨r, hr, hcalls⟩ := Option.map_eq_some_iff.1 hcalls
  obtain ⟨t, ht, hlocated⟩ := (located_iff stuck
    ⟨0x80000, 0, 0x40000, some fun _ _ _ _ => true, false⟩ (fun _ => 0) 5 ⟨(), [], [], .empty⟩ r).1 hr
  rw [List.nil_append] at ht
  refine ⟨r, t, hr, ht, ⟨⟨.eraseError, 0, 0, true⟩, ?_, rfl⟩, hlocated.2 (Or.inl rfl)⟩
  rw [← ht, hcalls]
  exact List.mem_cons_of_mem _ List.mem_cons_self

/-- A job on the second half of the chip. -/
def secondHalf : ObjectFlash := ⟨0x80000, 0x40000, 0x40000, some fun _ _ _ _ => true, false⟩

def stuckState : State Unit := ⟨(), [], [], .empty⟩

theorem stuck_calls : (bootFlashEraseMinimalRegion stuck secondHalf 5 stuckState).map (·.2.calls) =
    some [⟨.eraseStart, 0, 0, true⟩, ⟨.eraseError, 0, 0, true⟩, ⟨.eraseEnd, 0, 0, true⟩] := rfl

/-- **A byte of the second half.**  The byte that cannot be erased is at 0x40000, and
is reported at 0. -/
theorem erase_error_offset :
    eraseFailing stuck secondHalf 5 stuckState = some 0x40000 ∧
      ¬ ∀ r, bootFlashEraseMinimalRegion stuck secondHalf 5 stuckState = some r →
        ∀ t, r.2.calls = stuckState.calls ++ t →
          Located (eraseFailing stuck secondHalf 5 stuckState) t := by
  have hfailing : eraseFailing stuck secondHalf 5 stuckState = some 0x40000 := rfl
  refine ⟨hfailing, fun h => ?_⟩
  obtain ⟨r, hr, hcalls⟩ := Option.map_eq_some_iff.1 stuck_calls
  have hloc := h r hr _ hcalls ⟨.eraseError, 0, 0, true⟩ (by simp) rfl
  rw [hfailing] at hloc
  exact absurd hloc (by decide)

end Gentoox.Flash
