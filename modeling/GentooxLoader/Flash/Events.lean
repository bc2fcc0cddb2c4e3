import GentooxLoader.Flash.Protocol
import GentooxLoader.Flash.Turns

/-!
# The events of a flash job

The callback may count on an `*_END` for each `*_START` it gets.  The two
functions keep to that on every way out that they take by themselves, also where
the chip reports an error, but not where the callback stops them: after a false
answer to a start, an update or a verify error they return at once.

    paired_iff            every start gets its end ↔ all these answers were true
    no_end_after_update   the callback stops an erase job at its first update
-/

namespace Gentoox.Flash

open Loops

/-- The event that is promised after it. -/
def EnumEvents.ending : EnumEvents → Option EnumEvents
  | .eraseStart => some .eraseEnd
  | .programStart => some .programEnd
  | .verifyStart => some .verifyEnd
  | _ => none

/-- A false answer ends the job with an event still promised. -/
def EnumEvents.leavesOpen : EnumEvents → Bool
  | .eraseStart | .eraseUpdate | .programStart | .programUpdate | .verifyStart | .verifyError => true
  | _ => false

/-- Every start is followed by its end. -/
def Paired : List Call → Prop
  | [] => True
  | c :: t => (∀ e, c.ee.ending = some e → ∃ c' ∈ t, c'.ee = e) ∧ Paired t

/-- The callback never stopped the job where an event is still promised. -/
def Agreed (t : List Call) : Prop := ∀ c ∈ t, c.ee.leavesOpen = true → c.answer = true

/-! ## Sequences of events -/

theorem Paired.append {t t' : List Call} (h : Paired t) (h' : Paired t') : Paired (t ++ t') := by
  induction t with
  | nil => exact h'
  | cons c t ih =>
    refine ⟨fun e he => ?_, ih h.2⟩
    obtain ⟨c', hc', hee⟩ := h.1 e he
    exact ⟨c', List.mem_append_left t' hc', hee⟩

theorem Paired.of_append {t t' : List Call} (h : Paired (t ++ t')) : Paired t' := by
  induction t with
  | nil => exact h
  | cons c t ih => exact ih h.2

theorem paired_of_plain {t : List Call} (h : ∀ c ∈ t, c.ee.ending = none) : Paired t := by
  induction t with
  | nil => trivial
  | cons c t ih =>
    refine ⟨fun e he => ?_, ih fun c' hc' => h c' (List.mem_cons_of_mem c hc')⟩
    rw [h c List.mem_cons_self] at he
    cases he

theorem Agreed.append_iff {t t' : List Call} : Agreed (t ++ t') ↔ Agreed t ∧ Agreed t' :=
  List.forall_mem_append

theorem agreed_singleton {c : Call} : Agreed [c] ↔ (c.ee.leavesOpen = true → c.answer = true) :=
  List.forall_mem_singleton

/-- No event is owed. -/
structure Settled (t : List Call) : Prop where
  paired : Paired t
  agreed : Agreed t

/-- `e` is owed, since a start that nothing but updates and errors followed. -/
structure Owed (e : EnumEvents) (t : List Call) : Prop where
  since : ∃ t₁ c t₂, t = t₁ ++ c :: t₂ ∧ c.ee.ending = some e ∧ Paired t₁ ∧
    ∀ c' ∈ t₂, c'.ee.ending = none ∧ c'.ee ≠ e
  agreed : Agreed t

/-- The callback stopped the job, and an event stays owed. -/
structure Broken (t : List Call) : Prop where
  unpaired : ¬ Paired t
  stopped : ¬ Agreed t

theorem settled_nil : Settled [] := ⟨trivial, by simp [Agreed]⟩

section
variable {e : EnumEvents} {t : List Call} {c : Call}

theorem Settled.start (h : Settled t) (hc : c.ee.ending = some e) (ha : c.answer = true) :
    Owed e (t ++ [c]) := by
  refine ⟨⟨t, c, [], rfl, hc, h.paired, by simp⟩, ?_⟩
  exact Agreed.append_iff.2 ⟨h.agreed, agreed_singleton.2 fun _ => ha⟩

theorem Owed.plain (h : Owed e t) (hc : c.ee.ending = none) (hne : c.ee ≠ e)
    (ha : c.ee.leavesOpen = true → c.answer = true) : Owed e (t ++ [c]) := by
  obtain ⟨⟨t₁, d, t₂, rfl, hd, hp, hrest⟩, hagreed⟩ := h
  refine ⟨⟨t₁, d, t₂ ++ [c], by simp, hd, hp, fun c' hc' => ?_⟩, ?_⟩
  · rcases List.mem_append.1 hc' with hc' | hc'
    · exact hrest c' hc'
    · rw [List.mem_singleton.1 hc']
      exact ⟨hc, hne⟩
  · exact Agreed.append_iff.2 ⟨hagreed, agreed_singleton.2 ha⟩

theorem Owed.settle (h : Owed c.ee t) (hc : c.ee.ending = none)
    (ha : c.ee.leavesOpen = true → c.answer = true) : Settled (t ++ [c]) := by
  obtain ⟨⟨t₁, d, t₂, rfl, hd, hp, hrest⟩, hagreed⟩ := h
  refine ⟨?_, Agreed.append_iff.2 ⟨hagreed, agreed_singleton.2 ha⟩⟩
  rw [List.append_assoc]
  refine hp.append ⟨fun e he => ?_, paired_of_plain fun c' hc' => ?_⟩
  · rw [hd] at he
    cases he
    exact ⟨c, by simp, rfl⟩
  · rcases List.mem_append.1 hc' with hc' | hc'
    · exact (hrest c' hc').1
    · rw [List.mem_singleton.1 hc']
      exact hc

/-- A false answer to a start. -/
theorem refuse_start (hc : c.ee.ending = some e) (hopen : c.ee.leavesOpen = true)
    (ha : c.answer = false) : Broken (t ++ [c]) := by
  refine ⟨fun hp => ?_, fun h => ?_⟩
  · obtain ⟨c', hc', -⟩ := hp.of_append.1 e hc
    cases hc'
  · have := agreed_singleton.1 (Agreed.append_iff.1 h).2 hopen
    rw [ha] at this
    cases this

/-- A false answer while an event is owed. -/
theorem Owed.refuse (h : Owed e t) (hne : c.ee ≠ e)
    (hopen : c.ee.leavesOpen = true) (ha : c.answer = false) : Broken (t ++ [c]) := by
  obtain ⟨⟨t₁, d, t₂, rfl, hd, -, hrest⟩, -⟩ := h
  refine ⟨fun hp => ?_, fun h => ?_⟩
  · rw [List.append_assoc] at hp
    obtain ⟨c', hc', hee⟩ := hp.of_append.1 e hd
    rcases List.mem_append.1 hc' with hc' | hc'
    · exact (hrest c' hc').2 hee
    · rw [List.mem_singleton.1 hc'] at hee
      exact hne hee
  · have := agreed_singleton.1 (Agreed.append_iff.1 h).2 hopen
    rw [ha] at this
    cases this

end

/-! ## The state of a job -/

section
variable {σ : Type} {c : Chip σ} {pof : ObjectFlash} {s₀ s s' : State σ} {fuel : Nat}

/-- The calls made since `s₀` are as `S` says; without a callback there are none. -/
def Since (pof : ObjectFlash) (s₀ : State σ) (S : List Call → Prop) (s : State σ) : Prop :=
  ∃ t, s.calls = s₀.calls ++ t ∧ if pof.pcallbackFlash.isNone then t = [] else S t

theorem Since.of_calls {S : List Call → Prop} (h : Since pof s₀ S s) (hs : s'.calls = s.calls) :
    Since pof s₀ S s' := by
  unfold Since
  rw [hs]
  exact h

theorem Since.imp {S S' : List Call → Prop} (h : Since pof s₀ S s) (hS : ∀ t, S t → S' t) :
    Since pof s₀ S' s := by
  obtain ⟨t, ht, h⟩ := h
  refine ⟨t, ht, ?_⟩
  split
  · rwa [if_pos ‹_›] at h
  · rw [if_neg ‹_›] at h
    exact hS t h

theorem Since.of_none {S S' : List Call → Prop} (hf : pof.pcallbackFlash = none)
    (h : Since pof s₀ S s) : Since pof s₀ S' s := by
  obtain ⟨t, ht, h⟩ := h
  refine ⟨t, ht, ?_⟩
  rw [hf] at h ⊢
  exact h

/-- One more call; without a callback nothing stops the job. -/
theorem Since.callback {S : List Call → Prop} {R : Bool → List Call → Prop} {ee : EnumEvents}
    {dwPos dwExtent : UInt32} (h : Since pof s₀ S s)
    (hR : ∀ t answer, S t → R answer (t ++ [⟨ee, dwPos, dwExtent, answer⟩])) :
    Since pof s₀ (R (s.callback pof ee dwPos dwExtent).1) (s.callback pof ee dwPos dwExtent).2 := by
  obtain ⟨t, ht, h⟩ := h
  unfold Since State.callback
  cases hf : pof.pcallbackFlash with
  | none =>
    rw [hf] at h
    exact ⟨t, ht, h⟩
  | some f =>
    rw [hf] at h
    refine ⟨t ++ [⟨ee, dwPos, dwExtent, f s.calls ee dwPos dwExtent⟩], ?_, ?_⟩
    · rw [← List.append_assoc, ← ht]
    · exact hR t _ h

/-- What a start leaves behind it, by its answer. -/
def Started (e : EnumEvents) (answer : Bool) (t : List Call) : Prop :=
  if answer then Owed e t else Broken t

theorem Since.start (ee e : EnumEvents) (hee : ee.ending = some e) (hopen : ee.leavesOpen = true)
    (h : Since pof s₀ Settled s) :
    Since pof s₀ (Started e (s.callback pof ee 0 0).1) (s.callback pof ee 0 0).2 := by
  refine h.callback fun t answer ht => ?_
  unfold Started
  split
  · rename_i ha
    exact ht.start hee ha
  · rename_i ha
    exact refuse_start hee hopen (Bool.eq_false_iff.2 ha)

theorem Since.ending {e : EnumEvents} (hee : e.ending = none) (hopen : e.leavesOpen = false)
    (h : Since pof s₀ (Owed e) s) : Since pof s₀ Settled (s.callback pof e 0 0).2 := by
  refine h.callback fun t answer ht => Owed.settle ht hee fun h => ?_
  rw [hopen] at h
  cases h

theorem Since.plain {ee e : EnumEvents} {dwPos dwExtent : UInt32} (hee : ee.ending = none)
    (hne : ee ≠ e) (hopen : ee.leavesOpen = false) (h : Since pof s₀ (Owed e) s) :
    Since pof s₀ (Owed e) (s.callback pof ee dwPos dwExtent).2 := by
  refine h.callback (R := fun _ => Owed e) fun t answer ht => ht.plain hee hne fun h => ?_
  rw [hopen] at h
  cases h

/-- The loop may go on while an event is owed, or ends with it still owed. -/
theorem Since.ask {ee e : EnumEvents} {dwPos dwExtent : UInt32} (hee : ee.ending = none)
    (hne : ee ≠ e) (hopen : ee.leavesOpen = true) (h : Since pof s₀ (Owed e) s) :
    Since pof s₀ (Started e (s.callback pof ee dwPos dwExtent).1)
      (s.callback pof ee dwPos dwExtent).2 := by
  refine h.callback fun t answer ht => ?_
  unfold Started
  split
  · rename_i ha
    exact ht.plain hee hne fun _ => ha
  · rename_i ha
    exact ht.refuse hne hopen (Bool.eq_false_iff.2 ha)

theorem Since.report {ee e : EnumEvents} {dwPos dw : UInt32} {dwExtent : UInt8 → UInt32}
    (hee : ee.ending = none) (hne : ee ≠ e) (hopen : ee.leavesOpen = false)
    (he : e.ending = none) (hopen' : e.leavesOpen = false) (h : Since pof s₀ (Owed e) s) :
    Since pof s₀ Settled (s.report c pof ee e dwPos dw dwExtent) := by
  unfold State.report
  cases hf : pof.pcallbackFlash with
  | none => exact h.of_none hf
  | some f =>
    have hread : Since pof s₀ (Owed e) (s.read c dw).2 := h.of_calls rfl
    have herror : Since pof s₀ (Owed e)
        ((s.read c dw).2.callback pof ee dwPos (dwExtent (s.read c dw).1)).2 :=
      hread.plain hee hne hopen
    exact herror.ending he hopen'

/-! ## Commands make no calls -/

@[simp] theorem writes_calls (s : State σ) (l : List (UInt32 × UInt8)) :
    (s.writes c l).calls = s.calls := by
  induction l generalizing s with
  | nil => rfl
  | cons w l ih => exact ih (s.write c w.1 w.2)

theorem waitToggle_calls {dw : UInt32} {r : UInt32 × State σ} (h : waitToggle c fuel dw s = some r) :
    r.2.calls = s.calls := by
  obtain ⟨n, -, hafter⟩ := waitToggle_reads h
  rw [hafter]
  rfl

theorem erase28xxx_calls {dw : UInt32} {r : UInt8 × State σ} (h : erase28xxx c fuel dw s = some r) :
    r.2.calls = s.calls := by
  obtain ⟨r', hloop, rfl⟩ := Option.map_eq_some_iff.1 h
  obtain ⟨⟨n, -, rfl⟩, -⟩ := status_reads hloop
  rw [writes_calls]
  exact writes_calls s _

theorem erase29xxx_calls {dw : UInt32} {n : Int} (h : erase29xxx c pof fuel dw n s = some s') :
    s'.calls = s.calls := by
  obtain ⟨r, hblock, h⟩ := Option.bind_eq_some_iff.1 h
  obtain ⟨r₁, h1, h2⟩ := Option.bind_eq_some_iff.1 hblock
  have k1 : r₁.2.calls = s.calls := (waitToggle_calls h1).trans (writes_calls s _)
  have k2 : r.2.calls = s.calls := by
    split_ifs at h2
    · exact ((waitToggle_calls h2).trans (writes_calls r₁.2 _)).trans k1
    · cases h2
      exact k1
  split_ifs at h
  · obtain ⟨r₂, h3, rfl⟩ := Option.map_eq_some_iff.1 h
    exact ((waitToggle_calls h3).trans (writes_calls r.2 _)).trans k2
  · cases h
    exact k2

theorem program28xxx_calls {dw : UInt32} {v : UInt8} {r : UInt32 × UInt8 × State σ}
    (h : program28xxx c fuel dw v s = some r) : r.2.2.calls = s.calls := by
  obtain ⟨r', hloop, rfl⟩ := Option.map_eq_some_iff.1 h
  obtain ⟨⟨n, -, hafter⟩, -⟩ := programStatus_reads hloop
  rw [writes_calls, hafter]
  exact writes_calls s _

theorem program29xxx_calls {dw : UInt32} {v : UInt8} (h : program29xxx c fuel dw v s = some s') :
    s'.calls = s.calls := by
  obtain ⟨r, hwait, rfl⟩ := Option.map_eq_some_iff.1 h
  exact (waitToggle_calls hwait).trans (writes_calls s _)

/-! ## The two functions -/

/-- How the calls of a function that returned may look. -/
def Closed (t : List Call) : Prop := Settled t ∨ Broken t

theorem Since.closed_of_started {e : EnumEvents} {answer : Bool} (hno : ¬ answer = true)
    (h : Since pof s₀ (Started e answer) s) : Since pof s₀ Closed s := by
  refine h.imp fun t ht => .inr ?_
  unfold Started at ht
  rwa [if_neg hno] at ht

theorem Since.owed_of_started {e : EnumEvents} {answer : Bool} (hyes : answer = true)
    (h : Since pof s₀ (Started e answer) s) : Since pof s₀ (Owed e) s := by
  refine h.imp fun t ht => ?_
  unfold Started at ht
  rwa [if_pos hyes] at ht

theorem Since.update {ee e : EnumEvents} {dw dwPos : UInt32} (hee : ee.ending = none) (hne : ee ≠ e)
    (hopen : ee.leavesOpen = true) (h : Since pof s₀ (Owed e) s) :
    Since pof s₀ (Started e (s.update pof ee dw dwPos).1) (s.update pof ee dw dwPos).2 := by
  unfold State.update
  split
  · exact h.ask hee hne hopen
  · refine h.imp fun t ht => ?_
    unfold Started
    rwa [if_pos rfl]

theorem eraseTurn_events {v : Erase σ} {t : Turn (Erase σ) (Bool × State σ)}
    (h : Since pof s₀ (Owed .eraseEnd) v.s) (ht : eraseTurn c pof fuel v = some t) :
    t.Keeps (fun v => Since pof s₀ (Owed .eraseEnd) v.s) (fun r => Since pof s₀ Closed r.2) := by
  have hread : Since pof s₀ (Owed .eraseEnd) (v.s.read c v.dw).2 := h.of_calls rfl
  have hreport {s : State σ} (hs : Since pof s₀ (Owed .eraseEnd) s) :
      Since pof s₀ Closed (s.report c pof .eraseError .eraseEnd (v.dw - pof.dwStartOffset) v.dw
        (·.toUInt32)) :=
    (hs.report rfl (by decide) rfl rfl rfl).imp fun _ => .inl
  have hup : Since pof s₀ (Started .eraseEnd (v.updated c pof).1) (v.updated c pof).2 :=
    hread.update rfl (by decide) rfl
  cases eraseTurn_step ht with
  | finished => exact (h.ending rfl rfl).imp fun _ => .inl
  | gaveUp => exact (hreport hread).of_calls rfl
  | badStatus _ _ _ hr => exact (hreport (hread.of_calls (erase28xxx_calls hr))).of_calls rfl
  | erased28xxx _ _ _ hr => exact hread.of_calls (erase28xxx_calls hr)
  | erased29xxx _ _ _ hr => exact hread.of_calls (erase29xxx_calls hr)
  | advanced _ _ hgo => exact hup.owed_of_started hgo
  | aborted _ _ hstop => exact (hup.closed_of_started (Bool.eq_false_iff.1 hstop)).of_calls rfl

theorem since_refl (pof : ObjectFlash) (s : State σ) :
    Since pof s Settled ({ s with szAdditionalErrorInfo := .empty } : State σ) := by
  refine ⟨[], (List.append_nil _).symm, ?_⟩
  split
  · rfl
  · exact settled_nil

theorem bootFlashErase_events {r : Bool × State σ}
    (hr : bootFlashEraseMinimalRegion c pof fuel s = some r) : Since pof s Closed r.2 := by
  unfold bootFlashEraseMinimalRegion at hr
  simp only at hr
  have hstart := (since_refl pof s).start .eraseStart .eraseEnd rfl rfl
  split at hr
  · rename_i hyes
    exact loop_rule (I := fun v : Erase σ => Since pof s (Owed .eraseEnd) v.s)
      (Q := fun r => Since pof s Closed r.2) (fun v t hv ht => eraseTurn_events hv ht)
      (hstart.owed_of_started hyes) hr
  · rename_i hno
    cases hr
    exact (hstart.closed_of_started hno).of_calls rfl

theorem programTurn_events {pba : UInt32 → UInt8} {v : Program σ}
    {t : Turn (Program σ) (Bool × State σ)} (h : Since pof s₀ (Owed .programEnd) v.s)
    (ht : programTurn c pof pba fuel v = some t) :
    t.Keeps (fun v => Since pof s₀ (Owed .programEnd) v.s)
      (fun r => Since pof s₀ (if r.1 then Owed .programEnd else Closed) r.2) := by
  have hread : Since pof s₀ (Owed .programEnd) (v.s.read c v.dw).2 := h.of_calls rfl
  have hreport {s : State σ} (dwPos : UInt32) (hs : Since pof s₀ (Owed .programEnd) s) :
      Since pof s₀ Closed (s.report c pof .programError .programEnd dwPos v.dw
        (dataPair (pba v.dwSrc))) :=
    (hs.report rfl (by decide) rfl rfl rfl).imp fun _ => .inl
  have hup : Since pof s₀ (Started .programEnd (v.updated c pof).1) (v.updated c pof).2 :=
    hread.update rfl (by decide) rfl
  cases programTurn_step ht with
  | finished => exact h
  | gaveUp => exact (hreport v.dw hread).of_calls rfl
  | badStatus _ _ _ hr =>
    exact (hreport (v.dw - pof.dwStartOffset)
      (hread.of_calls (program28xxx_calls hr))).of_calls rfl
  | programmed28xxx _ _ _ hr => exact hread.of_calls (program28xxx_calls hr)
  | programmed29xxx _ _ _ hr => exact hread.of_calls (program29xxx_calls hr)
  | advanced _ _ hgo => exact hup.owed_of_started hgo
  | aborted _ _ hstop => exact (hup.closed_of_started (Bool.eq_false_iff.1 hstop)).of_calls rfl

theorem verifyFailed_events {v : Verify σ} {data : UInt8}
    (h : Since pof s₀ (Owed .verifyEnd) v.s) : Since pof s₀ Closed (v.failed c pof data) := by
  unfold Verify.failed
  cases hf : pof.pcallbackFlash with
  | none => exact h.of_none hf
  | some f =>
    have hread : Since pof s₀ (Owed .verifyEnd) (v.s.read c v.dw).2 := h.of_calls rfl
    have herror : Since pof s₀ (Started .verifyEnd _) ((v.s.read c v.dw).2.callback pof .verifyError
        v.dw (dataPair data (v.s.read c v.dw).1)).2 := hread.ask rfl (by decide) rfl
    simp only
    split
    · rename_i hyes
      exact ((herror.owed_of_started hyes).ending rfl rfl).imp fun _ => .inl
    · rename_i hno
      exact herror.closed_of_started hno

theorem verifyTurn_events {pba : UInt32 → UInt8} {v : Verify σ}
    {t : Turn (Verify σ) (Bool × State σ)} (h : Since pof s₀ (Owed .verifyEnd) v.s)
    (ht : verifyTurn c pof pba v = some t) :
    t.Keeps (fun v => Since pof s₀ (Owed .verifyEnd) v.s) (fun r => Since pof s₀ Closed r.2) := by
  have hread : Since pof s₀ (Owed .verifyEnd) (v.s.read c v.dw).2 := h.of_calls rfl
  cases verifyTurn_step ht with
  | finished => exact (h.ending rfl rfl).imp fun _ => .inl
  | failed => exact verifyFailed_events hread
  | advanced => exact hread

theorem verify_events {pba : UInt32 → UInt8} {r : Bool × State σ}
    (h : Since pof s₀ (Owed .programEnd) s) (hr : verify c pof pba fuel s = some r) :
    Since pof s₀ Closed r.2 := by
  unfold verify at hr
  simp only at hr
  have hend : Since pof s₀ Settled (s.callback pof .programEnd 0 0).2 := h.ending rfl rfl
  have hstart := hend.start .verifyStart .verifyEnd rfl rfl
  split at hr
  · split at hr
    · rename_i hyes
      exact loop_rule (I := fun v : Verify σ => Since pof s₀ (Owed .verifyEnd) v.s)
        (Q := fun r => Since pof s₀ Closed r.2) (fun v t hv ht => verifyTurn_events hv ht)
        (hstart.owed_of_started hyes) hr
    · rename_i hno
      cases hr
      exact hstart.closed_of_started hno
  · cases hr
    exact hend.imp fun _ => .inl

theorem bootFlashProgram_events {pba : UInt32 → UInt8} {r : Bool × State σ}
    (hr : bootFlashProgram c pof pba fuel s = some r) : Since pof s Closed r.2 := by
  unfold bootFlashProgram at hr
  simp only at hr
  have hstart := (since_refl pof s).start .programStart .programEnd rfl rfl
  split at hr
  · rename_i hyes
    obtain ⟨r₁, hloop, hr⟩ := Option.bind_eq_some_iff.1 hr
    have hloop := loop_rule (I := fun v : Program σ => Since pof s (Owed .programEnd) v.s)
      (Q := fun r => Since pof s (if r.1 then Owed .programEnd else Closed) r.2)
      (fun v t hv ht => programTurn_events hv ht) (hstart.owed_of_started hyes) hloop
    split at hr
    · rename_i htrue
      rw [if_pos htrue] at hloop
      exact verify_events hloop hr
    · rename_i hno
      cases hr
      rwa [if_neg hno] at hloop
  · rename_i hno
    cases hr
    exact (hstart.closed_of_started hno).of_calls rfl

/-- Either way the events tell. -/
theorem Since.paired_iff_agreed (h : Since pof s₀ Closed s) :
    ∃ t, s.calls = s₀.calls ++ t ∧ (Paired t ↔ Agreed t) := by
  obtain ⟨t, ht, h⟩ := h
  refine ⟨t, ht, ?_⟩
  split at h
  · subst h
    exact ⟨fun _ => settled_nil.agreed, fun _ => settled_nil.paired⟩
  · rcases h with h | h
    · exact ⟨fun _ => h.agreed, fun _ => h.paired⟩
    · exact ⟨fun hp => absurd hp h.unpaired, fun ha => absurd ha h.stopped⟩

end

/-! ## Top theorem -/

/-- **Pairs of events.**  Whatever the chip and the callback do, when one of the
two functions returns, each start it delivered was followed by its end exactly
when the callback answered true to every start, update and verify error. -/
theorem paired_iff {σ : Type} (c : Chip σ) (pof : ObjectFlash) (pba : UInt32 → UInt8) (fuel : Nat)
    (s s' : State σ) (ret : Bool)
    (h : bootFlashEraseMinimalRegion c pof fuel s = some (ret, s') ∨
      bootFlashProgram c pof pba fuel s = some (ret, s')) :
    ∃ t, s'.calls = s.calls ++ t ∧ (Paired t ↔ Agreed t) := by
  rcases h with h | h
  · exact (bootFlashErase_events h).paired_iff_agreed
  · exact (bootFlashProgram_events h).paired_iff_agreed

/-- A chip that reads as erased. -/
def blank : Chip Unit where
  read _ _ := (0xff, ())
  write _ _ _ := ()

/-- A job on the first two bytes whose callback stops it at the first update. -/
def stoppedJob : ObjectFlash := ⟨8, 0, 2, some fun _ ee _ _ => ee ≠ .eraseUpdate, false⟩

def blankState : State Unit := ⟨(), [], [], .empty⟩

/-- What is left of the job on the blank chip. -/
def stoppedState : State Unit :=
  ⟨(), [], [⟨.eraseStart, 0, 0, true⟩, ⟨.eraseUpdate, 0, 2, false⟩], .eraseAborted⟩

theorem stopped_run :
    bootFlashEraseMinimalRegion blank stoppedJob 1 blankState = some (false, stoppedState) := rfl

theorem paired_iff_stopped : ∃ t, stoppedState.calls = blankState.calls ++ t ∧ (Paired t ↔ Agreed t) :=
  paired_iff blank stoppedJob (fun _ => 0) 1 blankState stoppedState false (.inl stopped_run)

/-- The callback got the start, stops the job at the first update and never
gets the end. -/
theorem no_end_after_update : ¬ ∀ ret s',
    bootFlashEraseMinimalRegion blank stoppedJob 1 blankState = some (ret, s') →
      ∀ t, s'.calls = blankState.calls ++ t → Paired t := by
  intro h
  obtain ⟨hend, -⟩ := h false stoppedState stopped_run _ rfl
  obtain ⟨c', hc', hee⟩ := hend .eraseEnd rfl
  rw [List.mem_singleton.1 hc'] at hee
  cases hee

end Gentoox.Flash
