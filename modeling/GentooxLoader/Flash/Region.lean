import GentooxLoader.Flash.Protocol
import GentooxLoader.Flash.Turns

/-!
# What erasing and programming leave on the chip

    bootFlashErase_chipErase   chip erase is given for a job on the whole chip only
    reflash_region             both return true: the region is the image, and
                               nothing outside its erase blocks has changed
-/

namespace Gentoox.Flash

open Loops

section
variable {σ : Type} {c : Chip σ} {pof : ObjectFlash} {P : Protocol c pof} {s s' s'' : State σ}
  {a : UInt32} {fuel : Nat}

/-! ## The region -/

def InRegion (pof : ObjectFlash) (a : UInt32) : Prop :=
  pof.dwStartOffset.toNat ≤ a.toNat ∧ a.toNat < pof.dwStartOffset.toNat + pof.dwLengthUsedArea.toNat

/-- The region lies on the chip. -/
def Fits (pof : ObjectFlash) : Prop :=
  pof.dwStartOffset.toNat + pof.dwLengthUsedArea.toNat ≤ pof.dwLengthInBytes.toNat

/-- Outside the erase blocks of the region the contents are the same. -/
def Framed (P : Protocol c pof) (s s' : State σ) : Prop :=
  ∀ b, b < pof.dwLengthInBytes → (∀ a, InRegion pof a → P.block a ≠ P.block b) →
    P.mem s'.chip b = P.mem s.chip b

theorem Framed.trans (h : Framed P s s') (h' : Framed P s' s'') : Framed P s s'' :=
  fun b hb hout => (h' b hb hout).trans (h b hb hout)

theorem Kept.framed (h : Kept P a s s') (ha : InRegion pof a) : Framed P s s' := by
  intro b hb hout
  rcases h.mem b hb with h | h | ⟨h0, hlen⟩
  · exact h
  · exact absurd h.symm (hout a ha)
  · -- on the whole chip there is nothing outside
    refine absurd rfl (hout b ⟨?_, ?_⟩)
    · rw [h0]
      exact Nat.zero_le _
    · rw [h0, hlen, UInt32.toNat_zero, Nat.zero_add]
      exact hb

/-- The chip waits with `dwLen` bytes from `dw` on to go. -/
structure At (P : Protocol c pof) (s₀ : State σ) (dw dwLen : UInt32) (s : State σ) :
    Prop where
  idle : P.Idle s.chip
  framed : Framed P s₀ s
  lo : pof.dwStartOffset.toNat ≤ dw.toNat
  hi : dw.toNat + dwLen.toNat = pof.dwStartOffset.toNat + pof.dwLengthUsedArea.toNat

section
variable {s₀ : State σ} {dw dwLen : UInt32}

theorem At.start (h : P.Idle s₀.chip) (hs : s.chip = s₀.chip) :
    At P s₀ pof.dwStartOffset pof.dwLengthUsedArea s := by
  refine ⟨?_, fun _ _ _ => ?_, Nat.le_refl _, rfl⟩
  · rw [hs]
    exact h
  · rw [hs]

theorem At.inRegion (h : At P s₀ dw dwLen s) (hne : dwLen ≠ 0) : InRegion pof dw := by
  have hpos : dwLen.toNat ≠ 0 := fun h0 => hne (UInt32.toNat_inj.1 h0)
  have := h.hi
  exact ⟨h.lo, by omega⟩

theorem At.lt (h : At P s₀ dw dwLen s) (hfit : Fits pof) (hne : dwLen ≠ 0) :
    dw < pof.dwLengthInBytes :=
  UInt32.lt_iff_toNat_lt.2 (Nat.lt_of_lt_of_le (h.inRegion hne).2 hfit)

theorem At.kept (h : At P s₀ dw dwLen s) (hne : dwLen ≠ 0) (hk : Kept P dw s s') :
    At P s₀ dw dwLen s' :=
  ⟨hk.idle, h.framed.trans (hk.framed (h.inRegion hne)), h.lo, h.hi⟩

theorem At.toNat_succ (h : At P s₀ dw dwLen s) (hfit : Fits pof) (hne : dwLen ≠ 0) :
    (dw + 1).toNat = dw.toNat + 1 := by
  have hlt : dw.toNat < pof.dwLengthInBytes.toNat := h.lt hfit hne
  have := pof.dwLengthInBytes.toNat_lt
  rw [UInt32.toNat_add, UInt32.toNat_one]
  omega

theorem At.advance (h : At P s₀ dw dwLen s) (hfit : Fits pof) (hne : dwLen ≠ 0) :
    At P s₀ (dw + 1) (dwLen - 1) s := by
  have hpos : dwLen.toNat ≠ 0 := fun h0 => hne (UInt32.toNat_inj.1 h0)
  have hdw := h.toNat_succ hfit hne
  have hlen : (dwLen - 1).toNat = dwLen.toNat - 1 := by
    rw [UInt32.toNat_sub_of_le _ _ (UInt32.le_iff_toNat_le.2 (by rw [UInt32.toNat_one]; omega))]
    rfl
  have := h.lo
  have := h.hi
  exact ⟨h.idle, h.framed, by omega, by omega⟩

theorem At.callback (h : At P s₀ dw dwLen s) (ee : EnumEvents) (dwPos dwExtent : UInt32) :
    At P s₀ dw dwLen (s.callback pof ee dwPos dwExtent).2 := by
  have hk : Kept P dw s (s.callback pof ee dwPos dwExtent).2 := kept_callback h.idle ee dwPos dwExtent
  refine ⟨hk.idle, h.framed.trans fun b _ _ => ?_, h.lo, h.hi⟩
  rw [callback_chip]

theorem At.update (h : At P s₀ dw dwLen s) (ee : EnumEvents) (a dwPos : UInt32) :
    At P s₀ dw dwLen (s.update pof ee a dwPos).2 := by
  unfold State.update
  split
  · exact h.callback _ _ _
  · exact h

end

/-! ## Erase -/

section
variable {s₀ : State σ} {v v' : Erase σ} {r : Bool × State σ}

/-- What a true result of the erase loop promises. -/
def Done (P : Protocol c pof) (s₀ : State σ) (r : Bool × State σ) : Prop :=
  r.1 = true → P.Idle r.2.chip ∧ Framed P s₀ r.2

theorem eraseTurn_keeps (hfit : Fits pof) {t : Turn (Erase σ) (Bool × State σ)}
    (h : At P s₀ v.dw v.dwLen v.s) (ht : eraseTurn c pof fuel v = some t) :
    t.Keeps (fun v => At P s₀ v.dw v.dwLen v.s) (Done P s₀) := by
  obtain ⟨hdw, hdwLen, -⟩ := v.retry_frame
  have hread (hlen : v.dwLen ≠ 0) : At P s₀ v.dw v.dwLen (v.s.read c v.dw).2 :=
    h.kept hlen (kept_read h.idle (h.lt hfit hlen))
  have hretry {s : State σ} (hs : At P s₀ v.dw v.dwLen s) :
      At P s₀ v.retry.dw v.retry.dwLen s := by
    rw [hdw, hdwLen]
    exact hs
  cases eraseTurn_step ht with
  | finished =>
    intro _
    have hend := h.callback .eraseEnd 0 0
    exact ⟨hend.idle, hend.framed⟩
  | gaveUp => rintro ⟨⟩
  | badStatus => rintro ⟨⟩
  | erased28xxx hun _ h28 hr =>
    have hs := hread hun.1
    exact hretry (hs.kept hun.1 (kept_erase28xxx h28 hs.idle (hs.lt hfit hun.1) hr))
  | erased29xxx hun _ h29 hr =>
    have hs := hread hun.1
    exact hretry (hs.kept hun.1 (kept_erase29xxx h29 hs.idle (hs.lt hfit hun.1) hr))
  | advanced hlen => exact ((hread hlen).update _ _ _).advance hfit hlen
  | aborted => rintro ⟨⟩

end

theorem bootFlashErase_framed {r : Bool × State σ} (hfit : Fits pof) (h : P.Idle s.chip)
    (hr : bootFlashEraseMinimalRegion c pof fuel s = some r) : Done P s r := by
  unfold bootFlashEraseMinimalRegion at hr
  simp only at hr
  split at hr
  · have hstart : At P s _ _ { s with szAdditionalErrorInfo := .empty } := At.start h rfl
    exact loop_rule (I := fun v : Erase σ => At P s v.dw v.dwLen v.s)
      (fun v t hv ht => eraseTurn_keeps hfit hv ht) (hstart.callback .eraseStart 0 0) hr
  · cases hr
    rintro ⟨⟩

/-! ## Program and verify -/

section
variable {s₀ : State σ} {pba : UInt32 → UInt8}

theorem programTurn_keeps {v : Program σ} (hfit : Fits pof) {t : Turn (Program σ) (Bool × State σ)}
    (h : At P s₀ v.dw v.dwLen v.s) (ht : programTurn c pof pba fuel v = some t) :
    t.Keeps (fun v => At P s₀ v.dw v.dwLen v.s) (Done P s₀) := by
  obtain ⟨hdw, hdwLen, -, -⟩ := v.retry_frame
  have hread (hlen : v.dwLen ≠ 0) : At P s₀ v.dw v.dwLen (v.s.read c v.dw).2 :=
    h.kept hlen (kept_read h.idle (h.lt hfit hlen))
  have hretry {s : State σ} (hs : At P s₀ v.dw v.dwLen s) :
      At P s₀ v.retry.dw v.retry.dwLen s := by
    rw [hdw, hdwLen]
    exact hs
  cases programTurn_step ht with
  | finished => exact fun _ => ⟨h.idle, h.framed⟩
  | gaveUp => rintro ⟨⟩
  | badStatus => rintro ⟨⟩
  | programmed28xxx hun _ h28 hr hgood =>
    have hs := hread hun.1
    have hlive := (not_or.1 hgood).2
    exact hretry (hs.kept hun.1 (kept_program28xxx h28 hs.idle (hs.lt hfit hun.1) hr hlive))
  | programmed29xxx hun _ h29 hr =>
    have hs := hread hun.1
    exact hretry (hs.kept hun.1 (kept_program29xxx h29 hs.idle (hs.lt hfit hun.1) hr))
  | advanced hlen => exact ((hread hlen).update _ _ _).advance hfit hlen
  | aborted => rintro ⟨⟩

/-- The bytes before `dw` are those of the image. -/
structure Verified (P : Protocol c pof) (s₀ : State σ) (pba : UInt32 → UInt8)
    (v : Verify σ) : Prop where
  here : At P s₀ v.dw v.dwLen v.s
  src : v.dwSrc = v.dw - pof.dwStartOffset
  mem : ∀ a, pof.dwStartOffset.toNat ≤ a.toNat → a.toNat < v.dw.toNat →
    P.mem v.s.chip a = pba (a - pof.dwStartOffset)

/-- What a true result of the verify loop promises. -/
def Image (P : Protocol c pof) (s₀ : State σ) (pba : UInt32 → UInt8)
    (r : Bool × State σ) : Prop :=
  r.1 = true → (∀ a, InRegion pof a → P.mem r.2.chip a = pba (a - pof.dwStartOffset)) ∧
    Framed P s₀ r.2

theorem verifyTurn_keeps {v : Verify σ} (hfit : Fits pof) {t : Turn (Verify σ) (Bool × State σ)}
    (h : Verified P s₀ pba v) (ht : verifyTurn c pof pba v = some t) :
    t.Keeps (Verified P s₀ pba) (Image P s₀ pba) := by
  cases verifyTurn_step ht with
  | finished h0 =>
    rintro -
    have hhi := h.here.hi
    rw [h0, UInt32.toNat_zero, Nat.add_zero] at hhi
    refine ⟨fun a ha => ?_, (h.here.callback .verifyEnd 0 0).framed⟩
    rw [callback_chip]
    exact h.mem a ha.1 (hhi ▸ ha.2)
  | failed => rintro ⟨⟩
  | advanced h0 heq =>
    have hlt := h.here.lt hfit h0
    obtain ⟨hbyte, -, hsame⟩ := P.read_idle _ _ h.here.idle hlt
    have hread : At P s₀ v.dw v.dwLen (v.s.read c v.dw).2 :=
      h.here.kept h0 (kept_read h.here.idle hlt)
    have hsucc := h.here.toNat_succ hfit h0
    refine ⟨hread.advance hfit h0, ?_, fun a hlo hhi => ?_⟩
    · show v.dwSrc + 1 = v.dw + 1 - pof.dwStartOffset
      rw [h.src, UInt32.sub_eq_add_neg, UInt32.sub_eq_add_neg]
      ac_rfl
    · -- one more byte is as it should be
      have hle : a.toNat < v.dw.toNat + 1 := hsucc ▸ hhi
      have hsize : a < pof.dwLengthInBytes := by
        rw [UInt32.lt_iff_toNat_lt] at hlt ⊢
        omega
      show P.mem (c.read v.s.chip v.dw).2 a = _
      rw [hsame a hsize]
      by_cases ha : a.toNat < v.dw.toNat
      · exact h.mem a hlo ha
      · obtain rfl : a = v.dw := UInt32.toNat_inj.1 (by omega)
        rw [← hbyte, ← h.src]
        exact heq

theorem verify_image {r : Bool × State σ} (hfit : Fits pof) (h : P.Idle s.chip)
    (hframed : Framed P s₀ s) (hr : verify c pof pba fuel s = some r) : Image P s₀ pba r := by
  unfold verify at hr
  simp only at hr
  have hstart : At P s₀ pof.dwStartOffset pof.dwLengthUsedArea s := ⟨h, hframed, Nat.le_refl _, rfl⟩
  split at hr
  · split at hr
    · refine loop_rule (I := Verified P s₀ pba) (fun v t hv ht => verifyTurn_keeps hfit hv ht)
        ⟨(hstart.callback .programEnd 0 0).callback .verifyStart 0 0, ?_, fun a h1 h2 => ?_⟩ hr
      · exact (UInt32.sub_self _).symm
      · exact absurd h1 (Nat.not_le.2 h2)
    · rename_i hno
      cases hr
      exact fun hyes => absurd hyes hno
  · rename_i hno
    cases hr
    exact fun hyes => absurd hyes hno

theorem bootFlashProgram_image {r : Bool × State σ} (hfit : Fits pof) (h : P.Idle s.chip)
    (hr : bootFlashProgram c pof pba fuel s = some r) : Image P s pba r := by
  unfold bootFlashProgram at hr
  simp only at hr
  split at hr
  · obtain ⟨r₁, hloop, hr⟩ := Option.bind_eq_some_iff.1 hr
    have hstart : At P s _ _ { s with szAdditionalErrorInfo := .empty } := At.start h rfl
    have hdone : Done P s r₁ := loop_rule (I := fun v : Program σ => At P s v.dw v.dwLen v.s)
      (fun v t hv ht => programTurn_keeps hfit hv ht) (hstart.callback .programStart 0 0) hloop
    split at hr
    · rename_i htrue
      obtain ⟨hidle, hframed⟩ := hdone htrue
      exact verify_image hfit hidle hframed hr
    · rename_i hno
      cases hr
      exact fun hyes => absurd hyes hno
  · cases hr
    rintro ⟨⟩

end

/-! ## Chip erase -/

/-- Since `s` the last write of the chip erase command, 0x10 to 0x5555, was given
only if the job is on the whole chip. -/
def Spared (pof : ObjectFlash) (s s' : State σ) : Prop :=
  ∃ l, s'.wrote = s.wrote ++ l ∧ ((0x5555, 0x10) ∈ l → Whole pof)

theorem Spared.of_wrote (h : s'.wrote = s.wrote) : Spared pof s s' :=
  ⟨[], by rw [h, List.append_nil], by simp⟩

theorem Spared.trans (h : Spared pof s s') (h' : Spared pof s' s'') : Spared pof s s'' := by
  obtain ⟨l, hl, hw⟩ := h
  obtain ⟨l', hl', hw'⟩ := h'
  refine ⟨l ++ l', by rw [hl', hl, List.append_assoc], fun hm => ?_⟩
  rcases List.mem_append.1 hm with hm | hm
  · exact hw hm
  · exact hw' hm

theorem Spared.writes (l : List (UInt32 × UInt8)) (hl : (0x5555, 0x10) ∈ l → Whole pof) :
    Spared pof s (s.writes c l) := ⟨l, writes_wrote s l, hl⟩

theorem spared_waitToggle {l : List (UInt32 × UInt8)} {r : UInt32 × State σ}
    (hl : (0x5555, 0x10) ∈ l → Whole pof) (h : waitToggle c fuel a (s.writes c l) = some r) :
    Spared pof s r.2 := by
  obtain ⟨n, -, hafter⟩ := waitToggle_reads h
  rw [hafter]
  exact (Spared.writes l hl).trans (Spared.of_wrote rfl)

theorem spared_erase28xxx {r : UInt8 × State σ} (h : erase28xxx c fuel a s = some r) :
    Spared pof s r.2 := by
  obtain ⟨r', hloop, rfl⟩ := Option.map_eq_some_iff.1 h
  obtain ⟨⟨n, -, rfl⟩, -⟩ := status_reads hloop
  have hgiven : Spared pof s (s.writes c [(0x5555, 0x50), (a, 0x20), (a, 0xd0)]) :=
    Spared.writes _ (by simp)
  exact hgiven.trans ((Spared.of_wrote rfl).trans (Spared.writes _ (by simp)))

theorem spared_erase29xxx {n : Int} (h : erase29xxx c pof fuel a n s = some s') :
    Spared pof s s' := by
  obtain ⟨r, hblock, h⟩ := Option.bind_eq_some_iff.1 h
  obtain ⟨r₁, h1, h2⟩ := Option.bind_eq_some_iff.1 hblock
  have k1 : Spared pof s r₁.2 := spared_waitToggle (by simp [eraseSequence]) h1
  have k2 : Spared pof s r.2 := by
    split_ifs at h2
    · exact k1.trans (spared_waitToggle (by simp [eraseSequence, resetSequence]) h2)
    · cases h2
      exact k1
  split_ifs at h with hlast
  · obtain ⟨r₂, h3, rfl⟩ := Option.map_eq_some_iff.1 h
    exact k2.trans (spared_waitToggle (fun _ => hlast.2.2) h3)
  · cases h
    exact k2

section
variable {s₀ : State σ}

theorem eraseTurn_spared {v : Erase σ} {t : Turn (Erase σ) (Bool × State σ)}
    (h : Spared pof s₀ v.s) (ht : eraseTurn c pof fuel v = some t) :
    t.Keeps (fun v => Spared pof s₀ v.s) (fun r => Spared pof s₀ r.2) := by
  have hread : Spared pof s₀ (v.s.read c v.dw).2 := h.trans (Spared.of_wrote rfl)
  cases eraseTurn_step ht with
  | finished => exact h.trans (Spared.of_wrote (callback_wrote _ _ _ _))
  | gaveUp => exact hread.trans (Spared.of_wrote (report_wrote _ _ _ _ _ _))
  | badStatus _ _ _ hr =>
    have hs := hread.trans (spared_erase28xxx hr)
    exact hs.trans (Spared.of_wrote (report_wrote _ _ _ _ _ _))
  | erased28xxx _ _ _ hr => exact hread.trans (spared_erase28xxx hr)
  | erased29xxx _ _ _ hr => exact hread.trans (spared_erase29xxx hr)
  | advanced => exact hread.trans (Spared.of_wrote (update_wrote _ _ _ _))
  | aborted => exact hread.trans (Spared.of_wrote (update_wrote _ _ _ _))

end

/-- **Chip erase.**  Whatever the chip answers, it is given for a job on the
whole chip only. -/
theorem bootFlashErase_chipErase {r : Bool × State σ}
    (hr : bootFlashEraseMinimalRegion c pof fuel s = some r) : Spared pof s r.2 := by
  unfold bootFlashEraseMinimalRegion at hr
  simp only at hr
  have hstart : Spared pof s
      (({ s with szAdditionalErrorInfo := .empty } : State σ).callback pof .eraseStart 0 0).2 :=
    Spared.of_wrote (callback_wrote _ _ _ _)
  split at hr
  · exact loop_rule (I := fun v : Erase σ => Spared pof s v.s) (Q := fun r => Spared pof s r.2)
      (fun v t hv ht => eraseTurn_spared hv ht) hstart hr
  · cases hr
    exact hstart

end

/-! ## Top theorem -/

/-- **Reflashing.**  On a chip that keeps the protocol, if erasing and then
programming return true, the region is the image byte for byte, nothing outside
the erase blocks that the region reaches into has changed, and the chip was
erased as a whole only if the region is the whole chip. -/
theorem reflash_region {σ : Type} (c : Chip σ) (pof : ObjectFlash) (hfit : Fits pof)
    (P : Protocol c pof) (pba : UInt32 → UInt8) (s s₁ s₂ : State σ) (hs : P.Idle s.chip)
    (fuel fuel' : Nat) (herase : bootFlashEraseMinimalRegion c pof fuel s = some (true, s₁))
    (hprogram : bootFlashProgram c pof pba fuel' s₁ = some (true, s₂)) :
    (∀ i, i < pof.dwLengthUsedArea → P.mem s₂.chip (pof.dwStartOffset + i) = pba i) ∧
      (∀ b, b < pof.dwLengthInBytes → (∀ a, InRegion pof a → P.block a ≠ P.block b) →
        P.mem s₂.chip b = P.mem s.chip b) ∧
      (∀ l, s₁.wrote = s.wrote ++ l → (0x5555, 0x10) ∈ l → Whole pof) := by
  obtain ⟨hidle, hframed⟩ := bootFlashErase_framed hfit hs herase rfl
  obtain ⟨himage, hframed'⟩ := bootFlashProgram_image hfit hidle hprogram rfl
  refine ⟨fun i hi => ?_, hframed.trans hframed', fun l hl => ?_⟩
  · have hlt : i.toNat < pof.dwLengthUsedArea.toNat := hi
    have hle : _ ≤ pof.dwLengthInBytes.toNat := hfit
    have := pof.dwLengthInBytes.toNat_lt
    have hsum : (pof.dwStartOffset + i).toNat = pof.dwStartOffset.toNat + i.toNat := by
      rw [UInt32.toNat_add]
      omega
    rw [himage _ ⟨by omega, by omega⟩]
    congr 1
    rw [UInt32.add_comm, UInt32.add_sub_cancel]
  · obtain ⟨l', hl', hwhole⟩ := bootFlashErase_chipErase herase
    obtain rfl : l = l' := List.append_cancel_left (hl.symm.trans hl')
    exact hwhole

/-! ## Small chips -/

/-- What the next write to a chip with the 28xxx commands is taken for. -/
inductive NorMode where
  | idle
  | eraseSetup
  | programSetup
  | status

/-- The contents and the mode. -/
structure Nor where
  mem : UInt32 → UInt8
  mode : NorMode

/-- A chip with erase blocks of four bytes that is never busy. -/
def nor : Chip Nor where
  read x a :=
    match x.mode with
    | .idle => (x.mem a, x)
    | _ => (0x80, x)
  write x a v :=
    match x.mode with
    | .idle =>
      if v = 0x20 then { x with mode := .eraseSetup }
      else if v = 0x40 then { x with mode := .programSetup }
      else x
    | .eraseSetup =>
      if v = 0xd0 then ⟨fun b => if b / 4 = a / 4 then 0xff else x.mem b, .status⟩
      else { x with mode := .idle }
    | .programSetup => ⟨fun b => if b = a then x.mem b &&& v else x.mem b, .status⟩
    | .status => if v = 0xff then { x with mode := .idle } else x

/-- A job on bytes 3 and 4 of eight. -/
def smallJob : ObjectFlash := ⟨8, 3, 2, none, true⟩

theorem nor_reads {x : Nor} (h : x.mode = .status) (a : UInt32) (n : Nat) :
    (nor.reads a n x).2 = x := by
  induction n with
  | zero => rfl
  | succ n ih =>
    rw [Chip.reads, ih]
    unfold nor
    simp only [h]

def norProtocol : Protocol nor smallJob where
  mem := Nor.mem
  block b := b / 4
  Idle x := x.mode = .idle
  read_idle := by
    rintro ⟨mem, _⟩ a rfl _
    exact ⟨rfl, rfl, fun _ _ => rfl⟩
  erase28xxx := by
    rintro - ⟨mem, _⟩ a n rfl - - r - y
    have hr : r.2 = ⟨fun b => if b / 4 = a / 4 then 0xff else mem b, .status⟩ := nor_reads rfl a n
    have hy : y = ⟨fun b => if b / 4 = a / 4 then 0xff else mem b, .idle⟩ := by
      show nor.writes r.2 _ = _
      rw [hr]
      rfl
    rw [hy]
    refine ⟨rfl, fun b _ => ?_⟩
    by_cases hb : b / 4 = a / 4
    · exact .inr ⟨hb, if_pos hb⟩
    · exact .inl (if_neg hb)
  program28xxx := by
    rintro - ⟨mem, _⟩ a v n rfl - - r - y
    have hr : r.2 = ⟨fun b => if b = a then mem b &&& v else mem b, .status⟩ := nor_reads rfl a n
    have hy : y = ⟨fun b => if b = a then mem b &&& v else mem b, .idle⟩ := by
      show nor.writes r.2 _ = _
      rw [hr]
      rfl
    rw [hy]
    refine ⟨rfl, fun b _ hb => if_neg hb, ?_⟩
    simp only [if_true]
    rw [UInt8.and_assoc, UInt8.and_comm v, ← UInt8.and_assoc, UInt8.and_self]
  erase29xxx := by rintro ⟨⟩
  eraseChip := by rintro ⟨⟩
  program29xxx := by rintro ⟨⟩
  reset := by rintro ⟨⟩

/-- What the next write to a chip with the 29xxx commands is taken for. -/
inductive SectorMode where
  | idle
  | unlock
  | command
  | program
  | erase
  | eraseUnlock
  | eraseCommand

structure Sectors where
  mem : UInt32 → UInt8
  mode : SectorMode

/-- A chip with erase blocks of four bytes that is never busy, and does not know 0x50. -/
def sectors : Chip Sectors where
  read x a := (x.mem a, x)
  write x a v :=
    match x.mode with
    | .idle => if v = 0xaa then { x with mode := .unlock } else x
    | .unlock => { x with mode := if v = 0x55 then .command else .idle }
    | .command =>
      { x with mode := if v = 0xa0 then .program else if v = 0x80 then .erase else .idle }
    | .program => ⟨fun b => if b = a then x.mem b &&& v else x.mem b, .idle⟩
    | .erase => { x with mode := if v = 0xaa then .eraseUnlock else .idle }
    | .eraseUnlock => { x with mode := if v = 0x55 then .eraseCommand else .idle }
    | .eraseCommand =>
      if v = 0x10 then ⟨fun _ => 0xff, .idle⟩
      else if v = 0x30 then ⟨fun b => if b / 4 = a / 4 then 0xff else x.mem b, .idle⟩
      else { x with mode := .idle }

/-- A job on all of its eight bytes. -/
def wholeJob : ObjectFlash := ⟨8, 0, 8, none, false⟩

theorem sectors_reads (x : Sectors) (a : UInt32) (n : Nat) :
    (sectors.read (sectors.reads a (n + 1) x).2 a).2 = x := by
  have hreads : (sectors.reads a (n + 1) x).2 = x := by
    induction n with
    | zero => rfl
    | succ n ih =>
      rw [Chip.reads, ih]
      rfl
  rw [hreads]
  rfl

def sectorsProtocol : Protocol sectors wholeJob where
  mem := Sectors.mem
  block b := b / 4
  Idle x := x.mode = .idle
  read_idle := by
    rintro ⟨mem, _⟩ a rfl _
    exact ⟨rfl, rfl, fun _ _ => rfl⟩
  erase28xxx := by rintro ⟨⟩
  program28xxx := by rintro ⟨⟩
  erase29xxx := by
    rintro - ⟨mem, _⟩ a code n rfl - hcode r r' -
    have hr : r'.2 = sectors.writes ⟨mem, .idle⟩ (eraseSequence a code) := sectors_reads _ a n
    rw [hr]
    rcases hcode with rfl | rfl
    · exact ⟨rfl, fun b _ => .inl rfl⟩
    · refine ⟨rfl, fun b _ => ?_⟩
      by_cases hb : b / 4 = a / 4
      · exact .inr ⟨hb, if_pos hb⟩
      · exact .inl (if_neg hb)
  eraseChip := by
    rintro - ⟨mem, _⟩ a n rfl - r r' -
    have hr : r'.2 = sectors.writes ⟨mem, .idle⟩ (eraseSequence 0x5555 0x10) := sectors_reads _ a n
    rw [hr]
    exact ⟨rfl, fun b _ => .inr rfl⟩
  program29xxx := by
    rintro - ⟨mem, _⟩ a v n rfl - r r' -
    have hr : r'.2 = sectors.writes ⟨mem, .idle⟩ (programSequence a v) := sectors_reads _ a n
    have hmem : (sectors.writes ⟨mem, .idle⟩ (programSequence a v)).mem =
        fun b => if b = a then mem b &&& v else mem b := rfl
    rw [hr, hmem]
    refine ⟨rfl, fun b _ hb => if_neg hb, ?_⟩
    simp only [if_true]
    rw [UInt8.and_assoc, UInt8.and_comm v, ← UInt8.and_assoc, UInt8.and_self]
  reset := by
    rintro - ⟨mem, _⟩ rfl
    exact ⟨rfl, fun _ _ => rfl⟩

/-- Erasing and programming return true, and the region is reflashed. -/
def Reflashes {σ : Type} (c : Chip σ) (pof : ObjectFlash) (P : Protocol c pof) (pba : UInt32 → UInt8)
    (s : State σ) : Prop :=
  ∃ s₁ s₂, bootFlashEraseMinimalRegion c pof 300 s = some (true, s₁) ∧
    bootFlashProgram c pof pba 300 s₁ = some (true, s₂) ∧
    (∀ i, i < pof.dwLengthUsedArea → P.mem s₂.chip (pof.dwStartOffset + i) = pba i) ∧
    (∀ b, b < pof.dwLengthInBytes → (∀ a, InRegion pof a → P.block a ≠ P.block b) →
      P.mem s₂.chip b = P.mem s.chip b) ∧
    (∀ l, s₁.wrote = s.wrote ++ l → (0x5555, 0x10) ∈ l → Whole pof)

theorem both_true {σ : Type} {c : Chip σ} {pof : ObjectFlash} {pba : UInt32 → UInt8} {s : State σ}
    (h : ((bootFlashEraseMinimalRegion c pof 300 s).bind fun r =>
      (bootFlashProgram c pof pba 300 r.2).map fun r' => (r.1, r'.1)) = some (true, true)) :
    ∃ s₁ s₂, bootFlashEraseMinimalRegion c pof 300 s = some (true, s₁) ∧
      bootFlashProgram c pof pba 300 s₁ = some (true, s₂) := by
  obtain ⟨⟨_, s₁⟩, h1, h2⟩ := Option.bind_eq_some_iff.1 h
  obtain ⟨⟨_, s₂⟩, h2, h3⟩ := Option.map_eq_some_iff.1 h2
  simp only [Prod.mk.injEq] at h3
  obtain ⟨rfl, rfl⟩ := h3
  exact ⟨s₁, s₂, h1, h2⟩

/-- The small chips with zeros. -/
def norState : State Nor := ⟨⟨fun _ => 0, .idle⟩, [], [], .empty⟩

def sectorsState : State Sectors := ⟨⟨fun _ => 0, .idle⟩, [], [], .empty⟩

theorem reflash_region_nor :
    Reflashes nor smallJob norProtocol (fun i => i.toUInt8 + 5) norState ∧
      Reflashes sectors wholeJob sectorsProtocol (fun i => i.toUInt8 + 5) sectorsState := by
  obtain ⟨s₁, s₂, h1, h2⟩ := @both_true _ nor smallJob (fun i => i.toUInt8 + 5) norState
    (by decide +kernel)
  obtain ⟨t₁, t₂, h3, h4⟩ := @both_true _ sectors wholeJob (fun i => i.toUInt8 + 5) sectorsState
    (by decide +kernel)
  exact ⟨⟨s₁, s₂, h1, h2, reflash_region nor smallJob (by unfold Fits; decide) norProtocol _
      norState s₁ s₂ rfl 300 300 h1 h2⟩,
    t₁, t₂, h3, h4, reflash_region sectors wholeJob (by unfold Fits; decide) sectorsProtocol _
      sectorsState t₁ t₂ rfl 300 300 h3 h4⟩

end Gentoox.Flash
