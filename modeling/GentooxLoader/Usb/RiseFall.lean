import GentooxLoader.Base.Edges
import Mathlib.Data.Nat.Bitwise
import Mathlib.Data.UInt
import Mathlib.Logic.Function.Basic

/-!
# Edges of the buttons (drivers/usb/sys/risefall.c, xpad.c)

`risefallXpadBUTTON` answers 1 when the button asked for has gone down since it
was last asked for and -1 when it has gone up.  What it last answered is in
`xpadButtonHistory`: a byte for each of the six analog buttons, which go down
above 0x30 and up at 0, and one byte with a bit for each direction.

`cell c` is the part of the history one button has.  A poll moves the level of
its own button and leaves the other cells alone.

    poll_polled        a poll answers the move of its own level, the other cells stay
    results_path       the answers along a run are a path of levels
    results_congr      they depend on the pad and on one cell only
    buttons_alternate  the edges of every button alternate, the other polls do not matter
-/

namespace Gentoox.Usb

open Edges

/-! ## Algorithm -/

def TRIGGER_XPAD_KEY_A : UInt8 := 0
def TRIGGER_XPAD_KEY_B : UInt8 := 1
def TRIGGER_XPAD_KEY_BACK : UInt8 := 5
def TRIGGER_XPAD_PAD_UP : UInt8 := 6
def TRIGGER_XPAD_PAD_DOWN : UInt8 := 7
def TRIGGER_XPAD_PAD_LEFT : UInt8 := 8
def TRIGGER_XPAD_PAD_RIGHT : UInt8 := 9

def XPAD_PAD_UP : UInt8 := 1
def XPAD_PAD_DOWN : UInt8 := 2
def XPAD_PAD_LEFT : UInt8 := 4
def XPAD_PAD_RIGHT : UInt8 := 8

def RC_KEY_SELECT : UInt16 := 0x0b0a
def RC_KEY_UP : UInt16 := 0xa60a
def RC_KEY_DOWN : UInt16 := 0xa70a
def RC_KEY_RIGHT : UInt16 := 0xa80a
def RC_KEY_LEFT : UInt16 := 0xa90a
def RC_KEY_BACK : UInt16 := 0xd80a

/-- `struct xpad_data` -/
structure XpadData where
  timestamp : Int32
  stickLeftX : Int16
  stickLeftY : Int16
  stickRightX : Int16
  stickRightY : Int16
  trigLeft : Int16
  trigRight : Int16
  pad : UInt8
  state : UInt8
  keys : Fin 6 → UInt8

/-- The globals the pads, the keyboard and the remote share. -/
structure State where
  xpadCurrent : XpadData
  xpadLast : XpadData
  xpadButtonHistory : Fin 7 → UInt8
  currentKeyboardKey : UInt32
  currentRemoteKey : UInt16
  remotekeyIsRepeat : UInt8

/-- A `short` out of a packet, low byte first. -/
def short (lo hi : UInt8) : Int16 := (hi.toUInt16 <<< 8 ||| lo.toUInt16).toInt16

def XpadData.zero : XpadData := ⟨0, 0, 0, 0, 0, 0, 0, 0, 0, fun _ => 0⟩

/-- The first pad's part of `XPADInit`, and the history. -/
def xpadInit (s : State) : State :=
  { s with xpadCurrent := .zero, xpadLast := .zero, xpadButtonHistory := fun _ => 0 }

/-- A packet of pad `num` comes: whichever pad it is, it is posted to the first. -/
def xpadIrq (num : Int) (data : Fin 32 → UInt8) (jiffies : Int32) (s : State) : State :=
  if num < 0 ∨ 3 < num then s else
    { s with
      xpadLast := s.xpadCurrent
      xpadCurrent :=
        { timestamp := jiffies
          stickLeftX := short (data 12) (data 13)
          stickLeftY := short (data 14) (data 15)
          stickRightX := short (data 16) (data 17)
          stickRightY := short (data 18) (data 19)
          trigLeft := (data 10).toUInt16.toInt16
          trigRight := (data 11).toUInt16.toInt16
          pad := data 2 &&& 0xf
          state := (data 2 >>> 4) &&& 0xf
          keys := fun i => data ⟨4 + i, by omega⟩ } }

def keyboardMatch (selected : UInt8) (key : UInt32) : Bool :=
  if selected = TRIGGER_XPAD_KEY_A then key = 0x28
  else if selected = TRIGGER_XPAD_KEY_B then key = 0x29
  else if selected = TRIGGER_XPAD_PAD_UP then key = 0x52
  else if selected = TRIGGER_XPAD_PAD_DOWN then key = 0x51
  else if selected = TRIGGER_XPAD_PAD_LEFT then key = 0x50
  else if selected = TRIGGER_XPAD_PAD_RIGHT then key = 0x4f
  else false

def remoteMatch (selected : UInt8) (key : UInt16) : Bool :=
  if selected = TRIGGER_XPAD_KEY_A then key = RC_KEY_SELECT
  else if selected = TRIGGER_XPAD_PAD_UP then key = RC_KEY_UP
  else if selected = TRIGGER_XPAD_PAD_DOWN then key = RC_KEY_DOWN
  else if selected = TRIGGER_XPAD_PAD_LEFT then key = RC_KEY_LEFT
  else if selected = TRIGGER_XPAD_PAD_RIGHT then key = RC_KEY_RIGHT
  else if selected = TRIGGER_XPAD_KEY_BACK then key = RC_KEY_BACK
  else false

/-- The bit of a direction. -/
def buttonmask (selected : UInt8) : UInt8 :=
  if selected = TRIGGER_XPAD_PAD_UP then XPAD_PAD_UP
  else if selected = TRIGGER_XPAD_PAD_DOWN then XPAD_PAD_DOWN
  else if selected = TRIGGER_XPAD_PAD_LEFT then XPAD_PAD_LEFT
  else XPAD_PAD_RIGHT

def State.setHistory (s : State) (i : Fin 7) (v : UInt8) : State :=
  { s with xpadButtonHistory := Function.update s.xpadButtonHistory i v }

/-- An analog button. -/
def analog (i : Fin 6) (s : State) : Int × State :=
  let button := s.xpadCurrent.keys i
  if button > 0x30 ∧ s.xpadButtonHistory i.castSucc = 0 then (1, s.setHistory i.castSucc 1)
  else if button = 0 ∧ s.xpadButtonHistory i.castSucc = 1 then (-1, s.setHistory i.castSucc 0)
  else (0, s)

/-- A direction of the pad. -/
def direction (mask : UInt8) (s : State) : Int × State :=
  let flip := s.setHistory 6 (s.xpadButtonHistory 6 ^^^ mask)
  if s.xpadCurrent.pad &&& mask ≠ 0 ∧ s.xpadButtonHistory 6 &&& mask = 0 then (1, flip)
  else if s.xpadCurrent.pad &&& mask = 0 ∧ s.xpadButtonHistory 6 &&& mask ≠ 0 then (-1, flip)
  else (0, s)

def risefallXpadBUTTON (selected : UInt8) (s : State) : Int × State :=
  if s.currentKeyboardKey ≠ 0 ∧ keyboardMatch selected s.currentKeyboardKey then
    (1, { s with currentKeyboardKey := 0 })
  else if s.remotekeyIsRepeat = 0 ∧ remoteMatch selected s.currentRemoteKey then
    (1, { s with currentRemoteKey := 0, remotekeyIsRepeat := 0 })
  else if h : selected.toNat < 6 then analog ⟨selected.toNat, h⟩ s
  else if selected < 10 then direction (buttonmask selected) s
  else (0, s)

/-- What can happen: a packet of a pad comes, a button is asked for. -/
inductive Event where
  | irq (num : Int) (data : Fin 32 → UInt8) (jiffies : Int32)
  | poll (selected : UInt8)

/-- What the polls of button `c` answer along a run. -/
def results (c : UInt8) : List Event → State → List Int
  | [], _ => []
  | .irq num data jiffies :: es, s => results c es (xpadIrq num data jiffies s)
  | .poll b :: es, s =>
    let p := risefallXpadBUTTON b s
    if b = c then p.1 :: results c es p.2 else results c es p.2

/-- Neither a key of the keyboard nor one of the remote waits to be asked for. -/
def NoKeyPending (s : State) : Prop :=
  s.currentKeyboardKey = 0 ∧ (s.remotekeyIsRepeat = 0 → s.currentRemoteKey = 0)

instance (s : State) : Decidable (NoKeyPending s) := inferInstanceAs (Decidable (_ ∧ _))

/-! ## Lemmas -/

/-- The part of the history that button `c` has. -/
def cell (c : UInt8) (s : State) : UInt8 :=
  if h : c.toNat < 6 then s.xpadButtonHistory ⟨c.toNat, by omega⟩
  else if c < 10 then s.xpadButtonHistory 6 &&& buttonmask c
  else 0

/-- The button was last seen down. -/
def level (c : UInt8) (s : State) : Bool := cell c s ≠ 0

/-- The bytes of the analog buttons are 0 or 1. -/
def Binary (s : State) : Prop :=
  ∀ i : Fin 6, s.xpadButtonHistory i.castSucc = 0 ∨ s.xpadButtonHistory i.castSucc = 1

@[simp] theorem setHistory_self (s : State) (i : Fin 7) (v : UInt8) :
    (s.setHistory i v).xpadButtonHistory i = v := Function.update_self ..

theorem setHistory_ne (s : State) {i j : Fin 7} (v : UInt8) (h : j ≠ i) :
    (s.setHistory i v).xpadButtonHistory j = s.xpadButtonHistory j := Function.update_of_ne h ..

theorem cell_analog {c : UInt8} (h : c.toNat < 6) (s : State) :
    cell c s = s.xpadButtonHistory (Fin.castSucc ⟨c.toNat, h⟩) := by
  unfold cell
  rw [dif_pos h]
  rfl

theorem cell_direction {c : UInt8} (h : ¬ c.toNat < 6) (h' : c < 10) (s : State) :
    cell c s = s.xpadButtonHistory 6 &&& buttonmask c := by
  unfold cell
  rw [dif_neg h, if_pos h']

theorem direction_cases {c : UInt8} (h : ¬ c.toNat < 6) (h' : c < 10) :
    c = 6 ∨ c = 7 ∨ c = 8 ∨ c = 9 := by
  have hlt : c.toNat < 10 := h'
  simp only [← UInt8.toNat_inj, UInt8.reduceToNat]
  omega

theorem xor_and (v m m' : UInt8) : (v ^^^ m) &&& m' = (v &&& m') ^^^ (m &&& m') := by
  apply UInt8.toBitVec_inj.1
  apply BitVec.eq_of_getLsbD_eq
  intro i _
  simp [Bool.and_xor_distrib_right]

/-- A mask of one bit keeps that bit or nothing. -/
theorem and_eq_self_iff (v : UInt8) {m : UInt8} (hm : m ∈ [1, 2, 4, 8]) :
    v &&& m = m ↔ v &&& m ≠ 0 := by
  obtain ⟨i, hi⟩ : ∃ i, m.toNat = 2 ^ i := by
    simp only [List.mem_cons, List.not_mem_nil, or_false] at hm
    rcases hm with rfl | rfl | rfl | rfl
    · exact ⟨0, rfl⟩
    · exact ⟨1, rfl⟩
    · exact ⟨2, rfl⟩
    · exact ⟨3, rfl⟩
  simp only [ne_eq, ← UInt8.toNat_inj, UInt8.toNat_and, hi, Nat.and_two_pow]
  cases v.toNat.testBit i
  · simpa using (Nat.two_pow_pos i).ne
  · simp

theorem buttonmask_mem {c : UInt8} (h : ¬ c.toNat < 6) (h' : c < 10) :
    buttonmask c ∈ [1, 2, 4, 8] := by
  rcases direction_cases h h' with rfl | rfl | rfl | rfl <;> decide

theorem buttonmask_apart {b c : UInt8} (hb : ¬ b.toNat < 6) (hb' : b < 10) (hc : ¬ c.toNat < 6)
    (hc' : c < 10) (h : c ≠ b) : buttonmask b &&& buttonmask c = 0 := by
  rcases direction_cases hb hb' with rfl | rfl | rfl | rfl <;>
    rcases direction_cases hc hc' with rfl | rfl | rfl | rfl <;> revert h <;> decide

theorem flip_mask (v : UInt8) {m : UInt8} (hm : m ∈ [1, 2, 4, 8]) :
    (v ^^^ m) &&& m = 0 ↔ v &&& m ≠ 0 := by
  rw [xor_and, UInt8.and_self, UInt8.xor_eq_zero_iff]
  exact and_eq_self_iff v hm

/-! ## One poll -/

/-- What the poll of `b` does: it answers the move of its own level, and nothing else moves. -/
structure Polled (b : UInt8) (s : State) (p : Int × State) : Prop where
  answer : p.1 = edge (level b s) (level b p.2)
  frame : ∀ c, c ≠ b → cell c p.2 = cell c s
  current : p.2.xpadCurrent = s.xpadCurrent
  binary : Binary p.2
  quiet : NoKeyPending s → NoKeyPending p.2

theorem Polled.still {b : UInt8} {s : State} (hs : Binary s) : Polled b s (0, s) where
  answer := (edge_self _).symm
  frame _ _ := rfl
  current := rfl
  binary := hs
  quiet := id

theorem Binary.setHistory {s : State} (hs : Binary s) {i : Fin 6} {v : UInt8} (hv : v = 0 ∨ v = 1) :
    Binary (s.setHistory i.castSucc v) := by
  intro j
  by_cases hj : j = i
  · rw [hj, setHistory_self]
    exact hv
  · rw [setHistory_ne s v fun h => hj (Fin.castSucc_injective _ h)]
    exact hs j

theorem analog_polled {b : UInt8} (h : b.toNat < 6) {s : State} (hs : Binary s) :
    Polled b s (analog ⟨b.toNat, h⟩ s) := by
  have hframe : ∀ v c, c ≠ b →
      cell c (s.setHistory (Fin.castSucc ⟨b.toNat, h⟩) v) = cell c s := by
    intro v c hcb
    by_cases hc : c.toNat < 6
    · rw [cell_analog hc, cell_analog hc, setHistory_ne]
      intro heq
      apply hcb
      have := congrArg Fin.val heq
      exact UInt8.toNat_inj.1 this
    · unfold cell
      rw [dif_neg hc, dif_neg hc, setHistory_ne]
      intro heq
      have := congrArg Fin.val heq
      simp at this
      omega
  have hlevel : level b s = decide (s.xpadButtonHistory (Fin.castSucc ⟨b.toNat, h⟩) ≠ 0) := by
    unfold level
    rw [cell_analog h]
  have hlevel' : ∀ v, level b (s.setHistory (Fin.castSucc ⟨b.toNat, h⟩) v) = decide (v ≠ 0) := by
    intro v
    unfold level
    rw [cell_analog h, setHistory_self]
  simp only [analog]
  split
  · rename_i hup
    refine ⟨?_, hframe 1, rfl, hs.setHistory (.inr rfl), id⟩
    rw [hlevel, hlevel', hup.2]
    rfl
  · split
    · rename_i _ hdown
      refine ⟨?_, hframe 0, rfl, hs.setHistory (.inl rfl), id⟩
      rw [hlevel, hlevel', hdown.2]
      rfl
    · exact .still hs

theorem direction_polled {b : UInt8} (h : ¬ b.toNat < 6) (h' : b < 10) {s : State} (hs : Binary s) :
    Polled b s (direction (buttonmask b) s) := by
  have hmem := buttonmask_mem h h'
  have hframe : ∀ c, c ≠ b → cell c (s.setHistory 6 (s.xpadButtonHistory 6 ^^^ buttonmask b)) =
      cell c s := by
    intro c hcb
    by_cases hc : c.toNat < 6
    · rw [cell_analog hc, cell_analog hc, setHistory_ne]
      intro heq
      have := congrArg Fin.val heq
      simp at this
      omega
    · by_cases hc' : c < 10
      · rw [cell_direction hc hc', cell_direction hc hc', setHistory_self]
        rw [xor_and, buttonmask_apart h h' hc hc' hcb, UInt8.xor_zero]
      · unfold cell
        rw [dif_neg hc, dif_neg hc, if_neg hc', if_neg hc']
  have hbinary : Binary (s.setHistory 6 (s.xpadButtonHistory 6 ^^^ buttonmask b)) := by
    intro i
    rw [setHistory_ne s (i := 6) _ (Fin.castSucc_lt_last i).ne]
    exact hs i
  have hlevel : level b s = decide (s.xpadButtonHistory 6 &&& buttonmask b ≠ 0) := by
    unfold level
    rw [cell_direction h h']
  have hflip : level b (s.setHistory 6 (s.xpadButtonHistory 6 ^^^ buttonmask b)) = !level b s := by
    unfold level
    rw [cell_direction h h', cell_direction h h', setHistory_self]
    by_cases hv : s.xpadButtonHistory 6 &&& buttonmask b = 0
    · simp [flip_mask _ hmem, hv]
    · simp [flip_mask _ hmem, hv]
  simp only [direction]
  split
  · rename_i hup
    refine ⟨?_, hframe, rfl, hbinary, id⟩
    rw [edge_ne_zero hflip, hlevel, hup.2]
    rfl
  · split
    · rename_i _ hdown
      refine ⟨?_, hframe, rfl, hbinary, id⟩
      rw [edge_ne_zero hflip, hlevel, if_pos (decide_eq_true hdown.2)]
    · exact .still hs

theorem remoteMatch_zero (b : UInt8) : remoteMatch b 0 = false := by
  unfold remoteMatch
  repeat' split
  all_goals rfl

theorem poll_quiet (b : UInt8) {s : State} (hk : NoKeyPending s) :
    risefallXpadBUTTON b s =
      if h : b.toNat < 6 then analog ⟨b.toNat, h⟩ s
      else if b < 10 then direction (buttonmask b) s
      else (0, s) := by
  have hkey : ¬ (s.currentKeyboardKey ≠ 0 ∧ keyboardMatch b s.currentKeyboardKey) :=
    fun h => h.1 hk.1
  have hremote : ¬ (s.remotekeyIsRepeat = 0 ∧ remoteMatch b s.currentRemoteKey) := by
    rintro ⟨h0, hm⟩
    rw [hk.2 h0, remoteMatch_zero] at hm
    exact absurd hm Bool.false_ne_true
  unfold risefallXpadBUTTON
  rw [if_neg hkey, if_neg hremote]

theorem poll_polled (b : UInt8) {s : State} (hk : NoKeyPending s) (hs : Binary s) :
    Polled b s (risefallXpadBUTTON b s) := by
  rw [poll_quiet b hk]
  split
  · rename_i h
    exact analog_polled h hs
  · split
    · rename_i h h'
      exact direction_polled h h' hs
    · exact .still hs

/-- The answer and the button's own cell depend on the pad and on that cell. -/
theorem poll_congr (b : UInt8) {s t : State} (hs : NoKeyPending s) (ht : NoKeyPending t)
    (hcur : s.xpadCurrent = t.xpadCurrent) (hcell : cell b s = cell b t) :
    (risefallXpadBUTTON b s).1 = (risefallXpadBUTTON b t).1 ∧
      cell b (risefallXpadBUTTON b s).2 = cell b (risefallXpadBUTTON b t).2 := by
  rw [poll_quiet b hs, poll_quiet b ht]
  split
  · rename_i h
    have hb := hcell
    rw [cell_analog h, cell_analog h] at hb
    unfold analog
    simp only [hcur, hb]
    split
    · exact ⟨rfl, by simp only [cell_analog h, setHistory_self]⟩
    · split
      · exact ⟨rfl, by simp only [cell_analog h, setHistory_self]⟩
      · exact ⟨rfl, hcell⟩
  · split
    · rename_i h h'
      have hb := hcell
      rw [cell_direction h h', cell_direction h h'] at hb
      have hflip : cell b (s.setHistory 6 (s.xpadButtonHistory 6 ^^^ buttonmask b)) =
          cell b (t.setHistory 6 (t.xpadButtonHistory 6 ^^^ buttonmask b)) := by
        rw [cell_direction h h', cell_direction h h', setHistory_self, setHistory_self, xor_and,
          xor_and, hb]
      simp only [direction, hcur, hb]
      split
      · exact ⟨rfl, hflip⟩
      · split
        · exact ⟨rfl, hflip⟩
        · exact ⟨rfl, hcell⟩
    · exact ⟨rfl, hcell⟩

/-! ## Runs -/

theorem xpadIrq_history (num : Int) (data : Fin 32 → UInt8) (jiffies : Int32) (s : State) :
    (xpadIrq num data jiffies s).xpadButtonHistory = s.xpadButtonHistory := by
  unfold xpadIrq
  split <;> rfl

theorem cell_xpadIrq (c : UInt8) (num : Int) (data : Fin 32 → UInt8) (jiffies : Int32) (s : State) :
    cell c (xpadIrq num data jiffies s) = cell c s := by
  unfold cell
  rw [xpadIrq_history]

theorem Binary.xpadIrq {s : State} (hs : Binary s) (num : Int) (data : Fin 32 → UInt8)
    (jiffies : Int32) : Binary (xpadIrq num data jiffies s) := by
  intro i
  rw [xpadIrq_history]
  exact hs i

theorem NoKeyPending.xpadIrq {s : State} (hk : NoKeyPending s) (num : Int) (data : Fin 32 → UInt8)
    (jiffies : Int32) : NoKeyPending (xpadIrq num data jiffies s) := by
  unfold Usb.xpadIrq
  split
  · exact hk
  · exact hk

theorem xpadIrq_current (num : Int) (data : Fin 32 → UInt8) (jiffies : Int32) {s t : State}
    (h : s.xpadCurrent = t.xpadCurrent) :
    (xpadIrq num data jiffies s).xpadCurrent = (xpadIrq num data jiffies t).xpadCurrent := by
  unfold xpadIrq
  split
  · exact h
  · rfl

/-- The answers to the polls of `c` take its level along. -/
theorem results_path (c : UInt8) (es : List Event) {s : State} (hk : NoKeyPending s)
    (hs : Binary s) : ∃ up, Path (level c s) (results c es s) up := by
  induction es generalizing s with
  | nil => exact ⟨level c s, rfl⟩
  | cons e es ih =>
    cases e with
    | irq num data jiffies =>
      have hlevel : level c (xpadIrq num data jiffies s) = level c s := by
        unfold level
        rw [cell_xpadIrq]
      obtain ⟨up, h⟩ := ih (hk.xpadIrq num data jiffies) (hs.xpadIrq num data jiffies)
      rw [hlevel] at h
      exact ⟨up, h⟩
    | poll b =>
      have hp := poll_polled b hk hs
      obtain ⟨up, h⟩ := ih (hp.quiet hk) hp.binary
      refine ⟨up, ?_⟩
      simp only [results]
      by_cases hbc : b = c
      · rw [if_pos hbc]
        rw [hbc] at h hp ⊢
        exact ⟨_, hp.answer, h⟩
      · have hlevel : level c (risefallXpadBUTTON b s).2 = level c s := by
          unfold level
          rw [hp.frame c (Ne.symm hbc)]
        rw [if_neg hbc, ← hlevel]
        exact h

/-- Two states that agree on the pad and on the cell of `c` answer the same. -/
theorem results_congr (c : UInt8) {es : List Event} {s t : State} (hks : NoKeyPending s)
    (hkt : NoKeyPending t) (hs : Binary s) (ht : Binary t) (hcur : s.xpadCurrent = t.xpadCurrent)
    (hcell : cell c s = cell c t) : results c es s = results c es t := by
  induction es generalizing s t with
  | nil => rfl
  | cons e es ih =>
    cases e with
    | irq num data jiffies =>
      refine ih (hks.xpadIrq ..) (hkt.xpadIrq ..) (hs.xpadIrq num data jiffies)
        (ht.xpadIrq num data jiffies) (xpadIrq_current num data jiffies hcur) ?_
      rw [cell_xpadIrq, cell_xpadIrq, hcell]
    | poll b =>
      have hps := poll_polled b hks hs
      have hpt := poll_polled b hkt ht
      have hcur' : (risefallXpadBUTTON b s).2.xpadCurrent = (risefallXpadBUTTON b t).2.xpadCurrent := by
        rw [hps.current, hpt.current, hcur]
      simp only [results]
      by_cases hbc : b = c
      · subst hbc
        obtain ⟨hanswer, hcell'⟩ := poll_congr b hks hkt hcur hcell
        rw [if_pos rfl, if_pos rfl, hanswer,
          ih (hps.quiet hks) (hpt.quiet hkt) hps.binary hpt.binary hcur' hcell']
      · rw [if_neg hbc, if_neg hbc]
        refine ih (hps.quiet hks) (hpt.quiet hkt) hps.binary hpt.binary hcur' ?_
        rw [hps.frame c (Ne.symm hbc), hpt.frame c (Ne.symm hbc), hcell]

/-- A poll of another button, wherever it stands in a run, can be left out. -/
theorem results_poll_ne {b c : UInt8} (h : b ≠ c) (es es' : List Event) {s : State}
    (hk : NoKeyPending s) (hs : Binary s) :
    results c (es ++ .poll b :: es') s = results c (es ++ es') s := by
  induction es generalizing s with
  | nil =>
    have hp := poll_polled b hk hs
    simp only [List.nil_append, results, if_neg h]
    exact results_congr c (hp.quiet hk) hk hp.binary hs hp.current (hp.frame c (Ne.symm h))
  | cons e es ih =>
    cases e with
    | irq num data jiffies => exact ih (hk.xpadIrq ..) (hs.xpadIrq num data jiffies)
    | poll a =>
      have hp := poll_polled a hk hs
      simp only [List.cons_append, results, ih (hp.quiet hk) hp.binary]

theorem binary_xpadInit (s : State) : Binary (xpadInit s) := fun _ => .inl rfl

theorem level_xpadInit (c : UInt8) (s : State) : level c (xpadInit s) = false := by
  unfold level cell
  split
  · rfl
  · split
    · show decide (0 &&& buttonmask c ≠ 0) = false
      rw [UInt8.zero_and]
      rfl
    · rfl

/-! ## Top theorem -/

/-- **Buttons.** From `XPADInit` on, while no key of the keyboard or the remote
waits, the edges of every button are 1, -1, 1, … and what a button answers is
the same without the polls of another one. -/
theorem buttons_alternate (s : State) (hk : NoKeyPending s) (c : UInt8) :
    (∀ es, edges (results c es (xpadInit s)) =
      (List.range (edges (results c es (xpadInit s))).length).map fun i => (-1) ^ i) ∧
    ∀ es es' b, b ≠ c →
      results c (es ++ .poll b :: es') (xpadInit s) = results c (es ++ es') (xpadInit s) := by
  have hk' : NoKeyPending (xpadInit s) := hk
  constructor
  · intro es
    obtain ⟨up, hpath⟩ := results_path c es hk' (binary_xpadInit s)
    rw [level_xpadInit] at hpath
    exact hpath.rises
  · intro es es' b hbc
    exact results_poll_ne hbc es es' hk' (binary_xpadInit s)

/-- The globals as the loader starts with them. -/
def bss : State := ⟨.zero, .zero, fun _ => 0, 0, 0, 0⟩

/-- A packet of the first pad with the directions and the first button as given. -/
def packet (pad a : UInt8) : Event :=
  .irq 0 (fun i => if i = 2 then pad else if i = 4 then a else 0) 0

/-- Up goes down, up and down again while the button A is asked for in between. -/
theorem buttons_alternate_up :
    NoKeyPending bss ∧
    edges (results 6 [packet 1 0, .poll 6, packet 0 0x31, .poll 0, .poll 6, packet 1 0, .poll 6]
      (xpadInit bss)) = [1, -1, 1] ∧
    edges (results 6 [packet 1 0, .poll 6, packet 0 0x31, .poll 0, .poll 6, packet 1 0, .poll 6]
      (xpadInit bss)) = (List.range 3).map fun i => (-1) ^ i := by
  refine ⟨by decide, by decide, ?_⟩
  have h := (buttons_alternate bss (by decide) 6).1
    [packet 1 0, .poll 6, packet 0 0x31, .poll 0, .poll 6, packet 1 0, .poll 6]
  exact h

end Gentoox.Usb
