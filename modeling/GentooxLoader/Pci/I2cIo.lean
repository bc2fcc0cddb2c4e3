import GentooxLoader.Base.Words
import GentooxLoader.Eeprom.BootEEPROM

/-!
# Transfers on the SMBus (drivers/pci/i2cio.c)

A transfer is set up in the ports of the controller, started by its control
port, and over when the status has one of the bits 0x36; 0x10 among them says
that it was carried out.  The k-th reading of the status comes with a word: its
bits in 0x36 end a transfer that is pending, the others are shown as they are
(0x0800 is traffic of another master).

    writeToSMBus_spec      a call writes the bytes, or returns an error and wrote nothing
    writeToSMBus_refines   so it does what the EEPROM's functions expect of it
    readfromSMBus_spec     a call returns the bytes, except those of a block
    readback_iff           what was written is read ↔ it was no block, or stood there before
-/

namespace Gentoox.Pci

open Cells Lib Eeprom

/-! ## The controller -/

/-- What a control byte starts, by its low three bits. -/
inductive Cycle where
  | byte | word | block
deriving DecidableEq

def cycleOf (control : UInt8) : Option Cycle :=
  if control &&& 7 = 2 then some .byte
  else if control &&& 7 = 3 then some .word
  else if control &&& 7 = 5 then some .block
  else none

/-- A block is as long as the 32-bit registers it is used for. -/
def Cycle.length : Cycle → Nat
  | .byte => 1
  | .word => 2
  | .block => 4

/-- Bit 0 of the address says that the transfer is a read. -/
structure Transfer where
  address : UInt8
  command : UInt8
  cycle : Cycle
  bytes : List UInt8

/-- The ports from `I2C_IO_BASE` on, what is going on, and the registers of the devices. -/
structure Controller where
  status : UInt16
  address : UInt8
  command : UInt8
  data : UInt16
  block : List UInt8
  pending : Option Transfer
  device : UInt8 → Nat → UInt8
  polls : Nat

def shortBytes (w : UInt16) : List UInt8 := [w.toUInt8, (w >>> 8).toUInt8]

def shortOf (l : List UInt8) : UInt16 := (l.getD 0 0).toUInt16 ||| (l.getD 1 0).toUInt16 <<< 8

namespace Controller

/-- What a write would send. -/
def outgoing (c : Controller) : Cycle → List UInt8
  | .byte => [c.data.toUInt8]
  | .word => shortBytes c.data
  | .block => c.block.take c.data.toNat

/-- The control port; bit 3 starts. -/
def control (b : UInt8) (c : Controller) : Controller :=
  match cycleOf b with
  | none => c
  | some cycle =>
    if b &&& 8 ≠ 0 then
      { c with pending := some ⟨c.address, c.command, cycle, c.outgoing cycle⟩ }
    else c

/-- The bytes of a read are left in the data port, those of a block behind their number. -/
def receive (bytes : List UInt8) (c : Controller) : Cycle → Controller
  | .block => { c with data := UInt16.ofNat bytes.length, block := bytes }
  | _ => { c with data := shortOf bytes }

def carryOut (t : Transfer) (c : Controller) : Controller :=
  let device := t.address >>> 1
  if t.address &&& 1 = 0 then
    { c with
      device := Function.update c.device device
        (write (c.device device) t.command.toNat t.bytes) }
  else c.receive (read (c.device device) t.command.toNat t.cycle.length) t.cycle

/-- What a word does to the transfer that is pending. -/
def react (event : UInt16) (t : Transfer) (c : Controller) : Controller :=
  if event &&& 0x36 = 0 then c
  else
    let c := if event &&& 0x10 ≠ 0 then c.carryOut t else c
    { c with status := c.status ||| event &&& 0x36, pending := none }

/-- A reading of the status, with the word that comes with it. -/
def readStatus (event : UInt16) (c : Controller) : UInt16 × Controller :=
  let c := { c with polls := c.polls + 1 }
  let c := c.pending.elim c fun t => c.react event t
  (c.status ||| event &&& ~~~0x36, c)

/-- The address port also starts a new block. -/
def ioOutputByte (port : Nat) (b : UInt8) (c : Controller) : Controller :=
  match port with
  | 2 => c.control b
  | 4 => { c with address := b, block := [] }
  | 8 => { c with command := b }
  | 9 => { c with block := c.block ++ [b] }
  | _ => c

/-- A bit of the status is cleared by writing it. -/
def ioOutputWord (port : Nat) (w : UInt16) (c : Controller) : Controller :=
  match port with
  | 0 => { c with status := c.status &&& ~~~w }
  | 6 => { c with data := w }
  | _ => c

def ioInputWord (event : Nat → UInt16) (port : Nat) (c : Controller) : UInt16 × Controller :=
  match port with
  | 0 => c.readStatus (event c.polls)
  | 6 => (c.data, c)
  | _ => (0, c)

def ioInputByte (event : Nat → UInt16) (port : Nat) (c : Controller) : UInt8 × Controller :=
  match port with
  | 0 =>
    let r := c.readStatus (event c.polls)
    (r.1.toUInt8, r.2)
  | 6 => (c.data.toUInt8, c)
  | 9 => (c.block.headD 0, { c with block := c.block.tail })
  | _ => (0, c)

end Controller

open Controller

/-! ## Algorithm -/

def ERR_SUCCESS : UInt32 := 0
def ERR_I2C_ERROR_BUS : UInt32 := 0x80000002

section
variable (event : Nat → UInt16)

/-- `while(IoInputWord(I2C_IO_BASE+0)&0x0800) ;` -/
def spin : Nat → Controller → Option Controller
  | 0, _ => none
  | fuel + 1, c =>
    let r := ioInputWord event 0 c
    if r.1 &&& 0x0800 ≠ 0 then spin fuel r.2 else some r.2

/-- `while( (b&0x36)==0 ) { b=IoInputByte(I2C_IO_BASE+0); }` -/
def poll : Nat → Controller → Option (UInt8 × Controller)
  | 0, _ => none
  | fuel + 1, c =>
    let r := ioInputByte event 0 c
    if r.1 &&& 0x36 = 0 then poll fuel r.2 else some r

variable (fuel : Nat)

/-- The old status is cleared, the transfer started and waited for. -/
def runTransfer (control : UInt8) (c : Controller) : Option (UInt8 × Controller) :=
  let temp := ioInputWord event 0 c
  poll event fuel (ioOutputByte 2 control (ioOutputWord 0 temp.1 temp.2))

/-- The data ports before a write. -/
def putData (size : UInt8) (data : UInt32) (c : Controller) : Controller :=
  if size = 4 then
    let c := ioOutputByte 9 (data &&& 0xff).toUInt8 c
    let c := ioOutputByte 9 (data >>> 8 &&& 0xff).toUInt8 c
    let c := ioOutputByte 9 (data >>> 16 &&& 0xff).toUInt8 c
    let c := ioOutputByte 9 (data >>> 24 &&& 0xff).toUInt8 c
    ioOutputWord 6 4 c
  else if size = 2 then ioOutputWord 6 (data &&& 0xffff).toUInt16 c
  else ioOutputWord 6 (data &&& 0xff).toUInt16 c

/-- The data ports after a read: `*Data_to_smbus` and the controller.  The bytes of
a block are read and dropped. -/
def takeData (size : UInt8) (dataToSmbus : UInt32) (c : Controller) : UInt32 × Controller :=
  if size = 4 then
    let c := (ioInputByte event 6 c).2
    let c := (ioInputByte event 9 c).2
    let c := (ioInputByte event 9 c).2
    let c := (ioInputByte event 9 c).2
    let c := (ioInputByte event 9 c).2
    (dataToSmbus, c)
  else if size = 2 then
    let r := ioInputWord event 6 c
    (r.1.toUInt32, r.2)
  else
    let r := ioInputByte event 6 c
    (r.1.toUInt32, r.2)

section
variable (address bRegister size : UInt8) (data : UInt32)

/-- The loop of `WriteToSMBus`; the argument is `nRetriesToLive`. -/
def writeAttempts : Nat → Controller → Option (UInt32 × Controller)
  | 0, c => some (ERR_I2C_ERROR_BUS, c)
  | n + 1, c =>
    let c := ioOutputByte 4 (address <<< 1 ||| 0) c
    let c := putData size data (ioOutputByte 8 bRegister c)
    let control := if size = 4 then 0x1d else if size = 2 then 0x1b else 0x1a
    (runTransfer event fuel control c).bind fun r =>
      if r.1 &&& 0x10 ≠ 0 then some (ERR_SUCCESS, r.2) else writeAttempts n r.2

def writeToSMBus (c : Controller) : Option (UInt32 × Controller) :=
  (spin event fuel c).bind (writeAttempts event fuel address bRegister size data 50)

/-- The loop of `ReadfromSMBus`, with what `*Data_to_smbus` is. -/
def readAttempts (dataToSmbus : UInt32) : Nat → Controller → Option (UInt32 × UInt32 × Controller)
  | 0, c => some (ERR_I2C_ERROR_BUS, dataToSmbus, c)
  | n + 1, c =>
    let c := ioOutputByte 8 bRegister (ioOutputByte 4 (address <<< 1 ||| 1) c)
    let control := if size = 4 then 0x0d else if size = 2 then 0x0b else 0x0a
    (runTransfer event fuel control c).bind fun r =>
      if r.1 &&& 0x10 ≠ 0 then
        let taken := takeData event size dataToSmbus r.2
        some (ERR_SUCCESS, taken.1, taken.2)
      else readAttempts dataToSmbus n r.2

def readfromSMBus (dataToSmbus : UInt32) (c : Controller) :
    Option (UInt32 × UInt32 × Controller) :=
  (spin event fuel c).bind
    (readAttempts event fuel address bRegister size dataToSmbus 50)

end

end

/-! ## Bits of the status -/

theorem and_not_or_self (s x : UInt16) : s &&& ~~~(s ||| x) = 0 := by
  rw [← UInt16.toBitVec_inj]
  ext i
  simp only [UInt16.toBitVec_and, UInt16.toBitVec_not, UInt16.toBitVec_or, BitVec.getElem_and,
    BitVec.getElem_not, BitVec.getElem_or]
  cases s.toBitVec[i] <;> simp

theorem toUInt8_and_eq_zero_iff (e : UInt16) (m : UInt8) :
    e.toUInt8 &&& m = 0 ↔ e &&& m.toUInt16 = 0 := by
  have hm : e.toNat &&& m.toNat < 2 ^ 8 := Nat.lt_of_le_of_lt Nat.and_le_right m.toNat_lt
  rw [← UInt8.toNat_inj, ← UInt16.toNat_inj]
  show e.toNat % 2 ^ 8 &&& m.toNat = 0 ↔ e.toNat &&& m.toNat = 0
  rw [← Nat.mod_eq_of_lt hm, Nat.and_mod_two_pow, Nat.mod_eq_of_lt m.toNat_lt]

theorem over_iff (e : UInt16) : e.toUInt8 &&& 0x36 = 0 ↔ e &&& 0x36 = 0 :=
  toUInt8_and_eq_zero_iff e 0x36

theorem complete_iff (e : UInt16) : e.toUInt8 &&& 0x10 ≠ 0 ↔ e &&& 0x10 ≠ 0 :=
  not_congr (toUInt8_and_eq_zero_iff e 0x10)

/-- A word is what a mask takes of it and the rest. -/
theorem and_or_and_not (e m : UInt16) : e &&& m ||| e &&& ~~~m = e := by
  rw [← UInt16.toBitVec_inj]
  ext i
  simp only [UInt16.toBitVec_and, UInt16.toBitVec_not, UInt16.toBitVec_or, BitVec.getElem_and,
    BitVec.getElem_not, BitVec.getElem_or]
  cases e.toBitVec[i] <;> cases m.toBitVec[i] <;> rfl

theorem addressBits_all : ∀ n, n < 256 →
    ((n.toUInt8 <<< (1 : UInt8) ||| 0) &&& 1 = 0 ∧ (n.toUInt8 <<< (1 : UInt8) ||| 1) &&& 1 ≠ 0 ∧
      (n.toUInt8 <<< (1 : UInt8) ||| 1) >>> 1 = (n.toUInt8 <<< (1 : UInt8) ||| 0) >>> 1) := by
  decide +kernel

/-- Only bit 0 of the two address bytes is different. -/
theorem addressBits (address : UInt8) :
    (address <<< 1 ||| 0) &&& 1 = 0 ∧ (address <<< 1 ||| 1) &&& 1 ≠ 0 ∧
      (address <<< 1 ||| 1) >>> 1 = (address <<< 1 ||| 0) >>> 1 := by
  have h := addressBits_all address.toNat address.toNat_lt
  have e : address.toNat.toUInt8 = address := by simp
  rwa [e] at h

/-! ## One transfer -/

section
variable {event : Nat → UInt16} {fuel : Nat}

/-- The controller but for its status and what is going on. -/
def Controller.set (status : UInt16) (pending : Option Transfer) (polls : Nat) (c : Controller) :
    Controller :=
  { c with status := status, pending := pending, polls := polls }

/-- A transfer that is over. -/
def Controller.finish (b : UInt8) (t : Transfer) (c : Controller) : Controller :=
  if b &&& 0x10 ≠ 0 then c.carryOut t else c

/-- The transfer that a control byte starts. -/
def Controller.request (cycle : Cycle) (c : Controller) : Transfer :=
  ⟨c.address, c.command, cycle, c.outgoing cycle⟩

@[simp] theorem carryOut_set (t : Transfer) (c : Controller) (s : UInt16) (p : Option Transfer)
    (k : Nat) : (c.set s p k).carryOut t = (c.carryOut t).set s p k := by
  unfold carryOut
  simp only
  split
  · rfl
  · cases t.cycle <;> rfl

@[simp] theorem finish_set (b : UInt8) (t : Transfer) (c : Controller) (s : UInt16)
    (p : Option Transfer) (k : Nat) : (c.set s p k).finish b t = (c.finish b t).set s p k := by
  unfold finish
  split
  · exact carryOut_set t c s p k
  · rfl

theorem react_set (t : Transfer) (c : Controller) (k : Nat) (e : UInt16) :
    (c.set 0 (some t) k).react e t = if e &&& 0x36 = 0 then c.set 0 (some t) k
      else (c.finish e.toUInt8 t).set (e &&& 0x36) none k := by
  have hdone : (if e &&& 0x10 ≠ 0 then (c.set 0 (some t) k).carryOut t else c.set 0 (some t) k) =
      (c.finish e.toUInt8 t).set 0 (some t) k := by
    rw [← finish_set]
    unfold finish
    simp only [complete_iff]
  unfold react
  simp only [hdone]
  show (if _ then _ else (c.finish e.toUInt8 t).set (0 ||| e &&& 0x36) none k) = _
  rw [UInt16.zero_or]

/-- While a transfer is pending the status is the word that comes. -/
theorem readStatus_pending (t : Transfer) (c : Controller) (k : Nat) (e : UInt16) :
    (c.set 0 (some t) k).readStatus e =
      (e, if e &&& 0x36 = 0 then c.set 0 (some t) (k + 1)
        else (c.finish e.toUInt8 t).set (e &&& 0x36) none (k + 1)) := by
  have hword := and_or_and_not e 0x36
  show (((c.set 0 (some t) (k + 1)).react e t).status ||| e &&& ~~~0x36,
    (c.set 0 (some t) (k + 1)).react e t) = _
  rw [react_set]
  by_cases hwait : e &&& 0x36 = 0
  · rw [if_pos hwait]
    rw [hwait] at hword
    exact Prod.ext hword rfl
  · rw [if_neg hwait]
    exact Prod.ext hword rfl

theorem poll_spec {t : Transfer} {c c' : Controller} {k : Nat} {b : UInt8}
    (h : poll event fuel (c.set 0 (some t) k) = some (b, c')) :
    ∃ s k', c' = (c.finish b t).set s none k' := by
  induction fuel generalizing k with
  | zero => cases h
  | succ fuel ih =>
    have hread : ioInputByte event 0 (c.set 0 (some t) k) =
        (((c.set 0 (some t) k).readStatus (event k)).1.toUInt8,
          ((c.set 0 (some t) k).readStatus (event k)).2) := rfl
    unfold poll at h
    rw [hread, readStatus_pending] at h
    simp only [over_iff] at h
    by_cases hwait : event k &&& 0x36 = 0
    · rw [if_pos hwait, if_pos hwait] at h
      exact ih h
    · rw [if_neg hwait, if_neg hwait] at h
      obtain ⟨rfl, rfl⟩ := Prod.mk.inj (Option.some.inj h)
      exact ⟨_, _, rfl⟩

/-- **One transfer**: it is carried out if bit 0x10 says so, and nothing is pending afterwards. -/
theorem runTransfer_spec {control : UInt8} {cycle : Cycle} (hcycle : cycleOf control = some cycle)
    (hstart : control &&& 8 ≠ 0) {c c' : Controller} {b : UInt8}
    (h : runTransfer event fuel control c = some (b, c')) (hidle : c.pending = none) :
    ∃ s k, c' = (c.finish b (c.request cycle)).set s none k := by
  have hread : ioInputWord event 0 c =
      (c.status ||| event c.polls &&& ~~~0x36, c.set c.status none (c.polls + 1)) := by
    show c.readStatus (event c.polls) = _
    unfold readStatus
    simp only [hidle, Option.elim_none]
    rw [Controller.set, ← hidle]
  have hstarted : ioOutputByte 2 control (ioOutputWord 0 (ioInputWord event 0 c).1
      (ioInputWord event 0 c).2) = c.set 0 (some (c.request cycle)) (c.polls + 1) := by
    rw [hread]
    show Controller.control control _ = _
    unfold Controller.control
    simp only [hcycle, if_pos hstart]
    show Controller.set (c.status &&& ~~~(c.status ||| event c.polls &&& ~~~0x36)) _ _ c = _
    rw [and_not_or_self]
    cases cycle <;> rfl
  unfold runTransfer at h
  simp only [hstarted] at h
  exact poll_spec h

/-! ## Calls -/

/-- The cycle a size asks for. -/
def cycleFor (size : UInt8) : Cycle := if size = 4 then .block else if size = 2 then .word else .byte

/-- The address of the device, without the bit that tells a read. -/
def deviceOf (address : UInt8) : UInt8 := (address <<< 1 ||| 0) >>> 1

/-- The data ports have the bytes that are to be sent. -/
theorem putData_spec (size : UInt8) (data : UInt32) {c : Controller} (hblock : c.block = []) :
    ∃ w l, putData size data c = { c with data := w, block := l } ∧
      { c with data := w, block := l }.outgoing (cycleFor size) = smbusBytes size data := by
  unfold putData cycleFor smbusBytes
  by_cases h4 : size = 4
  · simp only [if_pos h4]
    refine ⟨4, _, rfl, ?_⟩
    show List.take 4 (c.block ++ [_] ++ [_] ++ [_] ++ [_]) = _
    rw [hblock, Words.and_byte, Words.and_byte, Words.and_byte, Words.and_byte]
    rfl
  · simp only [if_neg h4]
    by_cases h2 : size = 2
    · simp only [if_pos h2]
      refine ⟨_, _, rfl, ?_⟩
      show [_, _] = [_, _]
      rw [Words.and_short, Words.short_second, UInt32.toUInt8_toUInt16]
    · simp only [if_neg h2]
      refine ⟨_, _, rfl, ?_⟩
      show [_] = [_]
      rw [Words.and_byte_short, UInt8.toUInt8_toUInt16]

/-- The control byte that is chosen by the size starts the cycle for it. -/
theorem control_spec (size : UInt8) {block word byte : UInt8}
    (hblock : cycleOf block = some .block ∧ block &&& 8 ≠ 0)
    (hword : cycleOf word = some .word ∧ word &&& 8 ≠ 0)
    (hbyte : cycleOf byte = some .byte ∧ byte &&& 8 ≠ 0) :
    cycleOf (if size = 4 then block else if size = 2 then word else byte) = some (cycleFor size) ∧
      (if size = 4 then block else if size = 2 then word else byte) &&& 8 ≠ 0 := by
  unfold cycleFor
  split
  · exact hblock
  · split
    · exact hword
    · exact hbyte

theorem writeControl (size : UInt8) :
    cycleOf (if size = 4 then 0x1d else if size = 2 then 0x1b else 0x1a) = some (cycleFor size) ∧
      (if size = 4 then 0x1d else if size = 2 then 0x1b else 0x1a : UInt8) &&& 8 ≠ 0 :=
  control_spec size (by decide) (by decide) (by decide)

theorem readControl (size : UInt8) :
    cycleOf (if size = 4 then 0x0d else if size = 2 then 0x0b else 0x0a) = some (cycleFor size) ∧
      (if size = 4 then 0x0d else if size = 2 then 0x0b else 0x0a : UInt8) &&& 8 ≠ 0 :=
  control_spec size (by decide) (by decide) (by decide)

variable {address bRegister size : UInt8}

theorem spin_spec {c c' : Controller} (h : spin event fuel c = some c')
    (hidle : c.pending = none) : c'.pending = none ∧ c'.device = c.device := by
  induction fuel generalizing c with
  | zero => cases h
  | succ fuel ih =>
    have hread : (ioInputWord event 0 c).2 = { c with polls := c.polls + 1 } := by
      show (c.readStatus (event c.polls)).2 = _
      unfold readStatus
      simp only [hidle, Option.elim_none]
    unfold spin at h
    simp only [hread] at h
    split at h
    · have hnext := ih h hidle
      exact hnext
    · obtain rfl := Option.some.inj h
      exact ⟨hidle, rfl⟩

/-- The loop of `WriteToSMBus`, by induction on the tries that are left. -/
theorem writeAttempts_spec {data : UInt32} {n : Nat} {c c' : Controller} {r : UInt32}
    (h : writeAttempts event fuel address bRegister size data n c = some (r, c'))
    (hidle : c.pending = none) :
    c'.pending = none ∧
      (r = ERR_SUCCESS ∧ c'.device = Function.update c.device (deviceOf address)
          (write (c.device (deviceOf address)) bRegister.toNat (smbusBytes size data)) ∨
        r = ERR_I2C_ERROR_BUS ∧ c'.device = c.device) := by
  induction n generalizing c with
  | zero =>
    obtain ⟨rfl, rfl⟩ := Prod.mk.inj (Option.some.inj h)
    exact ⟨hidle, .inr ⟨rfl, rfl⟩⟩
  | succ n ih =>
    unfold writeAttempts at h
    obtain ⟨⟨b, c1⟩, hrun, h⟩ := Option.bind_eq_some_iff.1 h
    obtain ⟨w, l, hput, hbytes⟩ := putData_spec size data
      (c := ioOutputByte 8 bRegister (ioOutputByte 4 (address <<< 1 ||| 0) c)) rfl
    rw [hput] at hrun
    obtain ⟨s, k, hc1⟩ := runTransfer_spec (writeControl size).1 (writeControl size).2 hrun hidle
    simp only at h
    by_cases hb : b &&& 0x10 ≠ 0
    · rw [if_pos hb] at h
      obtain ⟨rfl, rfl⟩ := Prod.mk.inj (Option.some.inj h)
      rw [finish, if_pos hb, request, hbytes, carryOut] at hc1
      simp only at hc1
      rw [hc1]
      refine ⟨rfl, .inl ⟨rfl, ?_⟩⟩
      show (if (address <<< 1 ||| 0) &&& 1 = 0 then _ else _ : Controller).device = _
      rw [if_pos (addressBits address).1]
      rfl
    · rw [if_neg hb] at h
      rw [finish, if_neg hb] at hc1
      rw [hc1] at h
      have hnext := ih h rfl
      exact hnext

/-- **A write**: done, or an error and nothing is changed. -/
theorem writeToSMBus_spec {data : UInt32} {c c' : Controller} {r : UInt32}
    (h : writeToSMBus event fuel address bRegister size data c = some (r, c'))
    (hidle : c.pending = none) :
    c'.pending = none ∧
      (r = ERR_SUCCESS ∧ c'.device = Function.update c.device (deviceOf address)
          (write (c.device (deviceOf address)) bRegister.toNat (smbusBytes size data)) ∨
        r = ERR_I2C_ERROR_BUS ∧ c'.device = c.device) := by
  obtain ⟨c1, hspin, h⟩ := Option.bind_eq_some_iff.1 h
  obtain ⟨hidle1, hdevice⟩ := spin_spec hspin hidle
  rw [← hdevice]
  exact writeAttempts_spec h hidle1

/-- What a read of the device gives: `*Data_to_smbus` of a block stays what it is. -/
def received (size : UInt8) (bytes : List UInt8) (dataToSmbus : UInt32) : UInt32 :=
  if size = 4 then dataToSmbus else (shortOf bytes).toUInt32

/-- Taking the data leaves the transfers and the devices alone. -/
theorem takeData_frame (event : Nat → UInt16) (size : UInt8) (dataToSmbus : UInt32)
    (c : Controller) : (takeData event size dataToSmbus c).2.pending = c.pending ∧
      (takeData event size dataToSmbus c).2.device = c.device := by
  unfold takeData
  split
  · exact ⟨rfl, rfl⟩
  · split <;> exact ⟨rfl, rfl⟩

theorem takeData_receive (event : Nat → UInt16) (size : UInt8) (dataToSmbus : UInt32)
    (c : Controller) (m : Nat → UInt8) (a : Nat) (s : UInt16) (p : Option Transfer) (k : Nat) :
    (takeData event size dataToSmbus
      ((c.receive (read m a (cycleFor size).length) (cycleFor size)).set s p k)).1 =
        received size (read m a (cycleFor size).length) dataToSmbus := by
  unfold takeData received cycleFor
  by_cases h4 : size = 4
  · simp only [if_pos h4]
  · simp only [if_neg h4]
    by_cases h2 : size = 2
    · simp only [if_pos h2]
      rfl
    · simp only [if_neg h2]
      have hone : shortOf (read m a 1) = (m a).toUInt16 := UInt16.or_zero
      show (shortOf (read m a 1)).toUInt8.toUInt32 = (shortOf (read m a 1)).toUInt32
      rw [hone, UInt8.toUInt8_toUInt16, UInt8.toUInt32_toUInt16]

theorem readAttempts_spec {dataToSmbus : UInt32} {n : Nat} {c c' : Controller} {r d : UInt32}
    (h : readAttempts event fuel address bRegister size dataToSmbus n c = some (r, d, c'))
    (hidle : c.pending = none) :
    c'.pending = none ∧ c'.device = c.device ∧
      (r = ERR_SUCCESS ∧ d = received size
          (read (c.device (deviceOf address)) bRegister.toNat (cycleFor size).length) dataToSmbus ∨
        r = ERR_I2C_ERROR_BUS ∧ d = dataToSmbus) := by
  induction n generalizing c with
  | zero =>
    obtain ⟨rfl, hdata⟩ := Prod.mk.inj (Option.some.inj h)
    obtain ⟨rfl, rfl⟩ := Prod.mk.inj hdata
    exact ⟨hidle, rfl, .inr ⟨rfl, rfl⟩⟩
  | succ n ih =>
    unfold readAttempts at h
    obtain ⟨⟨b, c1⟩, hrun, h⟩ := Option.bind_eq_some_iff.1 h
    obtain ⟨s, k, hc1⟩ := runTransfer_spec (readControl size).1 (readControl size).2 hrun hidle
    simp only at h
    by_cases hb : b &&& 0x10 ≠ 0
    · rw [if_pos hb] at h
      obtain ⟨rfl, hdata⟩ := Prod.mk.inj (Option.some.inj h)
      obtain ⟨hd, hc'⟩ := Prod.mk.inj hdata
      obtain ⟨hpending, hdevice⟩ := takeData_frame event size dataToSmbus c1
      rw [finish, if_pos hb, request, carryOut] at hc1
      simp only at hc1
      rw [show (ioOutputByte 8 bRegister (ioOutputByte 4 (address <<< 1 ||| 1) c)).address =
        address <<< 1 ||| 1 from rfl, if_neg (addressBits address).2.1,
        (addressBits address).2.2] at hc1
      rw [← hc', hpending, hdevice, ← hd, hc1]
      refine ⟨rfl, ?_, .inl ⟨rfl, ?_⟩⟩
      · cases cycleFor size <;> rfl
      · exact takeData_receive ..
    · rw [if_neg hb] at h
      rw [finish, if_neg hb] at hc1
      rw [hc1] at h
      have hnext := ih h rfl
      exact hnext

/-- **A read** of what the device has, or an error. -/
theorem readfromSMBus_spec {dataToSmbus : UInt32} {c c' : Controller} {r d : UInt32}
    (h : readfromSMBus event fuel address bRegister size dataToSmbus c = some (r, d, c'))
    (hidle : c.pending = none) :
    c'.pending = none ∧ c'.device = c.device ∧
      (r = ERR_SUCCESS ∧ d = received size
          (read (c.device (deviceOf address)) bRegister.toNat (cycleFor size).length) dataToSmbus ∨
        r = ERR_I2C_ERROR_BUS ∧ d = dataToSmbus) := by
  obtain ⟨c1, hspin, h⟩ := Option.bind_eq_some_iff.1 h
  obtain ⟨hidle1, hdevice⟩ := spin_spec hspin hidle
  rw [← hdevice]
  exact readAttempts_spec h hidle1

/-- On a bus that completes nothing. -/
theorem writeToSMBus_never {a : UInt8} {data : UInt32} (n : Nat) (device : UInt8 → Nat → UInt8)
    (eeprom : Nat → UInt8) (tries : Nat) :
    Eeprom.writeToSMBus (fun _ => false) a bRegister size data ⟨device, eeprom, tries⟩ n =
      (false, ⟨device, eeprom, tries + n⟩) := by
  induction n generalizing tries with
  | zero => rfl
  | succ n ih =>
    show Eeprom.writeToSMBus _ a bRegister size data ⟨device, eeprom, tries + 1⟩ n = _
    rw [ih (tries + 1), Nat.add_right_comm, Nat.add_assoc]

/-- A call is one of `WriteToSMBus` as the functions for the EEPROM have it. -/
theorem writeToSMBus_refines {data : UInt32} {c c' : Controller} {r : UInt32}
    (h : writeToSMBus event fuel address bRegister size data c = some (r, c'))
    (hidle : c.pending = none) (eeprom : Nat → UInt8) (tries : Nat) :
    ∃ ok tries', Eeprom.writeToSMBus ok (deviceOf address) bRegister size data
      ⟨c.device, eeprom, tries⟩ 50 = (decide (r = ERR_SUCCESS), ⟨c'.device, eeprom, tries'⟩) := by
  obtain ⟨-, ⟨rfl, hdevice⟩ | ⟨rfl, hdevice⟩⟩ := writeToSMBus_spec h hidle
  · refine ⟨fun _ => true, tries + 1, ?_⟩
    rw [hdevice]
    rfl
  · refine ⟨fun _ => false, tries + 50, ?_⟩
    rw [hdevice, writeToSMBus_never]
    rfl

/-! ## Top theorem -/

/-- The bytes of a size stand for a value of that size. -/
theorem received_smbusBytes (hsize : size = 1 ∨ size = 2 ∨ size = 4) {data : UInt32}
    (hdata : data.toNat < 2 ^ (8 * size.toNat)) (dataToSmbus : UInt32) :
    received size (smbusBytes size data) dataToSmbus =
      if size = 4 then dataToSmbus else data := by
  rcases hsize with rfl | rfl | rfl
  · show (shortOf [data.toUInt8]).toUInt32 = data
    rw [show shortOf [data.toUInt8] = data.toUInt8.toUInt16 from UInt16.or_zero,
      ← UInt32.toNat_inj]
    exact Nat.mod_eq_of_lt hdata
  · show (data.toUInt8.toUInt16 ||| (data >>> 8).toUInt8.toUInt16 <<< 8).toUInt32 = data
    rw [Words.or_second, ← UInt32.toNat_inj]
    exact Nat.mod_eq_of_lt hdata
  · rfl

/-- **What was written is read** exactly if it was no block, or stood there before. -/
theorem readback_iff (hsize : size = 1 ∨ size = 2 ∨ size = 4) {data : UInt32}
    (hdata : data.toNat < 2 ^ (8 * size.toNat)) {dataToSmbus : UInt32} {c c1 c2 : Controller}
    (hidle : c.pending = none) {fuel' : Nat} {d : UInt32}
    (hwrite : writeToSMBus event fuel address bRegister size data c = some (ERR_SUCCESS, c1))
    (hread : readfromSMBus event fuel' address bRegister size dataToSmbus c1 =
      some (ERR_SUCCESS, d, c2)) :
    d = data ↔ (size ≠ 4 ∨ dataToSmbus = data) := by
  have herr : ERR_SUCCESS ≠ ERR_I2C_ERROR_BUS := by decide
  obtain ⟨hidle1, hdone | ⟨hno, -⟩⟩ := writeToSMBus_spec hwrite hidle
  · obtain ⟨-, -, hgot | ⟨hno, -⟩⟩ := readfromSMBus_spec hread hidle1
    · have hlen : (smbusBytes size data).length = (cycleFor size).length := by
        rcases hsize with rfl | rfl | rfl <;> rfl
      rw [hgot.2, hdone.2, Function.update_self, read_write_of_length hlen,
        received_smbusBytes hsize hdata]
      by_cases h4 : size = 4
      · rw [if_pos h4]
        exact ⟨.inr, fun h => h.resolve_left (not_not_intro h4)⟩
      · rw [if_neg h4]
        exact iff_of_true rfl (.inl h4)
    · exact absurd hno herr
  · exact absurd hno herr

end

/-! ## A word and a block -/

/-- A controller after reset, and devices that hold zeros. -/
def atReset : Controller := ⟨0, 0, 0, 0, [], none, fun _ _ => 0, 0⟩

/-- There is other traffic at first; the first transfer collides, the others complete in time. -/
def collision : Nat → UInt16
  | 0 => 0x0800
  | 3 => 0x02
  | n => if n % 2 = 1 then 0x10 else 0

/-- The first try of the word fails. -/
theorem readback_iff_word :
    ∃ c1 c2 d, writeToSMBus collision 10 0x54 0x96 2 0x1234 atReset = some (ERR_SUCCESS, c1) ∧
      readfromSMBus collision 10 0x54 0x96 2 0 c1 = some (ERR_SUCCESS, d, c2) ∧ d = 0x1234 := by
  have hwrite : ∃ c1, writeToSMBus collision 10 0x54 0x96 2 0x1234 atReset =
      some (ERR_SUCCESS, c1) := ⟨_, rfl⟩
  obtain ⟨c1, hwrite⟩ := hwrite
  have hread : ∃ d c2, readfromSMBus collision 10 0x54 0x96 2 0 c1 = some (ERR_SUCCESS, d, c2) := by
    obtain rfl := (Prod.mk.inj (Option.some.inj hwrite)).2
    exact ⟨_, _, rfl⟩
  obtain ⟨d, c2, hread⟩ := hread
  have hsize : (2 : UInt8) = 1 ∨ (2 : UInt8) = 2 ∨ (2 : UInt8) = 4 := by decide
  exact ⟨c1, c2, d, hwrite, hread,
    (readback_iff hsize (by decide) rfl hwrite hread).2 (.inl (by decide))⟩

/-- A block arrives at the device and comes back, but not to the caller. -/
theorem block_lost :
    ∃ c1 c2 d, writeToSMBus collision 10 0x54 0x58 4 0x00400100 atReset = some (ERR_SUCCESS, c1) ∧
      readfromSMBus collision 10 0x54 0x58 4 0 c1 = some (ERR_SUCCESS, d, c2) ∧
      read (c1.device 0x54) 0x58 4 = le32 0x00400100 ∧ d ≠ 0x00400100 :=
  ⟨_, _, _, rfl, rfl, by decide, by decide⟩

end Gentoox.Pci
