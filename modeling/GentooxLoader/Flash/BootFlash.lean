import Mathlib.Data.UInt
import GentooxLoader.Base.Loops

/-!
# Erasing and programming the flash chip (drivers/flash/BootFlash.c)

`bootFlashEraseMinimalRegion` erases until every byte of the region reads 0xff,
`bootFlashProgram` programs byte by byte and then verifies.  The chip is
whatever answers the reads and writes at its addresses, the callback whatever
answers the events; a run keeps what was written and what was called.
-/

namespace Gentoox.Flash

open Loops

/-! ## Data -/

/-- `ENUM_EVENTS` -/
inductive EnumEvents where
  | eraseStart
  | eraseUpdate
  | eraseEnd
  | eraseError
  | programStart
  | programUpdate
  | programEnd
  | programError
  | verifyStart
  | verifyUpdate
  | verifyEnd
  | verifyError
  deriving DecidableEq

/-- A call of `m_pcallbackFlash` with what it returned. -/
structure Call where
  ee : EnumEvents
  dwPos : UInt32
  dwExtent : UInt32
  answer : Bool
  deriving DecidableEq

/-- The texts of `m_szAdditionalErrorInfo`, with the numbers printed. -/
inductive ErrorInfo where
  | empty
  | eraseAborted
  | eraseFailed (dw : UInt32) (reads : UInt8)
  | vppRequired
  | statusAfterErase (b : UInt8)
  | programAborted
  | programFailed (dw : UInt32) (wrote read : UInt8)
  | statusAfterProgram (b : UInt8)
  | statusAfterTimedOutProgram (b : UInt8)
  deriving DecidableEq

/-- What is mapped at `m_pbMemoryMappedStartAddress`. -/
structure Chip (σ : Type) where
  read : σ → UInt32 → UInt8 × σ
  write : σ → UInt32 → UInt8 → σ

/-- `OBJECT_FLASH`; the callback answers by what it was called with before. -/
structure ObjectFlash where
  dwLengthInBytes : UInt32
  dwStartOffset : UInt32
  dwLengthUsedArea : UInt32
  pcallbackFlash : Option (List Call → EnumEvents → UInt32 → UInt32 → Bool)
  fDetectedUsing28xxxConventions : Bool

structure State (σ : Type) where
  chip : σ
  wrote : List (UInt32 × UInt8)
  calls : List Call
  szAdditionalErrorInfo : ErrorInfo

/-! ## Algorithm -/

section
variable {σ : Type} (c : Chip σ) (pof : ObjectFlash)

def State.read (s : State σ) (a : UInt32) : UInt8 × State σ :=
  let r := c.read s.chip a
  (r.1, { s with chip := r.2 })

def State.write (s : State σ) (a : UInt32) (v : UInt8) : State σ :=
  { s with chip := c.write s.chip a v, wrote := s.wrote ++ [(a, v)] }

def State.writes (s : State σ) (l : List (UInt32 × UInt8)) : State σ :=
  l.foldl (fun s w => s.write c w.1 w.2) s

/-- Without a callback everything goes on. -/
def State.callback (s : State σ) (ee : EnumEvents) (dwPos dwExtent : UInt32) : Bool × State σ :=
  match pof.pcallbackFlash with
  | none => (true, s)
  | some f =>
    let answer := f s.calls ee dwPos dwExtent
    (answer, { s with calls := s.calls ++ [⟨ee, dwPos, dwExtent, answer⟩] })

/-- The callback gets an update every 1K addresses. -/
def State.update (s : State σ) (ee : EnumEvents) (dw dwPos : UInt32) : Bool × State σ :=
  if dw &&& 0x3ff = 0 then s.callback pof ee dwPos pof.dwLengthUsedArea else (true, s)

/-- An error event, with what the chip reads as at `dw`, and the event that ends the job. -/
def State.report (s : State σ) (ee eeEnd : EnumEvents) (dwPos dw : UInt32) (dwExtent : UInt8 → UInt32) :
    State σ :=
  match pof.pcallbackFlash with
  | none => s
  | some _ =>
    let r := s.read c dw
    ((r.2.callback pof ee dwPos (dwExtent r.1)).2.callback pof eeEnd 0 0).2

/-- Written data in b15..b8, read data in b7..b0. -/
def dataPair (wrote read : UInt8) : UInt32 := wrote.toUInt32 <<< 8 ||| read.toUInt32

/-! ### Waiting for the chip -/

structure Wait (σ : Type) where
  b : UInt8
  n : UInt32
  s : State σ

/-- `if(nCountMinSpin) nCountMinSpin--` -/
def spin (n : UInt32) : UInt32 := if n ≠ 0 then n - 1 else n

/-- `while((!(b&0x80)) || (nCountMinSpin))` -/
def statusTurn (dw : UInt32) (w : Wait σ) : Option (Turn (Wait σ) (UInt8 × State σ)) :=
  if w.b &&& 0x80 = 0 ∨ w.n ≠ 0 then
    let r := w.s.read c dw
    some (.next ⟨r.1, spin w.n, r.2⟩)
  else some (.done (w.b, w.s))

/-- `while(((!(b&0x80)) && (--dwTimeToLive)) || (nCountMinSpin))`, with the time to live. -/
def programStatusTurn (dw : UInt32) (w : UInt32 × Wait σ) :
    Option (Turn (UInt32 × Wait σ) (UInt32 × UInt8 × State σ)) :=
  let dwTimeToLive := if w.2.b &&& 0x80 = 0 then w.1 - 1 else w.1
  if (w.2.b &&& 0x80 = 0 ∧ dwTimeToLive ≠ 0) ∨ w.2.n ≠ 0 then
    let r := w.2.s.read c dw
    some (.next (dwTimeToLive, ⟨r.1, spin w.2.n, r.2⟩))
  else some (.done (dwTimeToLive, w.2.b, w.2.s))

/-- waits until b6 is no longer toggling on each read; `n` counts the tries. -/
def toggleTurn (dw : UInt32) (w : Wait σ) : Option (Turn (Wait σ) (UInt32 × State σ)) :=
  let r := w.s.read c dw
  if r.1 &&& 0x40 ≠ w.b &&& 0x40 then some (.next ⟨w.b ^^^ 0x40, w.n + 1, r.2⟩)
  else some (.done (w.n, r.2))

def waitToggle (fuel : Nat) (dw : UInt32) (s : State σ) : Option (UInt32 × State σ) :=
  let r := s.read c dw
  loop (toggleTurn c dw) fuel ⟨r.1, 0, r.2⟩

/-! ### Erase -/

/-- Erase the block of `dw` the 28xxx way: the status and the state. -/
def erase28xxx (fuel : Nat) (dw : UInt32) (s : State σ) : Option (UInt8 × State σ) :=
  let s := s.writes c [(0x5555, 0x50), (dw, 0x20), (dw, 0xd0)]
  (loop (statusTurn c dw) fuel ⟨0, 0x100, s⟩).map fun r =>
    (r.1, r.2.writes c [(0x5555, 0x50), (0x5555, 0xff)])

def resetSequence : List (UInt32 × UInt8) := [(0x5555, 0xaa), (0x2aaa, 0x55), (0x5555, 0xf0)]

/-- The erase command `code`, given at `a`. -/
def eraseSequence (a : UInt32) (code : UInt8) : List (UInt32 × UInt8) :=
  [(0x5555, 0xaa), (0x2aaa, 0x55), (0x5555, 0x80), (0x5555, 0xaa), (0x2aaa, 0x55), (a, code)]

/-- Block erase 0x50, or 0x30 where that never went busy. -/
def eraseBlock29xxx (fuel : Nat) (dw : UInt32) (s : State σ) : Option (UInt32 × State σ) :=
  (waitToggle c fuel dw (s.writes c (eraseSequence dw 0x50))).bind fun r =>
    if r.1 < 3 then waitToggle c fuel dw (r.2.writes c (resetSequence ++ eraseSequence dw 0x30))
    else some r

/-- As a last resort the chip is erased, for a job on the whole chip only. -/
def erase29xxx (fuel : Nat) (dw : UInt32) (nCountEraseRetryIn4KBlock : Int) (s : State σ) :
    Option (State σ) :=
  (eraseBlock29xxx c fuel dw s).bind fun r =>
    if r.1 < 3 ∧ nCountEraseRetryIn4KBlock < 2 ∧ pof.dwStartOffset = 0 ∧
        pof.dwLengthUsedArea = pof.dwLengthInBytes then
      (waitToggle c fuel dw (r.2.writes c (resetSequence ++ eraseSequence 0x5555 0x10))).map (·.2)
    else some r.2

/-- The variables of `BootFlashEraseMinimalRegion`. -/
structure Erase (σ : Type) where
  dw : UInt32
  dwLen : UInt32
  dwLastEraseAddress : UInt32
  nCountEraseRetryIn4KBlock : Int
  s : State σ

def maxEraseRetriesIn4KBlockBeforeFailing : Int := 4

/-- One more try at the block of `dw`. -/
def Erase.retry (v : Erase σ) : Erase σ :=
  if v.dwLastEraseAddress &&& 0xfffff000 = v.dw &&& 0xfffff000 then
    { v with nCountEraseRetryIn4KBlock := v.nCountEraseRetryIn4KBlock - 1 }
  else
    { v with
      nCountEraseRetryIn4KBlock := maxEraseRetriesIn4KBlockBeforeFailing
      dwLastEraseAddress := v.dw }

/-- The address is done. -/
def Erase.advance (v : Erase σ) : Turn (Erase σ) (Bool × State σ) :=
  let r := v.s.update pof .eraseUpdate v.dw (v.dw - pof.dwStartOffset)
  if r.1 then .next { v with dwLen := v.dwLen - 1, dw := v.dw + 1, s := r.2 }
  else .done (false, { r.2 with szAdditionalErrorInfo := .eraseAborted })

/-- Out of tries. -/
def Erase.failed (v : Erase σ) : State σ :=
  let r := (v.s.report c pof .eraseError .eraseEnd (v.dw - pof.dwStartOffset) v.dw (·.toUInt32)).read
    c v.dw
  { r.2 with szAdditionalErrorInfo := .eraseFailed v.dw r.1 }

/-- The chip reports an error. -/
def Erase.badStatus (v : Erase σ) (b : UInt8) : State σ :=
  { v.s.report c pof .eraseError .eraseEnd (v.dw - pof.dwStartOffset) v.dw (·.toUInt32) with
    szAdditionalErrorInfo := if b &&& 8 ≠ 0 then .vppRequired else .statusAfterErase b }

/-- Erase the block, unless the tries are used up. -/
def Erase.erase (fuel : Nat) (v : Erase σ) : Option (Turn (Erase σ) (Bool × State σ)) :=
  if v.nCountEraseRetryIn4KBlock = 0 then some (.done (false, v.failed c pof))
  else if pof.fDetectedUsing28xxxConventions then
    (erase28xxx c fuel v.dw v.s).map fun r =>
      if r.1 &&& 0x7e ≠ 0 then .done (false, { v with s := r.2 }.badStatus c pof r.1)
      else .next { v with s := r.2 }
  else (erase29xxx c pof fuel v.dw v.nCountEraseRetryIn4KBlock v.s).map fun s => .next { v with s }

def eraseTurn (fuel : Nat) (v : Erase σ) : Option (Turn (Erase σ) (Bool × State σ)) :=
  if v.dwLen = 0 then some (.done (v.s.callback pof .eraseEnd 0 0))
  else
    let r := v.s.read c v.dw
    let v := { v with s := r.2 }
    -- something needs erasing; the address is read again before moving on
    if r.1 ≠ 0xff then v.retry.erase c pof fuel else some (v.advance pof)

def bootFlashEraseMinimalRegion (fuel : Nat) (s : State σ) : Option (Bool × State σ) :=
  let s := { s with szAdditionalErrorInfo := .empty }
  let r := s.callback pof .eraseStart 0 0
  if r.1 then
    loop (eraseTurn c pof fuel) fuel
      ⟨pof.dwStartOffset, pof.dwLengthUsedArea, 0xffffffff, maxEraseRetriesIn4KBlockBeforeFailing, r.2⟩
  else some (false, { r.2 with szAdditionalErrorInfo := .eraseAborted })

/-! ### Program -/

/-- Program `v` the 28xxx way: the time to live, the status and the state. -/
def program28xxx (fuel : Nat) (dw : UInt32) (v : UInt8) (s : State σ) :
    Option (UInt32 × UInt8 × State σ) :=
  let s := s.writes c [(dw, 0x40), (dw, v)]
  (loop (programStatusTurn c dw) fuel (0xfffff, ⟨0, 2, s⟩)).map fun r =>
    (r.1, r.2.1, r.2.2.writes c [(dw, 0x50), (dw, 0xff)])

def programSequence (dw : UInt32) (v : UInt8) : List (UInt32 × UInt8) :=
  [(0x5555, 0xaa), (0x2aaa, 0x55), (0x5555, 0xa0), (dw, v)]

def program29xxx (fuel : Nat) (dw : UInt32) (v : UInt8) (s : State σ) : Option (State σ) :=
  (waitToggle c fuel dw (s.writes c (programSequence dw v))).map (·.2)

/-- The variables of `BootFlashProgram`. -/
structure Program (σ : Type) where
  dw : UInt32
  dwLen : UInt32
  dwSrc : UInt32
  dwLastProgramAddress : UInt32
  nCountProgramRetries : Int
  s : State σ

def Program.retry (v : Program σ) : Program σ :=
  if v.dwLastProgramAddress = v.dw then { v with nCountProgramRetries := v.nCountProgramRetries - 1 }
  else { v with nCountProgramRetries := 4, dwLastProgramAddress := v.dw }

def Program.advance (v : Program σ) : Turn (Program σ) (Bool × State σ) :=
  let r := v.s.update pof .programUpdate v.dw v.dwSrc
  if r.1 then .next { v with dwLen := v.dwLen - 1, dw := v.dw + 1, dwSrc := v.dwSrc + 1, s := r.2 }
  else .done (false, { r.2 with szAdditionalErrorInfo := .programAborted })

/-- Unlike the other errors this one is reported with the address on the chip. -/
def Program.failed (v : Program σ) (data : UInt8) : State σ :=
  let r := (v.s.report c pof .programError .programEnd v.dw v.dw (dataPair data)).read c v.dw
  { r.2 with szAdditionalErrorInfo := .programFailed v.dw data r.1 }

def Program.badStatus (v : Program σ) (data : UInt8) (dwTimeToLive : UInt32) (b : UInt8) : State σ :=
  { v.s.report c pof .programError .programEnd (v.dw - pof.dwStartOffset) v.dw (dataPair data) with
    szAdditionalErrorInfo :=
      if b &&& 8 ≠ 0 then .vppRequired
      else if dwTimeToLive ≠ 0 then .statusAfterProgram b
      else .statusAfterTimedOutProgram b }

/-- Program the byte, unless the tries are used up. -/
def Program.program (fuel : Nat) (data : UInt8) (v : Program σ) :
    Option (Turn (Program σ) (Bool × State σ)) :=
  if v.nCountProgramRetries = 0 then some (.done (false, v.failed c pof data))
  else if pof.fDetectedUsing28xxxConventions then
    (program28xxx c fuel v.dw data v.s).map fun r =>
      if r.2.1 &&& 0x7e ≠ 0 ∨ r.1 = 0 then
        .done (false, { v with s := r.2.2 }.badStatus c pof data r.1 r.2.1)
      else .next { v with s := r.2.2 }
  else (program29xxx c fuel v.dw data v.s).map fun s => .next { v with s }

/-- `pba` is the image. -/
def programTurn (pba : UInt32 → UInt8) (fuel : Nat) (v : Program σ) :
    Option (Turn (Program σ) (Bool × State σ)) :=
  if v.dwLen = 0 then some (.done (true, v.s))
  else
    let r := v.s.read c v.dw
    let v := { v with s := r.2 }
    if r.1 ≠ pba v.dwSrc then v.retry.program c pof fuel (pba v.dwSrc) else some (v.advance pof)

/-- The variables of the verify loop. -/
structure Verify (σ : Type) where
  dw : UInt32
  dwLen : UInt32
  dwSrc : UInt32
  s : State σ

/-- The event for the byte read at `dw`, whose argument is one more read. -/
def Verify.failed (v : Verify σ) (data : UInt8) : State σ :=
  match pof.pcallbackFlash with
  | none => v.s
  | some _ =>
    let r := v.s.read c v.dw
    let r := r.2.callback pof .verifyError v.dw (dataPair data r.1)
    if r.1 then (r.2.callback pof .verifyEnd 0 0).2 else r.2

def verifyTurn (pba : UInt32 → UInt8) (v : Verify σ) :
    Option (Turn (Verify σ) (Bool × State σ)) :=
  if v.dwLen = 0 then some (.done (v.s.callback pof .verifyEnd 0 0))
  else
    let r := v.s.read c v.dw
    let v := { v with s := r.2 }
    if r.1 ≠ pba v.dwSrc then some (.done (false, v.failed c pof (pba v.dwSrc)))
    else some (.next { v with dwLen := v.dwLen - 1, dw := v.dw + 1, dwSrc := v.dwSrc + 1 })

/-- What follows the programming. -/
def verify (pba : UInt32 → UInt8) (fuel : Nat) (s : State σ) : Option (Bool × State σ) :=
  let r := s.callback pof .programEnd 0 0
  if r.1 then
    let r := r.2.callback pof .verifyStart 0 0
    if r.1 then
      loop (verifyTurn c pof pba) fuel ⟨pof.dwStartOffset, pof.dwLengthUsedArea, 0, r.2⟩
    else some r
  else some r

def bootFlashProgram (pba : UInt32 → UInt8) (fuel : Nat) (s : State σ) : Option (Bool × State σ) :=
  let s := { s with szAdditionalErrorInfo := .empty }
  let r := s.callback pof .programStart 0 0
  if r.1 then
    (loop (programTurn c pof pba fuel) fuel
        ⟨pof.dwStartOffset, pof.dwLengthUsedArea, 0, 0xffffffff, 4, r.2⟩).bind fun r =>
      if r.1 then verify c pof pba fuel r.2 else some r
  else some (false, { r.2 with szAdditionalErrorInfo := .programAborted })

end

end Gentoox.Flash
