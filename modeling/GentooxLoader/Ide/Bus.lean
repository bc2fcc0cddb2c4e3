import Mathlib.Data.List.Basic
import Mathlib.Data.UInt

/-!
# The ATA bus: registers and drives

The other side of the ports drivers/ide/BootIde.c writes to.  Sector count,
sector number and the two cylinder registers are two deep: a write pushes the
previous value down.  The drive named by bit 4 of drive/head carries a command
out:

* 0x20 and 0x30 read and write at the 28-bit address in the sector number, the
  cylinders and the low nibble of drive/head (or at cylinder/head/sector when
  bit 6 of drive/head is clear);
* 0x24 reads at the 48-bit address in both levels of the register pairs.

A drive is seen once it is no longer busy.  Data goes through the data port a
word at a time; a sector is stored when its 256th word has come.
-/

namespace Gentoox.Ide

/-- The contents of one sector. -/
abbrev Sector := { l : List UInt8 // l.length = 512 }

@[simp] theorem length_sector (s : Sector) : s.val.length = 512 := s.property

/-! ## Bytes and words -/

def wordBytes (w : UInt16) : List UInt8 := [w.toUInt8, (w >>> 8).toUInt8]

def bytesOfWords (ws : List UInt16) : List UInt8 := ws.flatMap wordBytes

/-- The words a `u16` pointer into the bytes reads. -/
def wordsOfBytes : List UInt8 → List UInt16
  | a :: b :: l => UInt16.ofNat (a.toNat + 256 * b.toNat) :: wordsOfBytes l
  | _ => []

theorem length_bytesOfWords (ws : List UInt16) : (bytesOfWords ws).length = 2 * ws.length := by
  induction ws with
  | nil => rfl
  | cons w ws ih =>
    simp only [bytesOfWords, List.flatMap_cons, List.length_append, List.length_cons, wordBytes,
      List.length_nil] at ih ⊢
    omega

theorem wordBytes_pair (a b : UInt8) : wordBytes (UInt16.ofNat (a.toNat + 256 * b.toNat)) = [a, b] := by
  have ha := a.toNat_lt
  have hb := b.toNat_lt
  unfold wordBytes
  congr 1
  · apply UInt8.toNat_inj.1
    rw [UInt16.toNat_toUInt8, UInt16.toNat_ofNat_of_lt' (by simp [UInt16.size]; omega)]
    omega
  · congr 1
    apply UInt8.toNat_inj.1
    rw [UInt16.toNat_toUInt8, UInt16.toNat_shiftRight,
      UInt16.toNat_ofNat_of_lt' (by simp [UInt16.size]; omega)]
    show (a.toNat + 256 * b.toNat) >>> 8 % 2 ^ 8 = _
    rw [Nat.shiftRight_eq_div_pow]
    omega

theorem bytesOfWords_wordsOfBytes : ∀ (l : List UInt8), l.length % 2 = 0 →
    bytesOfWords (wordsOfBytes l) = l
  | [], _ => rfl
  | [_], h => by simp at h
  | a :: b :: l, h => by
    have ih := bytesOfWords_wordsOfBytes l (by simp only [List.length_cons] at h; omega)
    unfold bytesOfWords at ih ⊢
    rw [wordsOfBytes, List.flatMap_cons, wordBytes_pair, ih]
    rfl

theorem length_wordsOfBytes (l : List UInt8) : (wordsOfBytes l).length = l.length / 2 := by
  fun_induction wordsOfBytes l with
  | case1 a b l ih => simp only [List.length_cons, ih]; omega
  | case2 l h =>
    match l, h with
    | [], _ => rfl
    | [_], _ => simp
    | a :: b :: l, h => exact absurd rfl (h a b l)

/-! ## Registers, drives, commands -/

/-- A register of two levels. -/
structure Pair where
  prev : UInt8
  cur : UInt8

def Pair.push (p : Pair) (v : UInt8) : Pair := ⟨p.cur, v⟩

structure Drive where
  capacity : Nat
  heads : Nat
  sectorsPerTrack : Nat
  sector : Nat → Sector

/-- The data phase of the current command. -/
inductive Transfer where
  | idle
  | dataIn (words : List UInt16)
  | dataOut (drive : Bool) (lba count : Nat) (words : List UInt16)

structure Bus where
  sectorCount : Pair
  sectorNumber : Pair
  cylinderLsb : Pair
  cylinderMsb : Pair
  driveHead : UInt8
  control : UInt8
  drives : Bool → Drive
  transfer : Transfer
  error : Bool

/-- The drive the registers select. -/
def Bus.selected (b : Bus) : Bool := b.driveHead &&& 0x10 != 0

def Bus.lba28 (b : Bus) : Nat :=
  b.sectorNumber.cur.toNat + 2 ^ 8 * b.cylinderLsb.cur.toNat + 2 ^ 16 * b.cylinderMsb.cur.toNat +
    2 ^ 24 * (b.driveHead &&& 0x0f).toNat

def Bus.chs (b : Bus) : Nat :=
  let d := b.drives b.selected
  ((b.cylinderLsb.cur.toNat + 2 ^ 8 * b.cylinderMsb.cur.toNat) * d.heads +
    (b.driveHead &&& 0x0f).toNat) * d.sectorsPerTrack + b.sectorNumber.cur.toNat - 1

/-- The sector a 28-bit command is about. -/
def Bus.address28 (b : Bus) : Nat := if b.driveHead &&& 0x40 != 0 then b.lba28 else b.chs

/-- The sector a 48-bit command is about. -/
def Bus.address48 (b : Bus) : Nat :=
  b.sectorNumber.cur.toNat + 2 ^ 8 * b.cylinderLsb.cur.toNat + 2 ^ 16 * b.cylinderMsb.cur.toNat +
    2 ^ 24 * b.sectorNumber.prev.toNat + 2 ^ 32 * b.cylinderLsb.prev.toNat +
    2 ^ 40 * b.cylinderMsb.prev.toNat

/-- A count of 0 is 256 sectors, in the 48-bit form 65536. -/
def Bus.count28 (b : Bus) : Nat := if b.sectorCount.cur = 0 then 256 else b.sectorCount.cur.toNat

def Bus.count48 (b : Bus) : Nat :=
  let n := b.sectorCount.cur.toNat + 2 ^ 8 * b.sectorCount.prev.toNat
  if n = 0 then 65536 else n

def Drive.words (d : Drive) (lba count : Nat) : List UInt16 :=
  (List.range count).flatMap fun k => wordsOfBytes (d.sector (lba + k)).val

def Bus.fail (b : Bus) : Bus := { b with transfer := .idle, error := true }

def Bus.startIn (b : Bus) (lba count : Nat) : Bus :=
  if lba + count ≤ (b.drives b.selected).capacity then
    { b with transfer := .dataIn ((b.drives b.selected).words lba count), error := false }
  else b.fail

def Bus.startOut (b : Bus) (lba count : Nat) : Bus :=
  if lba + count ≤ (b.drives b.selected).capacity then
    { b with transfer := .dataOut b.selected lba count [], error := false }
  else b.fail

/-- The command register is written. -/
def Bus.command (b : Bus) (c : UInt8) : Bus :=
  if c = 0x20 then b.startIn b.address28 b.count28
  else if c = 0x24 then b.startIn b.address48 b.count48
  else if c = 0x30 then b.startOut b.address28 b.count28
  else b.fail

def Drive.store (d : Drive) (lba : Nat) (s : Sector) : Drive :=
  { d with sector := fun k => if k = lba then s else d.sector k }

def Bus.store (b : Bus) (drive : Bool) (lba : Nat) (s : Sector) : Bus :=
  { b with drives := fun k => if k = drive then (b.drives drive).store lba s else b.drives k }

/-- A word is written to the data port. -/
def Bus.outWord (b : Bus) (w : UInt16) : Bus :=
  match b.transfer with
  | .dataOut drive lba count words =>
    if h : (words ++ [w]).length = 256 then
      let s : Sector := ⟨bytesOfWords (words ++ [w]), by rw [length_bytesOfWords, h]⟩
      if count ≤ 1 then { b.store drive lba s with transfer := .idle }
      else { b.store drive lba s with transfer := .dataOut drive (lba + 1) (count - 1) [] }
    else { b with transfer := .dataOut drive lba count (words ++ [w]) }
  | _ => b

/-- A word is read from the data port. -/
def Bus.inWord (b : Bus) : UInt16 × Bus :=
  match b.transfer with
  | .dataIn (w :: words) =>
    (w, { b with transfer := if words = [] then .idle else .dataIn words })
  | _ => (0, b)

/-- The alternate status register: DRQ (0x08) and ERR (0x01). -/
def Bus.altStatus (b : Bus) : UInt8 :=
  (match b.transfer with | .idle => 0x00 | _ => 0x08) ||| (if b.error then 0x01 else 0x00)

/-! ## Data phases -/

/-- Writing the words of a data phase one after the other. -/
def Bus.outWords (b : Bus) (ws : List UInt16) : Bus := ws.foldl Bus.outWord b

/-- Reading `n` words of a data phase. -/
def Bus.inWords (b : Bus) : Nat → List UInt16 × Bus
  | 0 => ([], b)
  | n + 1 =>
    let (w, b) := b.inWord
    let (ws, b) := b.inWords n
    (w :: ws, b)

/-- The words of a sector but the last only fill the drive's buffer. -/
theorem outWords_fill (ws : List UInt16) : ∀ (b : Bus) (drive : Bool) (lba count : Nat)
    (us : List UInt16), b.transfer = .dataOut drive lba count us → us.length + ws.length < 256 →
    b.outWords ws = { b with transfer := .dataOut drive lba count (us ++ ws) } := by
  induction ws with
  | nil =>
    intro b drive lba count us h _
    rw [List.append_nil, ← h]
    rfl
  | cons w ws ih =>
    intro b drive lba count us h hlen
    rw [List.length_cons] at hlen
    have hstep : b.outWord w = { b with transfer := .dataOut drive lba count (us ++ [w]) } := by
      simp only [Bus.outWord, h]
      rw [dif_neg (by simp; omega)]
    rw [Bus.outWords, List.foldl_cons, hstep]
    have := ih { b with transfer := .dataOut drive lba count (us ++ [w]) } drive lba count (us ++ [w])
      rfl (by simp; omega)
    rw [Bus.outWords] at this
    rw [this, List.append_assoc, List.singleton_append]

/-- A whole sector written to the data port is stored. -/
theorem outWords_sector (b : Bus) (drive : Bool) (lba : Nat) (s : Sector)
    (h : b.transfer = .dataOut drive lba 1 []) :
    b.outWords (wordsOfBytes s.val) = { b.store drive lba s with transfer := .idle } := by
  have hlen : (wordsOfBytes s.val).length = 256 := by rw [length_wordsOfBytes, s.property]
  obtain ⟨ws, w, hw⟩ : ∃ ws w, wordsOfBytes s.val = ws ++ [w] :=
    ⟨_, _, (List.dropLast_append_getLast (by rw [← List.length_pos_iff]; omega)).symm⟩
  rw [hw, List.length_append, List.length_singleton] at hlen
  rw [hw, Bus.outWords, List.foldl_append]
  have hfill := outWords_fill ws b drive lba 1 [] h (by simp; omega)
  rw [Bus.outWords] at hfill
  rw [hfill, List.nil_append, List.foldl_cons, List.foldl_nil]
  simp only [Bus.outWord]
  rw [dif_pos (by simp; omega)]
  simp only [Nat.le_refl, if_true]
  have hs : (⟨bytesOfWords (ws ++ [w]), by rw [length_bytesOfWords]; simp; omega⟩ : Sector) = s := by
    apply Subtype.ext
    show bytesOfWords (ws ++ [w]) = s.val
    rw [← hw]
    exact bytesOfWords_wordsOfBytes s.val (by rw [s.property])
  rw [hs]
  rfl

theorem inWords_dataIn (ws : List UInt16) : ∀ (b : Bus) (us : List UInt16),
    b.transfer = .dataIn (ws ++ us) → b.inWords ws.length =
      (ws, { b with transfer := if ws = [] then b.transfer else
        if us = [] then .idle else .dataIn us }) := by
  induction ws with
  | nil => intro b us _; rfl
  | cons w ws ih =>
    intro b us h
    rw [List.cons_append] at h
    rw [List.length_cons, Bus.inWords, Bus.inWord]
    simp only [h]
    rcases ws with _ | ⟨w', ws⟩
    · simp [Bus.inWords]
    · have := ih { b with transfer := .dataIn (w' :: ws ++ us) } us rfl
      simp only [List.cons_append] at this ⊢
      rw [if_neg (by simp), this]
      simp

/-- A drive's sector read from the data port. -/
theorem inWords_sector (b : Bus) (s : Sector) (h : b.transfer = .dataIn (wordsOfBytes s.val)) :
    b.inWords 256 = (wordsOfBytes s.val, { b with transfer := .idle }) := by
  have hlen : (wordsOfBytes s.val).length = 256 := by rw [length_wordsOfBytes, s.property]
  have := inWords_dataIn (wordsOfBytes s.val) b [] (by rw [List.append_nil, h])
  have hne : wordsOfBytes s.val ≠ [] := by
    intro e
    rw [e] at hlen
    cases hlen
  rw [hlen] at this
  rw [this, if_neg hne, if_pos rfl]

@[simp] theorem store_same (b : Bus) (drive : Bool) (lba : Nat) (s : Sector) :
    ((b.store drive lba s).drives drive).sector lba = s := by
  simp [Bus.store, Drive.store]

theorem store_of_ne (b : Bus) (drive : Bool) (lba k : Nat) (s : Sector) (h : k ≠ lba) :
    ((b.store drive lba s).drives drive).sector k = (b.drives drive).sector k := by
  simp [Bus.store, Drive.store, h]

@[simp] theorem store_other (b : Bus) (drive : Bool) (lba : Nat) (s : Sector) :
    (b.store drive lba s).drives (!drive) = b.drives (!drive) := by
  simp [Bus.store]

@[simp] theorem store_capacity (b : Bus) (drive k : Bool) (lba : Nat) (s : Sector) :
    ((b.store drive lba s).drives k).capacity = (b.drives k).capacity := by
  unfold Bus.store Drive.store
  by_cases h : k = drive
  · subst h; simp
  · simp [h]

end Gentoox.Ide
