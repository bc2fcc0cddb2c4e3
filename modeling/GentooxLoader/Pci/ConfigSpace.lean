import GentooxLoader.Base.Cells
import GentooxLoader.Base.Words
import Mathlib.Logic.Function.Basic

/-!
# The configuration space (drivers/pci/pci.c)

A register is reached through the address port 0xCF8, whose two low bits do not
count, and a byte lane of the data port 0xCFC.  The accesses to a byte take the
lane from both low bits of the register, those to a word from the lowest one
only: at an even register that is lane 0.

    pciReadByte_value      a byte comes from its register
    pciReadWord_value      a word comes from the first lanes of its dword
    pciRead_agree_iff      reading a word, and reading its two bytes
    pciWrite_agree_iff     writing a word, and writing its two bytes
    pciWord_agree_iff      both agree ↔ the dword begins here, or has the word twice
-/

namespace Gentoox.Pci

/-! ## The bridge -/

/-- The address port, and the configuration space as one range of bytes. -/
structure Bridge where
  configAddress : UInt32
  config : Nat → UInt8

namespace Bridge

/-- The byte behind a data port. -/
def cell (b : Bridge) (port : Nat) : Nat := b.configAddress.toNat / 4 * 4 + (port - 0xcfc)

def ioOutputDword (v : UInt32) (b : Bridge) : Bridge := { b with configAddress := v }

def ioInputByte (port : Nat) (b : Bridge) : UInt8 := b.config (b.cell port)

def ioInputWord (port : Nat) (b : Bridge) : UInt16 :=
  (b.config (b.cell port)).toUInt16 ||| (b.config (b.cell (port + 1))).toUInt16 <<< 8

def ioOutputByte (port : Nat) (v : UInt8) (b : Bridge) : Bridge :=
  { b with config := Function.update b.config (b.cell port) v }

def ioOutputWord (port : Nat) (w : UInt16) (b : Bridge) : Bridge :=
  { b with
    config := Function.update (Function.update b.config (b.cell port) w.toUInt8)
      (b.cell (port + 1)) (w >>> 8).toUInt8 }

end Bridge

open Bridge

/-! ## Algorithm -/

section
variable (bus dev func : UInt32)

def baseAddr : UInt32 :=
  (0x80000000 : UInt32) ||| (bus &&& 0xFF) <<< 16 ||| (dev &&& 0x1F) <<< 11 ||| (func &&& 0x07) <<< 8

variable (regOff : UInt32)

def pciReadByte (b : Bridge) : UInt8 × Bridge :=
  let b := b.ioOutputDword (baseAddr bus dev func + (regOff &&& 0xfc))
  (b.ioInputByte (0xcfc + (regOff &&& 3).toNat), b)

def pciWriteByte (byteval : UInt8) (b : Bridge) : Bridge :=
  let b := b.ioOutputDword (baseAddr bus dev func + (regOff &&& 0xfc))
  b.ioOutputByte (0xcfc + (regOff &&& 3).toNat) byteval

def pciReadWord (b : Bridge) : UInt16 × Bridge :=
  let b := b.ioOutputDword (baseAddr bus dev func + (regOff &&& 0xfe))
  (b.ioInputWord (0xcfc + (regOff &&& 1).toNat), b)

def pciWriteWord (w : UInt16) (b : Bridge) : Bridge :=
  let b := b.ioOutputDword (baseAddr bus dev func + (regOff &&& 0xfc))
  b.ioOutputWord (0xcfc + (regOff &&& 1).toNat) w

/-! ## Registers -/

/-- The place of a register. -/
def register : Nat := (baseAddr bus dev func).toNat + regOff.toNat % 256

/-- The place of the dword it is in. -/
def dword : Nat := (baseAddr bus dev func).toNat + regOff.toNat % 256 / 4 * 4

end

/-- The other fields leave the register's bits clear. -/
theorem baseAddr_mod (bus dev func : UInt32) : (baseAddr bus dev func).toNat % 256 = 0 := by
  have hshift : ∀ (x : UInt32) (k : Nat), 8 ≤ k → x.toNat <<< k % 2 ^ 32 % 2 ^ 8 = 0 := by
    intro x k hk
    obtain ⟨j, rfl⟩ := Nat.exists_eq_add_of_le hk
    rw [Nat.shiftLeft_eq, Nat.pow_add]
    have hdvd : 2 ^ 8 ∣ x.toNat * (2 ^ 8 * 2 ^ j) := ⟨x.toNat * 2 ^ j, Nat.mul_left_comm ..⟩
    omega
  have h1 := hshift (bus &&& 0xFF) 16 (by decide)
  have h2 := hshift (dev &&& 0x1F) 11 (by decide)
  have h3 := hshift (func &&& 0x07) 8 (by decide)
  unfold baseAddr
  rw [UInt32.toNat_or, UInt32.toNat_or, UInt32.toNat_or, UInt32.toNat_shiftLeft,
    UInt32.toNat_shiftLeft, UInt32.toNat_shiftLeft]
  show (_ ||| _ ||| _ ||| _) % 2 ^ 8 = 0
  rw [Nat.or_mod_two_pow, Nat.or_mod_two_pow, Nat.or_mod_two_pow]
  show (_ ||| (bus &&& 0xFF).toNat <<< 16 % 2 ^ 32 % 2 ^ 8 |||
    (dev &&& 0x1F).toNat <<< 11 % 2 ^ 32 % 2 ^ 8 |||
    (func &&& 0x07).toNat <<< 8 % 2 ^ 32 % 2 ^ 8) = 0
  rw [h1, h2, h3]
  rfl

theorem masks_all : ∀ n, n < 256 → n &&& 0xfc = n / 4 * 4 ∧ n &&& 0xfe = n / 2 * 2 ∧
    n &&& 3 = n % 4 ∧ n &&& 1 = n % 2 := by
  decide +kernel

/-- The masks of the accesses as numbers. -/
theorem masks (r : UInt32) : (r &&& 0xfc).toNat = r.toNat % 256 / 4 * 4 ∧
    (r &&& 0xfe).toNat = r.toNat % 256 / 2 * 2 ∧ (r &&& 3).toNat = r.toNat % 4 ∧
    (r &&& 1).toNat = r.toNat % 2 := by
  have hmask : ∀ m, m < 2 ^ 8 → r.toNat &&& m = r.toNat % 256 &&& m := by
    intro m hm
    have hlt : r.toNat &&& m < 2 ^ 8 := Nat.lt_of_le_of_lt Nat.and_le_right hm
    rw [← Nat.mod_eq_of_lt hlt, Nat.and_mod_two_pow, Nat.mod_eq_of_lt hm]
  obtain ⟨h1, h2, h3, h4⟩ := masks_all (r.toNat % 256) (Nat.mod_lt _ (by decide))
  refine ⟨?_, ?_, ?_, ?_⟩
  · show r.toNat &&& 0xfc = _
    rw [hmask _ (by decide), h1]
  · show r.toNat &&& 0xfe = _
    rw [hmask _ (by decide), h2]
  · show r.toNat &&& 3 = _
    rw [hmask _ (by decide), h3]
    omega
  · show r.toNat &&& 1 = _
    rw [hmask _ (by decide), h4]
    omega

/-- The address port takes the dword of the register. -/
theorem toNat_baseAddr_add (bus dev func : UInt32) {x : UInt32} (hx : x.toNat < 256) :
    (baseAddr bus dev func + x).toNat = (baseAddr bus dev func).toNat + x.toNat := by
  have hmod := baseAddr_mod bus dev func
  have hlt := (baseAddr bus dev func).toNat_lt
  rw [UInt32.toNat_add]
  exact Nat.mod_eq_of_lt (by omega)

section
variable (bus dev func r : UInt32) (b : Bridge)

/-- The address port takes any register of the same dword. -/
theorem cell_ioOutputDword {x : UInt32} (hx : x.toNat / 4 * 4 = r.toNat % 256 / 4 * 4)
    (hlt : x.toNat < 256) (k : Nat) :
    (b.ioOutputDword (baseAddr bus dev func + x)).cell (0xcfc + k) =
      dword bus dev func r + k := by
  have hmod := baseAddr_mod bus dev func
  show (baseAddr bus dev func + x).toNat / 4 * 4 + (0xcfc + k - 0xcfc) = _
  rw [toNat_baseAddr_add bus dev func hlt]
  unfold dword
  omega

theorem cell_byte : (b.ioOutputDword (baseAddr bus dev func + (r &&& 0xfc))).cell
    (0xcfc + (r &&& 3).toNat) = register bus dev func r := by
  obtain ⟨h1, -, h3, -⟩ := masks r
  rw [cell_ioOutputDword bus dev func r b (by omega) (by omega), h3]
  unfold register dword
  omega

theorem pciReadByte_value :
    (pciReadByte bus dev func r b).1 = b.config (register bus dev func r) := by
  unfold pciReadByte ioInputByte
  simp only [cell_byte]
  rfl

theorem pciWriteByte_config (v : UInt8) : (pciWriteByte bus dev func r v b).config =
    Function.update b.config (register bus dev func r) v := by
  unfold pciWriteByte ioOutputByte
  simp only [cell_byte]
  rfl

variable {r} (heven : r.toNat % 2 = 0)
include heven

/-- A word at an even register takes the lanes 0 and 1. -/
theorem pciReadWord_value : (pciReadWord bus dev func r b).1 =
    (b.config (dword bus dev func r)).toUInt16 |||
      (b.config (dword bus dev func r + 1)).toUInt16 <<< 8 := by
  obtain ⟨-, h2, -, h4⟩ := masks r
  rw [heven] at h4
  have hcell : ∀ k, (b.ioOutputDword (baseAddr bus dev func + (r &&& 0xfe))).cell (0xcfc + k) =
      dword bus dev func r + k := cell_ioOutputDword bus dev func r b (by omega) (by omega)
  unfold pciReadWord
  simp only [h4]
  show (b.config _).toUInt16 ||| (b.config _).toUInt16 <<< 8 = _
  rw [hcell 0, show 0xcfc + 0 + 1 = 0xcfc + 1 from rfl, hcell 1, Nat.add_zero]

theorem pciWriteWord_config (w : UInt16) : (pciWriteWord bus dev func r w b).config =
    Function.update (Function.update b.config (dword bus dev func r) w.toUInt8)
      (dword bus dev func r + 1) (w >>> 8).toUInt8 := by
  obtain ⟨h1, -, -, h4⟩ := masks r
  rw [heven] at h4
  have hcell : ∀ k, (b.ioOutputDword (baseAddr bus dev func + (r &&& 0xfc))).cell (0xcfc + k) =
      dword bus dev func r + k := cell_ioOutputDword bus dev func r b (by omega) (by omega)
  unfold pciWriteWord
  simp only [h4]
  show Function.update (Function.update b.config _ _) _ _ = _
  rw [hcell 0, show 0xcfc + 0 + 1 = 0xcfc + 1 from rfl, hcell 1, Nat.add_zero]

/-- An even register begins its dword, or is in the middle of it. -/
theorem register_even : register bus dev func r = dword bus dev func r + r.toNat % 4 ∧
    register bus dev func (r + 1) = register bus dev func r + 1 := by
  have hnext : (r + 1).toNat = r.toNat + 1 := by
    have hlt := r.toNat_lt
    rw [UInt32.toNat_add]
    exact Nat.mod_eq_of_lt (by show r.toNat + 1 < 2 ^ 32; omega)
  unfold register dword
  rw [hnext]
  omega

end

/-! ## Top theorem -/

/-- Two bytes in other places say the same only where they stood before. -/
theorem update_pair_eq_iff {m : Nat → UInt8} {d e : Nat} (hde : d + 1 < e) (lo hi : UInt8) :
    Function.update (Function.update m d lo) (d + 1) hi =
        Function.update (Function.update m e lo) (e + 1) hi ↔
      (m d = lo ∧ m (d + 1) = hi) ∧ m e = lo ∧ m (e + 1) = hi := by
  have hpair : ∀ a x y, m a = x → m (a + 1) = y →
      Function.update (Function.update m a x) (a + 1) y = m := by
    intro a x y hx hy
    rw [← hx, Function.update_eq_self, ← hy, Function.update_eq_self]
  constructor
  · intro h
    have hd := congrFun h d
    have hd1 := congrFun h (d + 1)
    have he := congrFun h e
    have he1 := congrFun h (e + 1)
    simp only [Function.update_apply] at hd hd1 he he1
    have h1 : d ≠ d + 1 := by omega
    have h2 : d ≠ e + 1 := by omega
    have h3 : d ≠ e := by omega
    have h4 : d + 1 ≠ e + 1 := by omega
    have h5 : d + 1 ≠ e := by omega
    have h6 : e ≠ e + 1 := by omega
    simp only [h1, h2, h3, h4, h5, h6, h3.symm, h4.symm, h5.symm, h2.symm, if_true, if_false]
      at hd hd1 he he1
    exact ⟨⟨hd.symm, hd1.symm⟩, he, he1⟩
  · rintro ⟨⟨h1, h2⟩, h3, h4⟩
    rw [hpair d lo hi h1 h2, hpair e lo hi h3 h4]

/-- The word at `r` is its two bytes. -/
def ReadAgrees (bus dev func r : UInt32) (b : Bridge) : Prop :=
  let low := pciReadByte bus dev func r b
  (pciReadWord bus dev func r b).1 =
    low.1.toUInt16 ||| (pciReadByte bus dev func (r + 1) low.2).1.toUInt16 <<< 8

/-- Writing the word at `r` does to the configuration space what writing two bytes does. -/
def WriteAgrees (bus dev func r : UInt32) (w : UInt16) (b : Bridge) : Prop :=
  (pciWriteWord bus dev func r w b).config =
    (pciWriteByte bus dev func (r + 1) (w >>> 8).toUInt8
      (pciWriteByte bus dev func r (w &&& 0xff).toUInt8 b)).config

/-- The cells at a place and behind it. -/
def HasWord (m : Nat → UInt8) (place : Nat) (w : UInt16) : Prop :=
  m place = w.toUInt8 ∧ m (place + 1) = (w >>> 8).toUInt8

section
variable (bus dev func : UInt32) (b : Bridge) {r : UInt32} (heven : r.toNat % 2 = 0)
include heven

theorem pciRead_agree_iff : ReadAgrees bus dev func r b ↔ r.toNat % 4 = 0 ∨
    b.config (dword bus dev func r) = b.config (register bus dev func r) ∧
      b.config (dword bus dev func r + 1) = b.config (register bus dev func r + 1) := by
  obtain ⟨hplace, hnext⟩ := register_even bus dev func heven
  unfold ReadAgrees
  simp only
  rw [pciReadWord_value bus dev func b heven, pciReadByte_value, pciReadByte_value, hnext]
  constructor
  · intro h
    exact .inr (Words.or_bytes_inj h)
  · rintro (h0 | ⟨h1, h2⟩)
    · rw [hplace, h0]
      rfl
    · rw [h1, h2]
      rfl

theorem pciWrite_agree_iff (w : UInt16) : WriteAgrees bus dev func r w b ↔ r.toNat % 4 = 0 ∨
    HasWord b.config (dword bus dev func r) w ∧ HasWord b.config (register bus dev func r) w := by
  obtain ⟨hplace, hnext⟩ := register_even bus dev func heven
  have hlow : (w &&& 0xff).toUInt8 = w.toUInt8 := by
    rw [← UInt8.toNat_inj, UInt16.toNat_toUInt8, UInt16.toNat_toUInt8, UInt16.toNat_and]
    show (w.toNat &&& (2 ^ 8 - 1)) % 2 ^ 8 = w.toNat % 2 ^ 8
    rw [Nat.and_two_pow_sub_one_eq_mod, Nat.mod_mod]
  unfold WriteAgrees
  rw [pciWriteWord_config bus dev func b heven, pciWriteByte_config, pciWriteByte_config, hnext,
    hlow]
  by_cases h0 : r.toNat % 4 = 0
  · rw [hplace, h0, Nat.add_zero]
    exact iff_of_true rfl (.inl rfl)
  · rw [update_pair_eq_iff (by omega)]
    exact ⟨.inr, fun h => h.resolve_left h0⟩

/-- **Words agree with bytes** exactly where the dword begins, or has the word in
both halves already. -/
theorem pciWord_agree_iff (w : UInt16) :
    ReadAgrees bus dev func r b ∧ WriteAgrees bus dev func r w b ↔ r.toNat % 4 = 0 ∨
      HasWord b.config (dword bus dev func r) w ∧ HasWord b.config (register bus dev func r) w := by
  rw [pciRead_agree_iff bus dev func b heven, pciWrite_agree_iff bus dev func b heven]
  constructor
  · rintro ⟨-, hwrite⟩
    exact hwrite
  · rintro (h0 | ⟨⟨h1, h2⟩, h3, h4⟩)
    · exact ⟨.inl h0, .inl h0⟩
    · exact ⟨.inr ⟨h1.trans h3.symm, h2.trans h4.symm⟩, .inr ⟨⟨h1, h2⟩, h3, h4⟩⟩

end

/-! ## The upper half of a dword -/

/-- Four different bytes in each dword. -/
def countedBytes : Bridge := ⟨0, fun i => UInt8.ofNat (i % 4)⟩

/-- Register 2 of some device: the word is that of register 0, read and written. -/
theorem word_at_two : ¬ ReadAgrees 0 1 2 2 countedBytes ∧
    ¬ WriteAgrees 0 1 2 2 0x1234 countedBytes := by
  rw [pciRead_agree_iff 0 1 2 countedBytes (by decide),
    pciWrite_agree_iff 0 1 2 countedBytes (by decide)]
  unfold HasWord
  decide

/-- At register 4 both agree. -/
theorem pciWord_agree_iff_four : ReadAgrees 0 1 2 4 countedBytes ∧
    WriteAgrees 0 1 2 4 0x1234 countedBytes :=
  (pciWord_agree_iff 0 1 2 countedBytes (by decide) 0x1234).2 (.inl (by decide))

end Gentoox.Pci
