import Mathlib.Data.UInt

/-!
# Calls of BootReflashAndReset (drivers/flash/BootFlashUi.c)

The call erases and programs the flash chip.  It comes back only where the chip
is not known, is write-protected or is too small.
-/

namespace Gentoox.Flash

/-- The arguments of a call, with the `dwLength` bytes at `pbNewData`. -/
structure Reflash where
  pbNewData : List UInt8
  dwStartOffset : UInt32
  dwLength : UInt32

/-- The sizes a BIOS can have: 256K, 512K, 768K and 1024K. -/
def Legal (dwLength : UInt32) : Prop :=
  0 < dwLength ∧ dwLength % 0x40000 = 0 ∧ dwLength ≤ 0x100000

instance (dwLength : UInt32) : Decidable (Legal dwLength) := inferInstanceAs (Decidable (_ ∧ _))

/-- The three sizes both http sources look for. -/
theorem legal_of_exact {len : Nat} (h : len = 256 * 1024 ∨ len = 512 * 1024 ∨ len = 1024 * 1024) :
    Legal (UInt32.ofNat len) := by
  rcases h with rfl | rfl | rfl <;> decide

end Gentoox.Flash
