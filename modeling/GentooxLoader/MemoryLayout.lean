import Mathlib.Data.UInt

/-!
# The memory layout (include/memory_layout.h)
-/

namespace Gentoox

def kernelSetup : UInt32 := 0x90000

def gdtLoc : UInt32 := 0xA0000

/-- The protected mode part of the kernel starts at 1 MB. -/
def kernelPmCode : UInt32 := 0x00100000

def kernelPmCodeEnd : UInt32 := 0x00900000

def initrdStart : UInt32 := kernelPmCodeEnd

def maxInitrdEnd : UInt32 := 0x02A00000

def maxKernelSize : UInt32 := kernelPmCodeEnd - kernelPmCode

def maxInitrdSize : UInt32 := maxInitrdEnd - initrdStart

def memoryManagerStart : UInt32 := maxInitrdEnd

end Gentoox
