import GentooxLoader.Lib.Digest

/-!
# SHA-1 contexts (lib/crypt/sha1.c)

A context takes its message in pieces.  What its block holds from the index on
is left over from before and never matters:

    Same.input, Same.result   contexts that differ only there give the same digest
    sha1InputOwn_eq           a message may lie in the context's own block
    Taking.result             a message that is not too long has a digest of 20 bytes
-/

namespace Gentoox.Lib

open Cells

/-! ## Algorithm -/

structure SHA1Context where
  intermediateHash : SHA1State
  lengthLow : UInt32
  lengthHigh : UInt32
  messageBlockIndex : Nat
  messageBlock : Nat → UInt8
  computed : Bool
  corrupted : Nat

def shaStateError : Nat := 3

/-- The block keeps what was in it. -/
def sha1Reset (context : SHA1Context) : SHA1Context where
  intermediateHash := ⟨0x67452301, 0xEFCDAB89, 0x98BADCFE, 0x10325476, 0xC3D2E1F0⟩
  lengthLow := 0
  lengthHigh := 0
  messageBlockIndex := 0
  messageBlock := context.messageBlock
  computed := false
  corrupted := 0

/-- `SHA1ProcessMessageBlock` on the block of the context. -/
def SHA1Context.processMessageBlock (context : SHA1Context) : SHA1Context :=
  { context with
    intermediateHash := sha1ProcessMessageBlock context.intermediateHash (read context.messageBlock 0 64)
    messageBlockIndex := 0 }

/-- The body of the loop of `SHA1Input`. -/
def SHA1Context.putByte (context : SHA1Context) (b : UInt8) : SHA1Context :=
  let lengthLow := context.lengthLow + 8
  let lengthHigh := if lengthLow = 0 then context.lengthHigh + 1 else context.lengthHigh
  -- the message is too long when both counters are back at zero
  let corrupted := if lengthLow = 0 ∧ lengthHigh = 0 then 1 else context.corrupted
  let context := { context with
    messageBlock := Function.update context.messageBlock context.messageBlockIndex b
    messageBlockIndex := context.messageBlockIndex + 1
    lengthLow, lengthHigh, corrupted }
  if context.messageBlockIndex = 64 then context.processMessageBlock else context

def inputLoop : SHA1Context → List UInt8 → SHA1Context
  | context, [] => context
  | context, b :: message =>
    if context.corrupted ≠ 0 then context else inputLoop (context.putByte b) message

def sha1Input (context : SHA1Context) (message : List UInt8) : SHA1Context :=
  if message = [] then context
  else if context.computed then { context with corrupted := shaStateError }
  else if context.corrupted ≠ 0 then context
  else inputLoop context message

/-- The same loop on a message that lies in the context's own block, from `i` on. -/
def inputOwnLoop : SHA1Context → Nat → Nat → SHA1Context
  | context, _, 0 => context
  | context, i, n + 1 =>
    if context.corrupted ≠ 0 then context
    else inputOwnLoop (context.putByte (context.messageBlock i)) (i + 1) n

/-- `SHA1Input(context, &context->Message_Block[0], length)` -/
def sha1InputOwn (context : SHA1Context) (length : Nat) : SHA1Context :=
  if length = 0 then context
  else if context.computed then { context with corrupted := shaStateError }
  else if context.corrupted ≠ 0 then context
  else inputOwnLoop context 0 length

def SHA1Context.padTo (context : SHA1Context) (n : Nat) : SHA1Context :=
  { context with
    messageBlock := fill context.messageBlock context.messageBlockIndex 0 (n - context.messageBlockIndex)
    messageBlockIndex := max n context.messageBlockIndex }

def sha1PadMessage (context : SHA1Context) : SHA1Context :=
  let high := context.messageBlockIndex > 55
  let context := { context with
    messageBlock := Function.update context.messageBlock context.messageBlockIndex 0x80
    messageBlockIndex := context.messageBlockIndex + 1 }
  let context := if high then (context.padTo 64).processMessageBlock.padTo 56 else context.padTo 56
  SHA1Context.processMessageBlock { context with
    messageBlock := write context.messageBlock 56 (be32 context.lengthHigh ++ be32 context.lengthLow) }

def SHA1State.bytes (s : SHA1State) : List UInt8 := be32 s.a ++ be32 s.b ++ be32 s.c ++ be32 s.d ++ be32 s.e

/-- The digest, unless the context is corrupted. -/
def sha1Result (context : SHA1Context) : Option (List UInt8) × SHA1Context :=
  if context.corrupted ≠ 0 then (none, context)
  else
    let context := if context.computed then context
      else
        { sha1PadMessage context with
          messageBlock := fill (sha1PadMessage context).messageBlock 0 0 64
          lengthLow := 0
          lengthHigh := 0
          computed := true }
    (some context.intermediateHash.bytes, context)

/-! ## What is left over in the block -/

/-- The contexts differ at most in the block from the index on. -/
structure Same (c c' : SHA1Context) : Prop where
  hash : c.intermediateHash = c'.intermediateHash
  low : c.lengthLow = c'.lengthLow
  high : c.lengthHigh = c'.lengthHigh
  index : c.messageBlockIndex = c'.messageBlockIndex
  computed : c.computed = c'.computed
  corrupted : c.corrupted = c'.corrupted
  block : ∀ i, i < c.messageBlockIndex → c.messageBlock i = c'.messageBlock i

section
variable {c c' : SHA1Context}

/-- A full block goes into the hash. -/
theorem same_process (hhash : c.intermediateHash = c'.intermediateHash)
    (hlow : c.lengthLow = c'.lengthLow) (hhigh : c.lengthHigh = c'.lengthHigh)
    (hcomputed : c.computed = c'.computed) (hcorrupted : c.corrupted = c'.corrupted)
    (hblock : ∀ i, i < 64 → c.messageBlock i = c'.messageBlock i) :
    Same c.processMessageBlock c'.processMessageBlock := by
  have hread : read c.messageBlock 0 64 = read c'.messageBlock 0 64 :=
    (read_eq_iff _ _ _ _ _).2 fun i hi => hblock _ (by omega)
  -- with the fields apart nothing of the hash is computed in comparing the others
  obtain ⟨hash, low, high, index, block, computed, corrupted⟩ := c
  obtain ⟨hash', low', high', index', block', computed', corrupted'⟩ := c'
  refine ⟨?_, hlow, hhigh, rfl, hcomputed, hcorrupted, fun _ h => absurd h (Nat.not_lt_zero _)⟩
  show sha1ProcessMessageBlock _ _ = sha1ProcessMessageBlock _ _
  rw [hhash, hread]

theorem Same.update (h : Same c c') (b : UInt8) (i : Nat) (hi : i < c.messageBlockIndex + 1) :
    Function.update c.messageBlock c.messageBlockIndex b i =
      Function.update c'.messageBlock c'.messageBlockIndex b i := by
  rw [← h.index]
  by_cases hib : i = c.messageBlockIndex
  · rw [hib, Function.update_self, Function.update_self]
  · rw [Function.update_of_ne hib, Function.update_of_ne hib]
    exact h.block i (by omega)

theorem Same.putByte (h : Same c c') (b : UInt8) : Same (c.putByte b) (c'.putByte b) := by
  have hblock := h.update b
  unfold SHA1Context.putByte
  simp only
  rw [← h.index, ← h.low, ← h.high, ← h.corrupted] at *
  split
  · refine same_process h.hash rfl rfl h.computed rfl fun i hi => hblock i (by omega)
  · exact ⟨h.hash, rfl, rfl, rfl, h.computed, rfl, hblock⟩

theorem Same.inputLoop (h : Same c c') (message : List UInt8) :
    Same (inputLoop c message) (inputLoop c' message) := by
  induction message generalizing c c' with
  | nil => exact h
  | cons b message ih =>
    unfold Lib.inputLoop
    rw [← h.corrupted]
    split
    · exact h
    · exact ih (h.putByte b)

/-- A message taken in. -/
theorem Same.input (h : Same c c') (message : List UInt8) :
    Same (sha1Input c message) (sha1Input c' message) := by
  unfold sha1Input
  rw [← h.computed, ← h.corrupted]
  split
  · exact h
  · split
    · exact ⟨h.hash, h.low, h.high, h.index, rfl, rfl, h.block⟩
    · split
      · exact h
      · exact h.inputLoop message

theorem Same.padTo (h : Same c c') (n : Nat) : Same (c.padTo n) (c'.padTo n) := by
  refine ⟨h.hash, h.low, h.high, ?_, h.computed, h.corrupted, fun i hi => ?_⟩
  · show max n c.messageBlockIndex = max n c'.messageBlockIndex
    rw [h.index]
  · have hi : i < max n c.messageBlockIndex := hi
    show fill c.messageBlock c.messageBlockIndex 0 (n - c.messageBlockIndex) i =
      fill c'.messageBlock c'.messageBlockIndex 0 (n - c'.messageBlockIndex) i
    rw [← h.index]
    by_cases hlt : i < c.messageBlockIndex
    · rw [fill_of_outside _ _ _ _ _ (.inl hlt), fill_of_outside _ _ _ _ _ (.inl hlt)]
      exact h.block i hlt
    · rw [fill_apply _ _ _ _ _ (by omega), fill_apply _ _ _ _ _ (by omega)]

theorem Same.process (h : Same c c') (hfull : 64 ≤ c.messageBlockIndex) :
    Same c.processMessageBlock c'.processMessageBlock :=
  same_process h.hash h.low h.high h.computed h.corrupted fun i hi => h.block i (by omega)

/-- The bytes of the length end the last block. -/
theorem Same.finish (h : Same c c') (hfull : 56 ≤ c.messageBlockIndex) :
    Same
      (SHA1Context.processMessageBlock { c with
        messageBlock := write c.messageBlock 56 (be32 c.lengthHigh ++ be32 c.lengthLow) })
      (SHA1Context.processMessageBlock { c' with
        messageBlock := write c'.messageBlock 56 (be32 c'.lengthHigh ++ be32 c'.lengthLow) }) := by
  refine same_process h.hash h.low h.high h.computed h.corrupted fun i hi => ?_
  simp only
  rw [← h.high, ← h.low]
  have hlen : (be32 c.lengthHigh ++ be32 c.lengthLow).length = 8 := rfl
  by_cases hlt : i < 56
  · rw [write_of_lt _ _ _ _ hlt, write_of_lt _ _ _ _ hlt]
    exact h.block i (by omega)
  · obtain ⟨k, rfl⟩ := Nat.exists_eq_add_of_le (Nat.not_lt.1 hlt)
    rw [write_apply _ _ _ _ (by omega), write_apply _ _ _ _ (by omega)]

theorem Same.padMessage (h : Same c c') : Same (sha1PadMessage c) (sha1PadMessage c') := by
  have hput : Same
      { c with
        messageBlock := Function.update c.messageBlock c.messageBlockIndex 0x80
        messageBlockIndex := c.messageBlockIndex + 1 }
      { c' with
        messageBlock := Function.update c'.messageBlock c'.messageBlockIndex 0x80
        messageBlockIndex := c'.messageBlockIndex + 1 } :=
    ⟨h.hash, h.low, h.high, congrArg (· + 1) h.index, h.computed, h.corrupted, h.update 0x80⟩
  unfold sha1PadMessage
  simp only
  rw [← h.index] at hput ⊢
  split
  · refine (((hput.padTo 64).process (Nat.le_max_left _ _)).padTo 56).finish (Nat.le_max_left _ _)
  · exact (hput.padTo 56).finish (Nat.le_max_left _ _)

/-- The digest is the same, and nothing of the message is left. -/
theorem Same.result (h : Same c c') : (sha1Result c).1 = (sha1Result c').1 ∧
    Same (sha1Result c).2 (sha1Result c').2 := by
  unfold sha1Result
  rw [← h.corrupted, ← h.computed]
  split
  · exact ⟨rfl, h⟩
  split
  · exact ⟨congrArg (some ·.bytes) h.hash, h⟩
  · have hpad := h.padMessage
    refine ⟨congrArg (some ·.bytes) hpad.hash,
      ⟨hpad.hash, rfl, rfl, hpad.index, rfl, hpad.corrupted, fun i hi => ?_⟩⟩
    show fill (sha1PadMessage c).messageBlock 0 0 64 i = fill (sha1PadMessage c').messageBlock 0 0 64 i
    by_cases h64 : i < 64
    · rw [fill_apply _ _ _ _ _ (by omega), fill_apply _ _ _ _ _ (by omega)]
    · rw [fill_of_outside _ _ _ _ _ (by omega), fill_of_outside _ _ _ _ _ (by omega)]
      exact hpad.block i hi

/-! ## A message in the context's own block -/

/-- Storing back the bytes read changes nothing, so the loop takes in what lies there. -/
theorem inputOwnLoop_eq : ∀ (n i : Nat) (c : SHA1Context), c.messageBlockIndex = i → i + n < 64 →
    inputOwnLoop c i n = inputLoop c (read c.messageBlock i n) := by
  intro n
  induction n with
  | zero => exact fun _ _ _ _ => rfl
  | succ n ih =>
    intro i c hc hin
    rw [read_succ]
    unfold inputOwnLoop inputLoop
    split
    · rfl
    · have hblock : (c.putByte (c.messageBlock i)).messageBlock = c.messageBlock ∧
          (c.putByte (c.messageBlock i)).messageBlockIndex = i + 1 := by
        unfold SHA1Context.putByte
        simp only [hc]
        rw [if_neg (by omega)]
        exact ⟨Function.update_eq_self i c.messageBlock, rfl⟩
      rw [ih (i + 1) _ hblock.2 (by omega), hblock.1]

theorem sha1InputOwn_eq {n : Nat} (hc : c.messageBlockIndex = 0) (hn : n < 64) :
    sha1InputOwn c n = sha1Input c (read c.messageBlock 0 n) := by
  have hnil : read c.messageBlock 0 n = [] ↔ n = 0 := by
    rw [← List.length_eq_zero_iff, length_read]
  unfold sha1InputOwn sha1Input
  simp only [hnil]
  rw [inputOwnLoop_eq n 0 c hc (by omega)]

/-! ## Messages that are not too long -/

/-- The counter stands at `n` bytes, and the digest is not made yet. -/
structure Taking (c : SHA1Context) (n : Nat) : Prop where
  low : c.lengthLow.toNat = 8 * n
  computed : c.computed = false
  corrupted : c.corrupted = 0

theorem Taking.putByte {n : Nat} (h : Taking c n) (hn : 8 * (n + 1) < 2 ^ 32) (b : UInt8) :
    Taking (c.putByte b) (n + 1) := by
  obtain ⟨hlow, hcomputed, hcorrupted⟩ := h
  have hnext : (c.lengthLow + 8).toNat = 8 * (n + 1) := by
    rw [UInt32.toNat_add, hlow]
    show (8 * n + 8) % 2 ^ 32 = _
    omega
  have hzero : ¬ (c.lengthLow + 8 = 0) := fun h => by
    rw [h] at hnext
    exact absurd hnext.symm (Nat.succ_ne_zero _)
  obtain ⟨hash, low, high, index, block, computed, corrupted⟩ := c
  unfold SHA1Context.putByte
  simp only at hcomputed hcorrupted hnext hzero ⊢
  rw [if_neg (not_and_of_not_left _ hzero)]
  split
  · exact ⟨hnext, hcomputed, hcorrupted⟩
  · exact ⟨hnext, hcomputed, hcorrupted⟩

theorem Taking.inputLoop {n : Nat} (h : Taking c n) (message : List UInt8)
    (hn : 8 * (n + message.length) < 2 ^ 32) :
    Taking (Lib.inputLoop c message) (n + message.length) := by
  induction message generalizing c n with
  | nil => exact h
  | cons b message ih =>
    rw [List.length_cons] at hn ⊢
    unfold Lib.inputLoop
    rw [if_neg (not_not.2 h.corrupted), show n + (message.length + 1) = n + 1 + message.length by omega]
    exact ih (h.putByte (by omega) b) (by omega)

theorem Taking.input {n : Nat} (h : Taking c n) (message : List UInt8)
    (hn : 8 * (n + message.length) < 2 ^ 32) :
    Taking (sha1Input c message) (n + message.length) := by
  unfold sha1Input
  split
  · rename_i hnil
    rw [hnil]
    exact h
  · rw [h.computed, if_neg Bool.false_ne_true, if_neg (not_not.2 h.corrupted)]
    exact h.inputLoop message hn

theorem length_bytes (s : SHA1State) : s.bytes.length = 20 := rfl

theorem Taking.result {n : Nat} (h : Taking c n) :
    ∃ digest, (sha1Result c).1 = some digest ∧ digest.length = 20 := by
  unfold sha1Result
  rw [if_neg (not_not.2 h.corrupted)]
  exact ⟨_, rfl, length_bytes _⟩

end

end Gentoox.Lib
