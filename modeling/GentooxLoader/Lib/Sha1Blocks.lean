import GentooxLoader.Lib.Sha1

/-!
# A context and its message (lib/crypt/sha1.c)

What a context takes in piece by piece is the message in blocks of 64 bytes: the
full ones are in the hash, the rest is in the context's block, and the two
counters have the length, from where they were set.  At the end comes what
`padMessage` puts behind the message:

    Absorbed.putByte   one byte more
    Absorbed.result    the digest is that of the message in one piece
    Absorbed.overlong  a message that the counters have no room for: no digest,
                       and its last block is left over
    foldl_sha1Input    the pieces do not matter
-/

namespace Gentoox.Lib

open Cells

/-- SHA-1 from the state `s`, that `counted` bits went into before the message. -/
def sha1From (s : SHA1State) (counted : Nat) (message : List UInt8) : List UInt8 :=
  let bits := counted + message.length * 8
  let padded := padMessage message (be32 (UInt32.ofNat (bits / 2 ^ 32)) ++ be32 (UInt32.ofNat bits))
  (overBlocks sha1ProcessMessageBlock (padded.length / 64) s padded).bytes

theorem sha1_eq_sha1From (message : List UInt8) : (sha1 message).toList =
    sha1From ⟨0x67452301, 0xEFCDAB89, 0x98BADCFE, 0x10325476, 0xC3D2E1F0⟩ 0 message := by
  unfold sha1From
  rw [Nat.zero_add]
  rfl

/-! ## Blocks -/

section
variable {σ : Type} (block : σ → List UInt8 → σ)

theorem overBlocks_append {n : Nat} {message : List UInt8} (h : n * 64 ≤ message.length)
    (s : σ) (rest : List UInt8) :
    overBlocks block n s (message ++ rest) = overBlocks block n s message := by
  induction n generalizing s message with
  | zero => rfl
  | succ n ih =>
    unfold overBlocks
    rw [List.take_append_of_le_length (by omega), List.drop_append_of_le_length (by omega),
      ih (by rw [List.length_drop]; omega)]

theorem overBlocks_add (n k : Nat) (s : σ) (message : List UInt8) :
    overBlocks block (n + k) s message =
      overBlocks block k (overBlocks block n s message) (message.drop (n * 64)) := by
  induction n generalizing s message with
  | zero => rw [Nat.zero_add, Nat.zero_mul, List.drop_zero, overBlocks]
  | succ n ih =>
    rw [show n + 1 + k = n + k + 1 by omega, overBlocks, overBlocks, ih, List.drop_drop,
      show 64 + n * 64 = (n + 1) * 64 by omega]

/-- One block more, from a message with full blocks in front. -/
theorem overBlocks_succ {n : Nat} {message : List UInt8} {full : List UInt8}
    (hn : n * 64 ≤ message.length) (s : σ) (rest : List UInt8)
    (hfull : message.drop (n * 64) ++ rest = full) (hlen : full.length = 64) :
    overBlocks block (n + 1) s (message ++ rest) = block (overBlocks block n s message) full := by
  rw [overBlocks_add, overBlocks_append block hn, List.drop_append_of_le_length hn, hfull]
  show block _ (full.take 64) = _
  rw [List.take_of_length_le (by omega)]

end

/-! ## Taking in -/

/-- `message` went into `c`, from the state `s` and with `counted` bits before it. -/
structure Absorbed (s : SHA1State) (counted : Nat) (message : List UInt8) (c : SHA1Context) :
    Prop where
  hash : c.intermediateHash = overBlocks sha1ProcessMessageBlock (message.length / 64) s message
  index : c.messageBlockIndex = message.length % 64
  block : read c.messageBlock 0 (message.length % 64) = message.drop (message.length / 64 * 64)
  length : c.lengthHigh.toNat * 2 ^ 32 + c.lengthLow.toNat = counted + message.length * 8
  computed : c.computed = false
  corrupted : c.corrupted = 0

/-- Before the first byte. -/
theorem absorbed_nil {c : SHA1Context} {counted : Nat} (hindex : c.messageBlockIndex = 0)
    (hhigh : c.lengthHigh = 0) (hlow : c.lengthLow.toNat = counted) (hcomputed : c.computed = false)
    (hcorrupted : c.corrupted = 0) : Absorbed c.intermediateHash counted [] c := by
  refine ⟨?_, hindex, ?_, ?_, hcomputed, hcorrupted⟩
  · rw [List.length_nil, Nat.zero_div, overBlocks]
  · rw [List.length_nil, Nat.zero_mod, read_zero, List.drop_nil]
  · rw [hhigh, hlow, UInt32.toNat_zero, List.length_nil]
    omega

/-- What a byte does to the two counters. -/
def countByte (low high : UInt32) : UInt32 × UInt32 :=
  (low + 8, if low + 8 = 0 then high + 1 else high)

theorem countByte_toNat (low high : UInt32) (hlow : low.toNat % 8 = 0) :
    (countByte low high).2.toNat * 2 ^ 32 + (countByte low high).1.toNat =
      (high.toNat * 2 ^ 32 + low.toNat + 8) % 2 ^ 64 := by
  have := low.toNat_lt
  have := high.toNat_lt
  have hsum : (low + 8).toNat = (low.toNat + 8) % 2 ^ 32 := UInt32.toNat_add low 8
  unfold countByte
  simp only
  split
  · rename_i h0
    have hzero : (low + 8).toNat = 0 := by rw [h0]; rfl
    have hhigh : (high + 1).toNat = (high.toNat + 1) % 2 ^ 32 := UInt32.toNat_add high 1
    omega
  · rename_i h0
    have hne : (low + 8).toNat ≠ 0 := fun h => h0 (UInt32.toNat_inj.1 h)
    omega

section
variable {s : SHA1State} {counted : Nat} {message : List UInt8} {c : SHA1Context}

/-- The fields of a context after a byte that does not fill the block. -/
theorem putByte_inside (b : UInt8) (h : c.messageBlockIndex + 1 ≠ 64) : c.putByte b =
    { c with
      messageBlock := Function.update c.messageBlock c.messageBlockIndex b
      messageBlockIndex := c.messageBlockIndex + 1
      lengthLow := (countByte c.lengthLow c.lengthHigh).1
      lengthHigh := (countByte c.lengthLow c.lengthHigh).2
      corrupted := if (countByte c.lengthLow c.lengthHigh).1 = 0 ∧
        (countByte c.lengthLow c.lengthHigh).2 = 0 then 1 else c.corrupted } := by
  unfold SHA1Context.putByte
  simp only
  rw [if_neg h]
  rfl

theorem putByte_full (b : UInt8) (h : c.messageBlockIndex + 1 = 64) : c.putByte b =
    { c with
      intermediateHash := sha1ProcessMessageBlock c.intermediateHash
        (read (Function.update c.messageBlock c.messageBlockIndex b) 0 64)
      messageBlock := Function.update c.messageBlock c.messageBlockIndex b
      messageBlockIndex := 0
      lengthLow := (countByte c.lengthLow c.lengthHigh).1
      lengthHigh := (countByte c.lengthLow c.lengthHigh).2
      corrupted := if (countByte c.lengthLow c.lengthHigh).1 = 0 ∧
        (countByte c.lengthLow c.lengthHigh).2 = 0 then 1 else c.corrupted } := by
  unfold SHA1Context.putByte
  simp only
  rw [if_pos h]
  rfl

/-- The block with one byte more. -/
theorem Absorbed.block_snoc (h : Absorbed s counted message c) (b : UInt8) :
    read (Function.update c.messageBlock c.messageBlockIndex b) 0 (message.length % 64 + 1) =
      message.drop (message.length / 64 * 64) ++ [b] := by
  rw [read_add, read_update_of_outside (by rw [h.index]; omega), h.block, read_succ, h.index,
    Nat.zero_add, Function.update_self]
  rfl

/-- The counters have room for a byte more. -/
theorem Absorbed.countByte (h : Absorbed s counted message c) (hcounted : counted % 8 = 0)
    (hroom : counted + (message.length + 1) * 8 < 2 ^ 64) :
    (Lib.countByte c.lengthLow c.lengthHigh).2.toNat * 2 ^ 32 +
        (Lib.countByte c.lengthLow c.lengthHigh).1.toNat = counted + (message.length + 1) * 8 ∧
      ¬ ((Lib.countByte c.lengthLow c.lengthHigh).1 = 0 ∧
        (Lib.countByte c.lengthLow c.lengthHigh).2 = 0) := by
  have hlength := h.length
  have hlow : c.lengthLow.toNat % 8 = 0 := by omega
  have hsum := countByte_toNat c.lengthLow c.lengthHigh hlow
  rw [hlength, Nat.mod_eq_of_lt (by omega)] at hsum
  refine ⟨hsum.trans (by omega), fun ⟨hlow0, hhigh0⟩ => ?_⟩
  rw [hlow0, hhigh0, UInt32.toNat_zero] at hsum
  omega

/-- **One byte more.** -/
theorem Absorbed.putByte (h : Absorbed s counted message c) (hcounted : counted % 8 = 0)
    (hroom : counted + (message.length + 1) * 8 < 2 ^ 64) (b : UInt8) :
    Absorbed s counted (message ++ [b]) (c.putByte b) := by
  obtain ⟨hlength, hcorrupted⟩ := h.countByte hcounted hroom
  have hlen : (message ++ [b]).length = message.length + 1 := List.length_append
  have hblock := h.block_snoc b
  have hle : message.length / 64 * 64 ≤ message.length := Nat.div_mul_le_self _ _
  by_cases hfull : c.messageBlockIndex + 1 = 64
  · -- the block goes into the hash
    have hmod : message.length % 64 = 63 := by
      rw [← h.index]
      omega
    rw [hmod] at hblock
    rw [putByte_full b hfull]
    refine ⟨?_, ?_, ?_, ?_, h.computed, ?_⟩
    · have hblocklen :
          (read (Function.update c.messageBlock c.messageBlockIndex b) 0 64).length = 64 :=
        length_read _ _ _
      show sha1ProcessMessageBlock _ _ = _
      rw [hlen, show (message.length + 1) / 64 = message.length / 64 + 1 by omega, h.hash,
        overBlocks_succ sha1ProcessMessageBlock hle s [b] hblock.symm hblocklen]
    · show 0 = _
      omega
    · rw [hlen, show (message.length + 1) % 64 = 0 by omega, read_zero,
        List.drop_eq_nil_of_le (by omega)]
    · rw [hlen]
      exact hlength
    · exact (if_neg hcorrupted).trans h.corrupted
  · have hmod : message.length % 64 < 63 := by
      have := h.index
      omega
    rw [putByte_inside b hfull]
    refine ⟨?_, ?_, ?_, ?_, h.computed, ?_⟩
    · show c.intermediateHash = _
      rw [hlen, show (message.length + 1) / 64 = message.length / 64 by omega,
        overBlocks_append _ hle]
      exact h.hash
    · show c.messageBlockIndex + 1 = _
      rw [h.index]
      omega
    · rw [hlen, show (message.length + 1) % 64 = message.length % 64 + 1 by omega,
        show (message.length + 1) / 64 = message.length / 64 by omega,
        List.drop_append_of_le_length hle]
      exact hblock
    · rw [hlen]
      exact hlength
    · exact (if_neg hcorrupted).trans h.corrupted

theorem Absorbed.inputLoop (hcounted : counted % 8 = 0) (rest : List UInt8) :
    ∀ {message : List UInt8} {c : SHA1Context}, Absorbed s counted message c →
    counted + (message.length + rest.length) * 8 < 2 ^ 64 →
    Absorbed s counted (message ++ rest) (Lib.inputLoop c rest) := by
  induction rest with
  | nil =>
    intro message c h _
    rw [List.append_nil]
    exact h
  | cons b rest ih =>
    intro message c h hroom
    rw [List.length_cons] at hroom
    unfold Lib.inputLoop
    rw [if_neg (not_not.2 h.corrupted), ← List.singleton_append, ← List.append_assoc]
    refine ih (h.putByte hcounted (by omega) b) ?_
    rw [List.length_append, List.length_singleton]
    omega

/-! ## What is put behind the message -/

theorem read_write_from {m : Nat → UInt8} {r n : Nat} {l : List UInt8} (h : r + l.length = n) :
    read (write m r l) 0 n = read m 0 r ++ l := by
  rw [← h, read_add, Nat.zero_add, read_write, read_write_of_outside _ _ _ _ _ (.inl (by omega))]

theorem write_write {m : Nat → UInt8} {r a : Nat} {l l' : List UInt8} (h : r + l.length = a) :
    write (write m r l) a l' = write m r (l ++ l') := by
  rw [← h, write_append]

/-- The byte 0x80 and the zeros up to `n`. -/
theorem padded_block (m : Nat → UInt8) (r n : Nat) :
    fill (Function.update m r 0x80) (r + 1) 0 (n - (r + 1)) =
      write m r (0x80 :: List.replicate (n - (r + 1)) 0) := by
  rw [fill_eq_write, write_cons]

/-- The counters are the length in bits. -/
theorem Absorbed.bits (h : Absorbed s counted message c) :
    be32 c.lengthHigh ++ be32 c.lengthLow =
      be32 (UInt32.ofNat ((counted + message.length * 8) / 2 ^ 32)) ++
        be32 (UInt32.ofNat (counted + message.length * 8)) := by
  have hlow := c.lengthLow.toNat_lt
  have hhigh := c.lengthHigh.toNat_lt
  have h1 : UInt32.ofNat ((counted + message.length * 8) / 2 ^ 32) = c.lengthHigh := by
    apply UInt32.toNat_inj.1
    rw [← h.length, UInt32.toNat_ofNat']
    omega
  have h2 : UInt32.ofNat (counted + message.length * 8) = c.lengthLow := by
    apply UInt32.toNat_inj.1
    rw [← h.length, UInt32.toNat_ofNat']
    omega
  rw [h1, h2]

/-- The hash of a context that is padded within its block. -/
theorem padMessage_low (h : c.messageBlockIndex ≤ 55) : (sha1PadMessage c).intermediateHash =
    sha1ProcessMessageBlock c.intermediateHash (read c.messageBlock 0 c.messageBlockIndex ++
      (0x80 :: List.replicate (55 - c.messageBlockIndex) 0 ++
        (be32 c.lengthHigh ++ be32 c.lengthLow))) := by
  have hbits : (be32 c.lengthHigh ++ be32 c.lengthLow).length = 8 := rfl
  obtain ⟨hash, low, high, index, block, computed, corrupted⟩ := c
  simp only at h hbits ⊢
  have hpad : (0x80 :: List.replicate (56 - (index + 1)) (0 : UInt8)).length = 56 - index := by
    rw [List.length_cons, List.length_replicate]
    omega
  unfold sha1PadMessage
  simp only
  rw [if_neg (by omega)]
  show sha1ProcessMessageBlock hash (read (write
    (fill (Function.update block index 0x80) (index + 1) 0 (56 - (index + 1))) 56
      (be32 high ++ be32 low)) 0 64) = _
  rw [padded_block, write_write (by omega), read_write_from (by rw [List.length_append]; omega),
    show 56 - (index + 1) = 55 - index by omega]

/-- The hash of a context whose padding needs a block more. -/
theorem padMessage_high (h : 55 < c.messageBlockIndex) (h64 : c.messageBlockIndex < 64) :
    (sha1PadMessage c).intermediateHash =
      sha1ProcessMessageBlock (sha1ProcessMessageBlock c.intermediateHash
        (read c.messageBlock 0 c.messageBlockIndex ++
          (0x80 :: List.replicate (63 - c.messageBlockIndex) 0)))
        (List.replicate 56 0 ++ (be32 c.lengthHigh ++ be32 c.lengthLow)) := by
  have hbits : (be32 c.lengthHigh ++ be32 c.lengthLow).length = 8 := rfl
  obtain ⟨hash, low, high, index, block, computed, corrupted⟩ := c
  simp only at h h64 hbits ⊢
  have hpad : (0x80 :: List.replicate (64 - (index + 1)) (0 : UInt8)).length = 64 - index := by
    rw [List.length_cons, List.length_replicate]
    omega
  have hmax : max 64 (index + 1) = 64 := by omega
  unfold sha1PadMessage
  simp only
  rw [if_pos h]
  show sha1ProcessMessageBlock (sha1ProcessMessageBlock hash (read
    (fill (Function.update block index 0x80) (index + 1) 0 (64 - (index + 1))) 0 64))
    (read (write (fill _ 0 0 (56 - 0)) 56 (be32 high ++ be32 low)) 0 64) = _
  rw [padded_block, read_write_from (by omega), fill_eq_write,
    write_write (by rw [List.length_replicate]), read_write_from
      (by rw [List.length_append, List.length_replicate]; omega), read_zero, List.nil_append,
    show 64 - (index + 1) = 63 - index by omega]

/-- A rest of up to 55 bytes is padded to one block. -/
theorem Absorbed.padded_low (h : Absorbed s counted message c) (hshort : message.length % 64 ≤ 55) :
    (sha1PadMessage c).intermediateHash.bytes = sha1From s counted message := by
  have hindex := h.index
  have hblock := h.block
  have hlen8 : (be32 c.lengthHigh ++ be32 c.lengthLow).length = 8 := rfl
  have hle : message.length / 64 * 64 ≤ message.length := Nat.div_mul_le_self _ _
  unfold sha1From padMessage
  simp only
  rw [← h.bits, List.append_assoc]
  rw [← hindex] at hblock
  rw [padMessage_low (by omega), hblock, h.hash, hindex,
    show (119 - message.length % 64) % 64 = 55 - message.length % 64 by omega]
  generalize hlast : 0x80 :: List.replicate (55 - message.length % 64) (0 : UInt8) ++
    (be32 c.lengthHigh ++ be32 c.lengthLow) = last
  have hlastlen : last.length = 64 - message.length % 64 := by
    rw [← hlast, List.length_append, List.length_cons, List.length_replicate, hlen8]
    omega
  rw [List.length_append, hlastlen,
    show (message.length + (64 - message.length % 64)) / 64 = message.length / 64 + 1 by omega,
    overBlocks_succ sha1ProcessMessageBlock hle s last rfl
      (by rw [List.length_append, List.length_drop]; omega)]

/-- A longer one to two. -/
theorem Absorbed.padded_high (h : Absorbed s counted message c) (hlong : 55 < message.length % 64) :
    (sha1PadMessage c).intermediateHash.bytes = sha1From s counted message := by
  have hindex := h.index
  have hblock := h.block
  have hlen8 : (be32 c.lengthHigh ++ be32 c.lengthLow).length = 8 := rfl
  have hle : message.length / 64 * 64 ≤ message.length := Nat.div_mul_le_self _ _
  unfold sha1From padMessage
  simp only
  rw [← h.bits, List.append_assoc]
  rw [← hindex] at hblock
  rw [padMessage_high (by omega) (by omega), hblock, h.hash, hindex]
  -- the zeros in two parts, up to the end of this block and from there on
  have hzeros : List.replicate ((119 - message.length % 64) % 64) (0 : UInt8) =
      List.replicate (63 - message.length % 64) 0 ++ List.replicate 56 0 := by
    rw [List.replicate_append_replicate]
    congr 1
    omega
  generalize hfirst : 0x80 :: List.replicate (63 - message.length % 64) (0 : UInt8) = first
  have hfirstlen : first.length = 64 - message.length % 64 := by
    rw [← hfirst, List.length_cons, List.length_replicate]
    omega
  have hsecond : (List.replicate 56 (0 : UInt8) ++
      (be32 c.lengthHigh ++ be32 c.lengthLow)).length = 64 := by
    rw [List.length_append, List.length_replicate, hlen8]
  have hfull : (message ++ first).length = (message.length / 64 + 1) * 64 := by
    rw [List.length_append]
    omega
  rw [hzeros, ← List.cons_append, hfirst, List.append_assoc, ← List.append_assoc message,
    List.length_append, hfull, hsecond,
    show ((message.length / 64 + 1) * 64 + 64) / 64 = message.length / 64 + 1 + 1 by omega,
    overBlocks_succ sha1ProcessMessageBlock hfull.ge s _
      (by rw [List.drop_eq_nil_of_le hfull.le, List.nil_append]) hsecond,
    overBlocks_succ sha1ProcessMessageBlock hle s first rfl
      (by rw [List.length_append, List.length_drop]; omega)]

/-- **The digest.** -/
theorem Absorbed.result (h : Absorbed s counted message c) :
    (sha1Result c).1 = some (sha1From s counted message) := by
  have hpadded : (sha1PadMessage c).intermediateHash.bytes = sha1From s counted message := by
    rcases Nat.lt_or_ge 55 (message.length % 64) with hlong | hshort
    · exact h.padded_high hlong
    · exact h.padded_low hshort
  unfold sha1Result
  rw [if_neg (not_not.2 h.corrupted), if_neg (by rw [h.computed]; exact Bool.false_ne_true)]
  exact congrArg some hpadded

/-! ## No room in the counters -/

theorem inputLoop_corrupted (h : c.corrupted ≠ 0) (message : List UInt8) :
    Lib.inputLoop c message = c := by
  cases message with
  | nil => rfl
  | cons b message =>
    unfold Lib.inputLoop
    rw [if_pos h]

theorem inputLoop_append (c : SHA1Context) (message rest : List UInt8) :
    Lib.inputLoop c (message ++ rest) = Lib.inputLoop (Lib.inputLoop c message) rest := by
  induction message generalizing c with
  | nil => rfl
  | cons b message ih =>
    by_cases h : c.corrupted ≠ 0
    · rw [inputLoop_corrupted h, inputLoop_corrupted h, inputLoop_corrupted h]
    · rw [List.cons_append, Lib.inputLoop, if_neg h, ih, Lib.inputLoop, if_neg h]

/-- The byte that takes the counters round to zero fills a block too. -/
theorem Absorbed.overflow (h : Absorbed s counted message c) (hcounted : counted % 512 = 0)
    (hover : counted + (message.length + 1) * 8 = 2 ^ 64) (b : UInt8) :
    (c.putByte b).corrupted ≠ 0 ∧
      read (c.putByte b).messageBlock 0 64 = message.drop (message.length / 64 * 64) ++ [b] := by
  have hlength := h.length
  have hlow : c.lengthLow.toNat % 8 = 0 := by omega
  have hsum := countByte_toNat c.lengthLow c.lengthHigh hlow
  rw [hlength, show counted + message.length * 8 + 8 = 2 ^ 64 by omega, Nat.mod_self] at hsum
  have hzero : (Lib.countByte c.lengthLow c.lengthHigh).1 = 0 ∧
      (Lib.countByte c.lengthLow c.lengthHigh).2 = 0 := by
    refine ⟨UInt32.toNat_inj.1 ?_, UInt32.toNat_inj.1 ?_⟩ <;> rw [UInt32.toNat_zero] <;> omega
  have hmod : message.length % 64 = 63 := by omega
  have hfull : c.messageBlockIndex + 1 = 64 := by rw [h.index, hmod]
  have hblock := h.block_snoc b
  rw [hmod] at hblock
  rw [putByte_full b hfull]
  refine ⟨?_, hblock⟩
  show (if _ then 1 else _) ≠ 0
  rw [if_pos hzero]
  exact Nat.one_ne_zero

/-- **Too long.**  Of `k` bytes more than the counters have room for, the last
64 are left in the block. -/
theorem Absorbed.overlong (h : Absorbed s counted [] c) (hcounted : counted % 512 = 0) {k : Nat}
    (hk : counted + (k + 1) * 8 = 2 ^ 64) (hlen : k + 1 ≤ message.length) :
    (Lib.inputLoop c message).corrupted ≠ 0 ∧
      read (Lib.inputLoop c message).messageBlock 0 64 =
        (message.take (k + 1)).drop (k / 64 * 64) := by
  have htake : message.take (k + 1) = message.take k ++ [message[k]] :=
    List.take_succ_eq_append_getElem hlen
  have hsplit : message = message.take k ++ message[k] :: message.drop (k + 1) := by
    rw [← List.drop_eq_getElem_cons, List.take_append_drop]
  have hfront : (message.take k).length = k := List.length_take_of_le (by omega)
  have habsorbed := h.inputLoop (by omega) (message.take k) (by
    rw [hfront, List.length_nil]
    omega)
  rw [List.nil_append] at habsorbed
  obtain ⟨hcorrupted, hblock⟩ := habsorbed.overflow hcounted (by rw [hfront]; exact hk) message[k]
  have hloop : Lib.inputLoop c message =
      (Lib.inputLoop c (message.take k)).putByte message[k] := by
    conv_lhs => rw [hsplit]
    rw [inputLoop_append, Lib.inputLoop, if_neg (not_not.2 habsorbed.corrupted),
      inputLoop_corrupted hcorrupted]
  rw [hloop, htake]
  refine ⟨hcorrupted, ?_⟩
  rw [hblock, hfront, List.drop_append_of_le_length (by rw [hfront]; exact Nat.div_mul_le_self _ _)]

/-! ## Pieces -/

theorem inputLoop_computed (c : SHA1Context) (message : List UInt8) :
    (Lib.inputLoop c message).computed = c.computed := by
  induction message generalizing c with
  | nil => rfl
  | cons b message ih =>
    have hbyte : (c.putByte b).computed = c.computed := by
      by_cases hfull : c.messageBlockIndex + 1 = 64
      · rw [putByte_full b hfull]
      · rw [putByte_inside b hfull]
    unfold Lib.inputLoop
    split
    · rfl
    · rw [ih, hbyte]

theorem sha1Input_eq_loop (h : c.computed = false) (message : List UInt8) :
    sha1Input c message = Lib.inputLoop c message := by
  unfold sha1Input
  rw [h, if_neg Bool.false_ne_true]
  split
  · rename_i hnil
    rw [hnil]
    rfl
  · split
    · rename_i hcorrupted
      exact (inputLoop_corrupted hcorrupted message).symm
    · rfl

/-- It does not matter how the message is cut. -/
theorem foldl_sha1Input (h : c.computed = false) (texts : List (List UInt8)) :
    texts.foldl sha1Input c = Lib.inputLoop c texts.flatten := by
  induction texts generalizing c with
  | nil => rfl
  | cons text texts ih =>
    rw [List.foldl_cons, sha1Input_eq_loop h, List.flatten_cons, inputLoop_append]
    exact ih ((inputLoop_computed c text).trans h)

end

end Gentoox.Lib
