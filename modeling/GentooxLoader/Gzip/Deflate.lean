import GentooxLoader.Base.PrefixCodes

/-!
# What a deflated stream stands for (lib/gzip/inflate.c)

The format that the comments of the source describe: blocks of literals and of
pairs of a length and a distance, each a Huffman code and extra bits, with the
codes given by their lengths.  A stream is a number whose lowest bit is the
first; `Stream` relates the bits from one position to another to the bytes that
they add.  Nothing of the decoder's tables and buffers is in it.

    copyBack_add    a copy in two parts
    Stream.grows    the bytes before stay
-/

namespace Gentoox.Gzip

open PrefixCodes

/-! ## Tables for deflate -/

/-- Order of the bit length code lengths. -/
def border : List Nat := [16, 17, 18, 0, 8, 7, 9, 6, 10, 5, 11, 4, 12, 3, 13, 2, 14, 1, 15]

/-- Copy lengths for literal codes 257..285. -/
def cplens : List Nat :=
  [3, 4, 5, 6, 7, 8, 9, 10, 11, 13, 15, 17, 19, 23, 27, 31,
    35, 43, 51, 59, 67, 83, 99, 115, 131, 163, 195, 227, 258, 0, 0]

/-- Extra bits for literal codes 257..285; 99 is invalid. -/
def cplext : List Nat :=
  [0, 0, 0, 0, 0, 0, 0, 0, 1, 1, 1, 1, 2, 2, 2, 2,
    3, 3, 3, 3, 4, 4, 4, 4, 5, 5, 5, 5, 0, 99, 99]

/-- Copy offsets for distance codes 0..29. -/
def cpdist : List Nat :=
  [1, 2, 3, 4, 5, 7, 9, 13, 17, 25, 33, 49, 65, 97, 129, 193,
    257, 385, 513, 769, 1025, 1537, 2049, 3073, 4097, 6145,
    8193, 12289, 16385, 24577]

/-- Extra bits for distance codes. -/
def cpdext : List Nat :=
  [0, 0, 0, 0, 1, 1, 2, 2, 3, 3, 4, 4, 5, 5, 6, 6,
    7, 7, 8, 8, 9, 9, 10, 10, 11, 11,
    12, 12, 13, 13]

/-! ## Codes -/

/-- Bytes as one number, the first one lowest. -/
def streamOf : List UInt8 → Nat
  | [] => 0
  | c :: inp => c.toNat + 256 * streamOf inp

/-- The stream from a bit on. -/
def bitsFrom (N pos : Nat) : Nat := N / 2 ^ pos

/-- So many bits of the stream as a number. -/
def bits (N pos n : Nat) : Nat := bitsFrom N pos % 2 ^ n

/-- `S` begins with the code of symbol `s`, which has `k` bits: codes of one length
are in the order of their symbols. -/
def Decodes (lens : List Nat) (S s k : Nat) : Prop :=
  lens[s]? = some k ∧ 0 < k ∧ Begins (used fun k => lens.count k) k ((lens.take s).count k) S

instance (lens : List Nat) (S s k : Nat) : Decidable (Decodes lens S s k) :=
  inferInstanceAs (Decidable (_ ∧ _ ∧ _))

/-- All data begin with one of the codes. -/
def Whole (lens : List Nat) : Prop := Complete (used fun k => lens.count k) 15

/-- The codes that a block may give: a complete set, one code of one bit, or none. -/
def Allowed (lens : List Nat) : Prop := Whole lens ∨ (∀ k ∈ lens, k ≤ 1) ∧ lens.count 1 ≤ 1

/-! ## Blocks -/

/-- `n` bytes more, each the one `dist` before it. -/
def copyBack (dist : Nat) : Nat → List UInt8 → List UInt8
  | 0, hist => hist
  | n + 1, hist => copyBack dist n (hist ++ [hist.getD (hist.length - dist) 0])

/-- The codes of a block up to the end-of-block code. -/
inductive Tokens (lit dist : List Nat) (N : Nat) : Nat → List UInt8 → Nat → List UInt8 → Prop
  | eob {pos k : Nat} {hist : List UInt8} (h : Decodes lit (bitsFrom N pos) 256 k) :
      Tokens lit dist N pos hist (pos + k) hist
  | literal {pos s k pos' : Nat} {hist hist' : List UInt8} (h : Decodes lit (bitsFrom N pos) s k)
      (hs : s < 256) (rest : Tokens lit dist N (pos + k) (hist ++ [UInt8.ofNat s]) pos' hist') :
      Tokens lit dist N pos hist pos' hist'
  | copy {pos i k p n j k' q δ pos' : Nat} {hist hist' : List UInt8}
      (h : Decodes lit (bitsFrom N pos) (257 + i) k) (hi : i < 29)
      (hn : n = cplens.getD i 0 + bits N (pos + k) (cplext.getD i 0))
      (hp : p = pos + k + cplext.getD i 0)
      (h' : Decodes dist (bitsFrom N p) j k') (hj : j < 30)
      (hδ : δ = cpdist.getD j 0 + bits N (p + k') (cpdext.getD j 0))
      (hq : q = p + k' + cpdext.getD j 0) (hfar : δ ≤ hist.length)
      (rest : Tokens lit dist N q (copyBack δ n hist) pos' hist') :
      Tokens lit dist N pos hist pos' hist'

/-- The code lengths of a dynamic block, read one after the other, `n` in all. -/
inductive Lengths (cl : List Nat) (N n : Nat) : Nat → List Nat → Nat → List Nat → Prop
  | done {pos : Nat} {ll : List Nat} (h : ll.length = n) : Lengths cl N n pos ll pos ll
  | length {pos s k pos' : Nat} {ll ll' : List Nat} (hlt : ll.length < n)
      (h : Decodes cl (bitsFrom N pos) s k) (hs : s < 16)
      (rest : Lengths cl N n (pos + k) (ll ++ [s]) pos' ll') : Lengths cl N n pos ll pos' ll'
  | again {pos k j pos' : Nat} {ll ll' : List Nat} (hlt : ll.length < n)
      (h : Decodes cl (bitsFrom N pos) 16 k) (hj : j = 3 + bits N (pos + k) 2)
      (hle : ll.length + j ≤ n)
      (rest : Lengths cl N n (pos + k + 2) (ll ++ List.replicate j (ll.getLastD 0)) pos' ll') :
      Lengths cl N n pos ll pos' ll'
  | zeros {pos s k j pos' extra base : Nat} {ll ll' : List Nat} (hlt : ll.length < n)
      (h : Decodes cl (bitsFrom N pos) s k)
      (hs : s = 17 ∧ extra = 3 ∧ base = 3 ∨ s = 18 ∧ extra = 7 ∧ base = 11)
      (hj : j = base + bits N (pos + k) extra) (hle : ll.length + j ≤ n)
      (rest : Lengths cl N n (pos + k + extra) (ll ++ List.replicate j 0) pos' ll') :
      Lengths cl N n pos ll pos' ll'

/-- The lengths of the bit length codes: `nb` are given, in the order of `border`. -/
def bitLengths (N pos nb : Nat) : List Nat :=
  (List.range 19).map fun s =>
    if border.idxOf s < nb then bits N (pos + 3 * border.idxOf s) 3 else 0

/-- The literal and length codes of a fixed block. -/
def fixedLit : List Nat :=
  List.replicate 144 8 ++ List.replicate 112 9 ++ List.replicate 24 7 ++ List.replicate 8 8

/-- The distance codes of a fixed block. -/
def fixedDist : List Nat := List.replicate 30 5

/-- The next byte boundary. -/
def aligned (pos : Nat) : Nat := (pos + 7) / 8 * 8

/-- A block behind its type. -/
inductive Block (N : Nat) : Nat → Nat → List UInt8 → Nat → List UInt8 → Prop
  | stored {pos n : Nat} {hist : List UInt8} (hn : n = bits N (aligned pos) 16)
      (hcomp : bits N (aligned pos + 16) 16 = 0xffff - n) :
      Block N 0 pos hist (aligned pos + 32 + 8 * n)
        (hist ++ (List.range n).map fun i => UInt8.ofNat (bits N (aligned pos + 32 + 8 * i) 8))
  | fixed {pos pos' : Nat} {hist hist' : List UInt8}
      (h : Tokens fixedLit fixedDist N pos hist pos' hist') : Block N 1 pos hist pos' hist'
  | dynamic {pos nl nd nb p pos' : Nat} {ll : List Nat} {hist hist' : List UInt8}
      (hnl : nl = 257 + bits N pos 5) (hnd : nd = 1 + bits N (pos + 5) 5)
      (hnb : nb = 4 + bits N (pos + 10) 4) (hmost : nl ≤ 286 ∧ nd ≤ 30)
      (hcl : Allowed (bitLengths N (pos + 14) nb))
      (hll : Lengths (bitLengths N (pos + 14) nb) N (nl + nd) (pos + 14 + 3 * nb) [] p ll)
      (hlit : Allowed (ll.take nl)) (hdist : Allowed (ll.drop nl))
      (h : Tokens (ll.take nl) (ll.drop nl) N p hist pos' hist') : Block N 2 pos hist pos' hist'

/-- Blocks up to one that says it is the last. -/
inductive Stream (N : Nat) : Nat → List UInt8 → Nat → List UInt8 → Prop
  | last {pos pos' : Nat} {hist hist' : List UInt8} (hlast : bits N pos 1 = 1)
      (h : Block N (bits N (pos + 1) 2) (pos + 3) hist pos' hist') : Stream N pos hist pos' hist'
  | more {pos p pos' : Nat} {hist hist₁ hist' : List UInt8} (hlast : bits N pos 1 = 0)
      (h : Block N (bits N (pos + 1) 2) (pos + 3) hist p hist₁) (rest : Stream N p hist₁ pos' hist') :
      Stream N pos hist pos' hist'

/-! ## Histories and positions -/

@[simp] theorem length_copyBack (dist n : Nat) (hist : List UInt8) :
    (copyBack dist n hist).length = hist.length + n := by
  induction n generalizing hist with
  | zero => rfl
  | succ n ih =>
    rw [copyBack, ih, List.length_append, List.length_singleton]
    omega

theorem copyBack_add (dist m n : Nat) (hist : List UInt8) :
    copyBack dist (m + n) hist = copyBack dist n (copyBack dist m hist) := by
  induction m generalizing hist with
  | zero => rw [Nat.zero_add, copyBack]
  | succ m ih => rw [Nat.succ_add, copyBack, ih, copyBack]

theorem prefix_copyBack (dist n : Nat) (hist : List UInt8) : hist <+: copyBack dist n hist := by
  induction n generalizing hist with
  | zero => exact List.prefix_rfl
  | succ n ih => exact (List.prefix_append _ _).trans (ih _)

/-- A block only adds bytes, and takes bits. -/
theorem Tokens.grows {lit dist : List Nat} {N pos pos' : Nat} {hist hist' : List UInt8}
    (h : Tokens lit dist N pos hist pos' hist') : hist <+: hist' ∧ pos < pos' := by
  induction h with
  | eob h =>
    refine ⟨List.prefix_rfl, ?_⟩
    have := h.2.1
    omega
  | literal h _ _ ih =>
    refine ⟨(List.prefix_append _ _).trans ih.1, ?_⟩
    have := h.2.1
    omega
  | copy h _ _ hp h' _ _ hq _ _ ih =>
    refine ⟨(prefix_copyBack _ _ _).trans ih.1, ?_⟩
    have := h.2.1
    have := h'.2.1
    omega

theorem Lengths.grows {cl : List Nat} {N n pos pos' : Nat} {ll ll' : List Nat}
    (h : Lengths cl N n pos ll pos' ll') : pos ≤ pos' ∧ ll'.length = n := by
  induction h with
  | done h => exact ⟨Nat.le_refl _, h⟩
  | length _ _ _ _ ih => exact ⟨by omega, ih.2⟩
  | again _ _ _ _ _ ih => exact ⟨by omega, ih.2⟩
  | zeros _ _ _ _ _ _ ih => exact ⟨by omega, ih.2⟩

/-- No length that is read is more than 15. -/
theorem Lengths.le {cl : List Nat} {N n pos pos' : Nat} {ll ll' : List Nat}
    (h : Lengths cl N n pos ll pos' ll') (hll : ∀ k ∈ ll, k ≤ 15) : ∀ k ∈ ll', k ≤ 15 := by
  induction h with
  | done => exact hll
  | length _ _ hs _ ih =>
    refine ih fun k hk => ?_
    rcases List.mem_append.1 hk with hk | hk
    · exact hll k hk
    · rw [List.mem_singleton.1 hk]
      omega
  | @again _ _ _ _ ll _ _ _ _ _ _ ih =>
    refine ih fun k hk => ?_
    rcases List.mem_append.1 hk with hk | hk
    · exact hll k hk
    · rw [List.eq_of_mem_replicate hk, List.getLastD_eq_getLast?]
      cases hlast : ll.getLast? with
      | none => exact Nat.zero_le 15
      | some x => exact hll x (List.mem_of_getLast? hlast)
  | zeros _ _ _ _ _ _ ih =>
    refine ih fun k hk => ?_
    rcases List.mem_append.1 hk with hk | hk
    · exact hll k hk
    · rw [List.eq_of_mem_replicate hk]
      exact Nat.zero_le 15

theorem le_aligned (pos : Nat) : pos ≤ aligned pos := by
  unfold aligned
  omega

theorem Block.grows {N t pos pos' : Nat} {hist hist' : List UInt8}
    (h : Block N t pos hist pos' hist') : hist <+: hist' ∧ pos < pos' := by
  cases h with
  | stored =>
    have := le_aligned pos
    exact ⟨List.prefix_append _ _, by omega⟩
  | fixed h => exact h.grows
  | dynamic _ _ _ _ _ hll _ _ h =>
    have := hll.grows.1
    have := h.grows
    exact ⟨this.1, by omega⟩

theorem Stream.grows {N pos pos' : Nat} {hist hist' : List UInt8}
    (h : Stream N pos hist pos' hist') : hist <+: hist' ∧ pos < pos' := by
  induction h with
  | last _ h =>
    have := h.grows
    exact ⟨this.1, by omega⟩
  | more _ h _ ih =>
    have := h.grows
    exact ⟨this.1.trans ih.1, by omega⟩

end Gentoox.Gzip
