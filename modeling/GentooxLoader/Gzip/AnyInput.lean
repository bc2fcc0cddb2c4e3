import GentooxLoader.Base.Outcomes
import GentooxLoader.Gzip.Gunzip

/-!
# Data that are not a compressed file (lib/gzip/inflate.c, lib/gzip/misc.c)

Whatever the input is, and whatever an entry holds that no code of an incomplete
set has filled in: nothing is written behind the window, and `decompress_kernel`
comes back only with output that the last eight bytes it read are the check and
the length of.

    Written.copyLoop        a copy stays in the window
    inflateCodes_written    the codes of a block
    inflate_written         all blocks
    decompressKernel_sound  what came back is what was checked
-/

namespace Gentoox.Gzip

open Cells Outcomes

/-- What is written is in the window, or counted and checked; some of the input was read. -/
structure Written (inp : List UInt8) (window : Nat → UInt8) (s : Globals) : Prop where
  size : s.insize = inp.length
  cnt : s.outcnt < wsize
  outside : ∀ a, wsize ≤ a → s.window a = window a
  crc : s.crc = s.output.foldl crcNext crcStart
  bytes : s.bytesOut = s.output.length % 2 ^ 32

section
variable {inp : List UInt8} {window : Nat → UInt8} {junk : Heap → Junk} {s : Globals}

/-! ## Input -/

theorem Written.sameOut {s' : Globals} (h : Written inp window s) (hs : SameOut s s')
    (hsize : s'.insize = inp.length) : Written inp window s' := by
  obtain ⟨h1, h2, h3, h4, h5, -⟩ := hs
  refine ⟨hsize, h1 ▸ h.cnt, ?_, ?_, ?_⟩
  · rw [h2]
    exact h.outside
  · rw [h4, h3, h.crc]
  · rw [h5, h3, h.bytes]

/-- The input is not begun again. -/
theorem Written.getByte (h : Written inp window s) (hne : inp ≠ []) :
    Ensures (fun r : UInt8 × Globals => s.inptr < inp.length ∧ r.1 = inp.getD s.inptr 0 ∧
      r.2 = { s with inptr := s.inptr + 1 }) (Gzip.getByte inp s) := by
  have hpos := List.length_pos_iff.2 hne
  have hsize := h.size
  unfold Gzip.getByte fillInbuf
  refine .ite (fun hlt => .ok ⟨by omega, rfl, rfl⟩) fun _ => ?_
  rw [if_pos (by omega)]
  exact .error

theorem Written.dump (h : Written inp window s) (n : Nat) : Written inp window (Gzip.dump n s) :=
  h.sameOut .rfl h.size

theorem Written.needBits (h : Written inp window s) (hne : inp ≠ []) (n : Nat) :
    Ensures (Written inp window) (Gzip.needBits inp n s) := by
  induction hm : n - s.bk using Nat.strongRecOn generalizing s with
  | ind m ih =>
    rw [Gzip.needBits]
    refine .ite (fun hlt => (h.getByte hne).bind ?_) fun _ => .ok h
    rintro ⟨c, s'⟩ ⟨-, -, rfl⟩
    exact ih (n - (s.bk + 8)) (by omega) (h.sameOut .rfl h.size) rfl

theorem Written.takeBits (h : Written inp window s) (hne : inp ≠ []) (n : Nat) :
    Ensures (fun r : Nat × Globals => Written inp window r.2) (Gzip.takeBits inp n s) :=
  (h.needBits hne n).bind fun _ h' => .ok (h'.dump n)

theorem Written.follow (hne : inp ≠ []) {fuel : Nat} {r : Huft} (h : Written inp window s) :
    Ensures (fun p : Huft × Globals => Written inp window p.2) (Gzip.follow inp fuel r s) := by
  induction fuel generalizing r s with
  | zero => exact .error
  | succ fuel ih =>
    rw [Gzip.follow]
    refine .ite (fun _ => .ite (fun _ => .error) fun _ => ?_) fun _ => .ok (h.dump _)
    refine ((h.dump r.b).needBits hne _).bind fun s' h' => ?_
    cases r.v with
    | t t => exact ih h'
    | n n => exact .error

theorem Written.decode (h : Written inp window s) (hne : inp ≠ []) (t : Option Nat) (bl : Nat) :
    Ensures (fun p : Huft × Globals => Written inp window p.2) (Gzip.decode inp t bl s) := by
  refine (h.needBits hne bl).bind fun s' h' => ?_
  cases t with
  | none => exact .error
  | some t => exact h'.follow hne

/-! ## Output -/

theorem Written.flushWindow (h : Written inp window { s with outcnt := 0 }) :
    Written inp window (Gzip.flushWindow s) := by
  refine ⟨h.size, by show 0 < wsize; decide, h.outside, ?_, ?_⟩
  · show (read s.window 0 s.outcnt).foldl crcNext s.crc = (s.output ++ _).foldl crcNext crcStart
    rw [List.foldl_append]
    exact congrArg (fun c => (read s.window 0 s.outcnt).foldl crcNext c) h.crc
  · show (s.bytesOut + s.outcnt) % 2 ^ 32 = (s.output ++ _).length % 2 ^ 32
    have hbytes : s.bytesOut = s.output.length % 2 ^ 32 := h.bytes
    rw [hbytes, List.length_append, length_read, Nat.mod_add_mod]

/-- So many bytes were written, none of them behind the window. -/
theorem Written.flushFull {w : Nat} {m : Nat → UInt8} (h : Written inp window s)
    (hw : w ≤ wsize) (hm : ∀ a, wsize ≤ a → m a = s.window a) :
    Written inp window (Gzip.flushFull { s with window := m, outcnt := w }) := by
  have hout : ∀ w' < wsize, Written inp window { s with window := m, outcnt := w' } :=
    fun w' hw' => ⟨h.size, hw', fun a ha => (hm a ha).trans (h.outside a ha), h.crc, h.bytes⟩
  unfold Gzip.flushFull
  by_cases hfull : w = wsize
  · rw [if_pos hfull]
    exact .flushWindow (hout 0 (by decide))
  · rw [if_neg hfull]
    exact hout w (Nat.lt_of_le_of_ne hw hfull)

theorem Written.emit (h : Written inp window s) (ch : UInt8) :
    Written inp window (Gzip.emit ch s) := by
  have hcnt := h.cnt
  refine h.flushFull hcnt fun a ha => Function.update_of_ne ?_ _ _
  omega

theorem slowCopy_of_ge {e w d a : Nat} {m : Nat → UInt8} (ha : w + e ≤ a) :
    slowCopy e w d m a = m a := by
  induction e generalizing w d m with
  | zero => rfl
  | succ e ih =>
    rw [slowCopy, ih (by omega), Function.update_of_ne]
    omega

/-- **A copy stays in the window**, whatever its length and distance. -/
theorem Written.copyLoop (h : Written inp window s) (fuel n d : Nat) :
    Written inp window (Gzip.copyLoop fuel n d s) := by
  induction fuel generalizing s n d with
  | zero => exact h
  | succ fuel ih =>
    have hcnt := h.cnt
    have he : s.outcnt + pieceLength n (d % wsize) s.outcnt ≤ wsize := by
      unfold pieceLength
      dsimp only
      split <;> split <;> omega
    have hpiece : Written inp window
        (copyPiece (pieceLength n (d % wsize) s.outcnt) (d % wsize) s) := by
      unfold copyPiece
      refine h.flushFull he fun a ha => ?_
      rw [memcpy_eq, ite_self]
      exact slowCopy_of_ge (by omega)
    rw [Gzip.copyLoop]
    split
    · exact ih hpiece _ _
    · exact hpiece

/-! ## Blocks -/

/-- **The codes of a block.** -/
theorem inflateCodes_written (hne : inp ≠ []) {tl td : Option Nat} {bl bd fuel : Nat}
    (h : Written inp window s) :
    Ensures (Written inp window) (inflateCodes inp tl td bl bd fuel s) := by
  induction fuel generalizing s with
  | zero => exact .error
  | succ fuel ih =>
    have hturn : Ensures (fun t => t.Keeps (Written inp window) (Written inp window))
        (codesTurn inp tl td bl bd s) := by
      refine (h.decode hne tl bl).bind fun ⟨r, s₁⟩ h₁ => ?_
      have hbase : ∀ r : Huft, Ensures (fun _ => True) r.v.base := fun r => by
        cases r.v
        · exact .ok .intro
        · exact .error
      refine .ite (fun _ => (hbase r).bind fun n _ => .ok (h₁.emit _)) fun _ => .ite (fun _ => .ok h₁) fun _ => ?_
      refine (hbase r).bind fun n _ => (h₁.takeBits hne r.e).bind fun ⟨x, s₂⟩ h₂ => ?_
      refine (h₂.decode hne td bd).bind fun ⟨r', s₃⟩ h₃ => (hbase r').bind fun far _ => ?_
      exact (h₃.takeBits hne r'.e).bind fun ⟨y, s₄⟩ h₄ => .ok (h₄.copyLoop _ _ _)
    refine hturn.bind fun t ht => ?_
    cases t with
    | next s' => exact ih ht
    | done s' => exact .ok ht

theorem Written.withHeap (h : Written inp window s) (heap : Heap) :
    Written inp window { s with heap := heap } := ⟨h.size, h.cnt, h.outside, h.crc, h.bytes⟩

theorem inflateStored_written (hne : inp ≠ []) (h : Written inp window s) :
    Ensures (Written inp window) (inflateStored inp s) := by
  have hbytes : ∀ n {s : Globals}, Written inp window s →
      Ensures (Written inp window) (storedBytes inp n s) := by
    intro n
    induction n with
    | zero => exact fun h => .ok h
    | succ n ih => exact fun h => (h.needBits hne 8).bind fun s' h' => ih ((h'.emit _).dump 8)
  refine ((h.dump _).takeBits hne 16).bind fun ⟨n, s₁⟩ h₁ => (h₁.needBits hne 16).bind fun s₂ h₂ => ?_
  exact .ite (fun _ => .error) fun _ => hbytes n (h₂.dump 16)

theorem inflateFixed_written (hne : inp ≠ []) {fuel : Nat} (h : Written inp window s) :
    Ensures (Written inp window) (inflateFixed inp junk fuel s) := by
  unfold inflateFixed
  dsimp only
  exact .ite (fun _ => .error) fun _ => .ite (fun _ => .error) fun _ =>
    inflateCodes_written hne (h.withHeap _)

theorem readBitLengths_written (hne : inp ≠ []) {ps : List Nat} {ll : Nat → Nat}
    (h : Written inp window s) :
    Ensures (fun r : (Nat → Nat) × Globals => Written inp window r.2)
      (readBitLengths inp ps ll s) := by
  induction ps generalizing ll s with
  | nil => exact .ok h
  | cons p ps ih => exact (h.takeBits hne 3).bind fun ⟨x, s'⟩ h' => ih h'

theorem readLengths_written (hne : inp ≠ []) {t : Option Nat} {bl n fuel i l : Nat}
    {ll : Nat → Nat} (h : Written inp window s) :
    Ensures (fun r : (Nat → Nat) × Globals => Written inp window r.2)
      (readLengths inp t bl n fuel i l ll s) := by
  induction fuel generalizing i l ll s with
  | zero => exact .error
  | succ fuel ih =>
    rw [readLengths]
    refine .ite (fun _ => (h.needBits hne bl).bind fun s₁ h₁ => ?_) fun _ => .ok h
    cases t with
    | none => exact .error
    | some t =>
      refine Ensures.bind (Q := fun _ => True) ?_ fun j _ => ?_
      · cases (s₁.heap.cell t (peek bl s₁)).v
        · exact .ok .intro
        · exact .error
      have h₂ := h₁.dump (s₁.heap.cell t (peek bl s₁)).b
      refine .ite (fun _ => ih h₂) fun _ => .ite (fun _ => ?_) fun _ => .ite (fun _ => ?_) fun _ => ?_
      all_goals
        refine (h₂.takeBits hne _).bind ?_
        rintro r h₃
        exact .ite (fun _ => .error) fun _ => ih h₃

theorem inflateTables_written (hne : inp ≠ []) {fuel nl nd : Nat} {ll : Nat → Nat}
    (h : Written inp window s) :
    Ensures (Written inp window) (inflateTables inp junk fuel nl nd ll s) := by
  unfold inflateTables
  dsimp only
  exact .ite (fun _ => .ite (fun _ => .error) fun _ => .error) fun _ =>
    .ite (fun _ => .ite (fun _ => .error) fun _ => .error) fun _ =>
      inflateCodes_written hne (h.withHeap _)

theorem inflateDynamic_written (hne : inp ≠ []) {fuel : Nat} (h : Written inp window s) :
    Ensures (Written inp window) (inflateDynamic inp junk fuel s) := by
  refine (h.takeBits hne 5).bind fun ⟨x₁, s₁⟩ h₁ => (h₁.takeBits hne 5).bind fun ⟨x₂, s₂⟩ h₂ =>
    (h₂.takeBits hne 4).bind fun ⟨x₃, s₃⟩ h₃ => .ite (fun _ => .error) fun _ => ?_
  refine (readBitLengths_written hne h₃).bind fun ⟨ll, s₄⟩ h₄ => .ite (fun _ => .error) fun _ => ?_
  exact (readLengths_written hne (h₄.withHeap _)).bind fun ⟨ll', s₅⟩ h₅ =>
    inflateTables_written hne h₅

theorem inflateBlock_written (hne : inp ≠ []) {fuel : Nat} (h : Written inp window s) :
    Ensures (fun r : Nat × Globals => Written inp window r.2) (inflateBlock inp junk fuel s) := by
  have htype : ∀ t {s : Globals}, Written inp window s →
      Ensures (Written inp window) (inflateType inp junk fuel t s) := fun t s h =>
    .ite (fun _ => inflateDynamic_written hne h) fun _ =>
      .ite (fun _ => inflateStored_written hne h) fun _ =>
        .ite (fun _ => inflateFixed_written hne h) fun _ => .error
  exact (h.takeBits hne 1).bind fun ⟨e, s₁⟩ h₁ => (h₁.takeBits hne 2).bind fun ⟨t, s₂⟩ h₂ =>
    (htype t h₂).bind fun s₃ h₃ => .ok h₃

theorem inflateBlocks_written (hne : inp ≠ []) {fuel left : Nat} (h : Written inp window s) :
    Ensures (Written inp window) (inflateBlocks inp junk fuel left s) := by
  induction left generalizing s with
  | zero => exact .error
  | succ left ih =>
    refine (inflateBlock_written hne h).bind fun ⟨e, s₁⟩ h₁ => ?_
    exact .ite (fun _ => ih (h₁.withHeap _)) fun _ => .ok (h₁.withHeap _)

theorem undo_written (h : Written inp window s) : Written inp window (undo s) := by
  induction hk : s.bk using Nat.strongRecOn generalizing s with
  | ind k ih =>
    rw [undo]
    split
    · exact ih (s.bk - 8) (by omega) (h.sameOut ⟨rfl, rfl, rfl, rfl, rfl, rfl⟩ h.size) rfl
    · exact h

/-- **All blocks.** -/
theorem inflate_written (hne : inp ≠ []) {fuel : Nat} (h : Written inp window s) :
    Ensures (Written inp window) (inflate inp junk fuel s) := by
  have hstart : Written inp window { s with outcnt := 0, bk := 0, bb := 0 } :=
    ⟨h.size, by show 0 < wsize; decide, h.outside, h.crc, h.bytes⟩
  refine (inflateBlocks_written hne hstart).bind fun s' h' => ?_
  have hundo := undo_written h'
  exact .ok (.flushWindow ⟨hundo.size, by show 0 < wsize; decide, hundo.outside, hundo.crc, hundo.bytes⟩)

end

/-! ## Header and trailer -/

section
variable {inp : List UInt8} {window : Nat → UInt8} {junk : Heap → Junk} {s : Globals}

theorem Written.nextByte (h : Written inp window s) (hne : inp ≠ []) :
    Ensures (fun r : UInt8 × Globals => Written inp window r.2) (Gzip.getByte inp s) :=
  (h.getByte hne).mono fun _ ⟨_, _, hs⟩ => hs ▸ h.sameOut .rfl h.size

theorem Written.skip (hne : inp ≠ []) {len : Nat} (h : Written inp window s) :
    Ensures (Written inp window) (Gzip.skip inp len s) := by
  induction len generalizing s with
  | zero => exact .ok h
  | succ len ih => exact (h.nextByte hne).bind fun ⟨c, s'⟩ h' => ih h'

theorem Written.skipField (h : Written inp window s) (hne : inp ≠ []) (flags bit : UInt8)
    (fuel : Nat) : Ensures (Written inp window) (Gzip.skipField inp flags bit fuel s) := by
  refine .ite (fun _ => ?_) fun _ => .ok h
  induction fuel generalizing s with
  | zero => exact .error
  | succ fuel ih =>
    exact (h.nextByte hne).bind fun ⟨c, s'⟩ h' => .ite (fun _ => ih h') fun _ => .ok h'

theorem Written.skipExtra (h : Written inp window s) (hne : inp ≠ []) (flags : UInt8) :
    Ensures (Written inp window) (Gzip.skipExtra inp flags s) :=
  .ite (fun _ => (h.nextByte hne).bind fun ⟨_, _⟩ h₁ => (h₁.nextByte hne).bind fun ⟨_, _⟩ h₂ =>
    h₂.skip hne) fun _ => .ok h

/-- The first byte fills the input buffer. -/
theorem readHeader_written (hne : inp ≠ []) {fuel : Nat} {heap : Heap} :
    Ensures (Written inp window)
      (readHeader inp fuel ⟨0, 0, 0, 0, 0, window, [], crcStart, 0, heap⟩) := by
  have hfirst : Ensures (fun r : UInt8 × Globals => Written inp window r.2)
      (getByte inp ⟨0, 0, 0, 0, 0, window, [], crcStart, 0, heap⟩) :=
    .ok ⟨rfl, by show 0 < wsize; decide, fun _ _ => rfl, rfl, rfl⟩
  refine hfirst.bind fun ⟨c₀, s₀⟩ h₀ => (h₀.nextByte hne).bind fun ⟨c₁, s₁⟩ h₁ =>
    (h₁.nextByte hne).bind fun ⟨c₂, s₂⟩ h₂ => ?_
  refine .ite (fun _ => .error) fun _ => .ite (fun _ => .error) fun _ => ?_
  refine (h₂.nextByte hne).bind fun ⟨flags, s₃⟩ h₃ => ?_
  refine .ite (fun _ => .error) fun _ => .ite (fun _ => .error) fun _ => .ite (fun _ => .error) fun _ => ?_
  exact (h₃.skip hne).bind fun s₄ h₄ => (h₄.skipExtra hne flags).bind fun s₅ h₅ =>
    (h₅.skipField hne flags origName fuel).bind fun s₆ h₆ => h₆.skipField hne flags comment fuel

theorem Written.getLong (h : Written inp window s) (hne : inp ≠ []) :
    Ensures (fun r : UInt32 × Globals => s.inptr + 4 ≤ inp.length ∧
      r.1.toNat = bits (streamOf inp) (8 * s.inptr) 32 ∧ r.2 = { s with inptr := s.inptr + 4 })
      (Gzip.getLong inp s) := by
  have hnext : ∀ i, Written inp window { s with inptr := i } := fun i => h.sameOut .rfl h.size
  refine (h.getByte hne).bind ?_
  rintro ⟨c₀, s₀⟩ ⟨h0, hc₀, rfl⟩
  refine ((hnext (s.inptr + 1)).getByte hne).bind ?_
  rintro ⟨c₁, s₁⟩ ⟨h1, hc₁, rfl⟩
  refine ((hnext (s.inptr + 2)).getByte hne).bind ?_
  rintro ⟨c₂, s₂⟩ ⟨h2, hc₂, rfl⟩
  refine ((hnext (s.inptr + 3)).getByte hne).bind ?_
  rintro ⟨c₃, s₃⟩ ⟨h3, hc₃, rfl⟩
  refine .ok ⟨h3, ?_, rfl⟩
  dsimp only at hc₀ hc₁ hc₂ hc₃
  rw [long_toNat, bits_long, hc₀, hc₁, hc₂, hc₃]

/-! ## Top theorem -/

/-- **What came back is what was checked**, whatever the input is. -/
theorem decompressKernel_sound {fuel : Nat} {heap : Heap} {s : Globals} (hne : inp ≠ [])
    (h : decompressKernel inp junk fuel window heap = .ok s) :
    8 ≤ s.inptr ∧ s.inptr ≤ inp.length ∧
      bits (streamOf inp) (8 * (s.inptr - 8)) 32 = (crcOf s.output).toNat ∧
      bits (streamOf inp) (8 * (s.inptr - 4)) 32 = s.output.length % 2 ^ 32 ∧
      ∀ a, wsize ≤ a → s.window a = window a := by
  suffices hall : Ensures (fun s : Globals => 8 ≤ s.inptr ∧ s.inptr ≤ inp.length ∧
      bits (streamOf inp) (8 * (s.inptr - 8)) 32 = (crcOf s.output).toNat ∧
      bits (streamOf inp) (8 * (s.inptr - 4)) 32 = s.output.length % 2 ^ 32 ∧
      ∀ a, wsize ≤ a → s.window a = window a) (decompressKernel inp junk fuel window heap) by
    rw [h] at hall
    exact hall.of_ok
  refine (readHeader_written hne).bind fun s₁ h₁ => ?_
  have hinflate : Ensures (Written inp window) (inflate inp junk fuel s₁) := inflate_written hne h₁
  cases hrun : inflate inp junk fuel s₁ with
  | error e => cases e <;> exact .error
  | ok s₂ =>
    rw [hrun] at hinflate
    have h₂ := hinflate.of_ok
    refine (h₂.getLong hne).bind ?_
    rintro ⟨v, s₃⟩ ⟨-, hv, rfl⟩
    have h₃ : Written inp window { s₂ with inptr := s₂.inptr + 4 } := h₂.sameOut .rfl h₂.size
    refine (h₃.getLong hne).bind ?_
    rintro ⟨w, s₄⟩ ⟨hend, hw, rfl⟩
    refine .ite (fun _ => .error) fun hcrc => .ite (fun _ => .error) fun hlen => .ok ?_
    rw [not_not] at hcrc hlen
    refine ⟨Nat.le_add_left _ _, hend, ?_, ?_, h₂.outside⟩
    · show bits _ (8 * (s₂.inptr + 8 - 8)) 32 = (crcOf s₂.output).toNat
      rw [Nat.add_sub_cancel, ← hv]
      dsimp only at hcrc
      rw [hcrc, h₂.crc, crcValue_eq]
    · show bits _ (8 * (s₂.inptr + 4 + 4 - 4)) 32 = s₂.output.length % 2 ^ 32
      rw [Nat.add_sub_cancel, ← hw]
      dsimp only at hlen
      rw [hlen, h₂.bytes]

/-- The file of eight letters `a`. -/
theorem decompressKernel_sound_sample : ∃ s : Globals, s.output = List.replicate 8 97 ∧
    8 ≤ s.inptr ∧ s.inptr ≤ 23 ∧
      bits (streamOf (sample [0x46, 0x80, 0x84, 0xbf])) (8 * (s.inptr - 8)) 32 =
        (crcOf s.output).toNat := by
  obtain ⟨-, -, s, -, -, -, hout, hok, -⟩ := @gunzip_eq _ _ zeroJunk 200 118 _ (by decide)
    (sample_member [0x46, 0x80, 0x84, 0xbf] List.mem_cons_self) (start_unread _ (fun _ => 0) zeroHeap)
    (start_win (fun _ => 0) zeroHeap) (by decide)
  obtain ⟨h8, hle, hcrc, -⟩ := decompressKernel_sound (by decide) (hok sample_checked)
  exact ⟨s, hout, h8, hle, hcrc⟩

end

end Gentoox.Gzip
