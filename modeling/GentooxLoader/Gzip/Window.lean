import GentooxLoader.Base.Rings
import GentooxLoader.Gzip.Bits
import GentooxLoader.Gzip.Crc

/-!
# The sliding window (lib/gzip/inflate.c, lib/gzip/misc.c)

What is put out goes into a window of 32 KiB, which is written out when it is
full; a copy reads from it, in pieces that end where the window does.  `Win`
says that the window and what was written out are a history of bytes.  The
history may begin before the output, with what was in the window at the start.

    memcpy_eq              memcpy is the slow loop
    piece_eq               a piece is one byte after the other
    Win.emit               one more byte
    Win.copyLoop           a copy of what is in the history
    Win.flushWindow        all that was put out is written
    copyLoop_eq_copyBytes  a copy in pieces is a copy byte by byte
-/

namespace Gentoox.Gzip

open Cells Rings

/-! ## Algorithm -/

/-- Writes the window and updates the check. -/
def flushWindow (s : Globals) : Globals :=
  { s with
    output := s.output ++ read s.window 0 s.outcnt
    crc := (read s.window 0 s.outcnt).foldl crcNext s.crc
    bytesOut := (s.bytesOut + s.outcnt) % 2 ^ 32
    outcnt := 0 }

/-- `if (w == WSIZE)`. -/
def flushFull (s : Globals) : Globals := if s.outcnt = wsize then flushWindow s else s

/-- `slide[w++] = ch`. -/
def emit (ch : UInt8) (s : Globals) : Globals :=
  flushFull { s with window := Function.update s.window s.outcnt ch, outcnt := s.outcnt + 1 }

/-- The `memcpy` of misc.c. -/
def memcpy (m : Nat → UInt8) (dest src : Nat) : Nat → Nat → UInt8
  | 0 => m
  | n + 1 => Function.update (memcpy m dest src n) (dest + n) (memcpy m dest src n (src + n))

/-- `do { slide[w++] = slide[d++]; } while (--e)`. -/
def slowCopy : Nat → Nat → Nat → (Nat → UInt8) → Nat → UInt8
  | 0, _, _, m => m
  | e + 1, w, d, m => slowCopy e (w + 1) (d + 1) (Function.update m w (m d))

/-- How much is copied before the source or the destination is at the end. -/
def pieceLength (n d w : Nat) : Nat :=
  let e := wsize - if d > w then d else w
  if e > n then n else e

/-- One turn of the copy. -/
def copyPiece (e d : Nat) (s : Globals) : Globals :=
  let w := s.outcnt
  flushFull { s with
    window := if (w + 2 ^ 32 - d) % 2 ^ 32 ≥ e then memcpy s.window w d e else slowCopy e w d s.window
    outcnt := w + e }

/-- `do … while (n)`; each turn copies something, so that `n` turns are enough. -/
def copyLoop : Nat → Nat → Nat → Globals → Globals
  | 0, _, _, s => s
  | fuel + 1, n, d, s =>
    let d := d % wsize
    let e := pieceLength n d s.outcnt
    let s := copyPiece e d s
    if n - e ≠ 0 then copyLoop fuel (n - e) (d + e) s else s

/-! ## The history -/

/-- The input is where it was. -/
def SameIn (s s' : Globals) : Prop :=
  s'.insize = s.insize ∧ s'.inptr = s.inptr ∧ s'.bb = s.bb ∧ s'.bk = s.bk ∧ s'.heap = s.heap

theorem SameIn.rfl {s : Globals} : SameIn s s := ⟨Eq.refl _, Eq.refl _, Eq.refl _, Eq.refl _, Eq.refl _⟩

theorem SameIn.trans {s s' s'' : Globals} (h : SameIn s s') (h' : SameIn s' s'') : SameIn s s'' := by
  obtain ⟨h1, h2, h3, h4, h5⟩ := h
  obtain ⟨h1', h2', h3', h4', h5'⟩ := h'
  exact ⟨h1'.trans h1, h2'.trans h2, h3'.trans h3, h4'.trans h4, h5'.trans h5⟩

theorem At.sameIn {inp : List UInt8} {pos : Nat} {s s' : Globals} (h : At inp pos s)
    (hs : SameIn s s') : At inp pos s' := by
  obtain ⟨h1, h2, h3, h4, -⟩ := hs
  refine ⟨?_, ?_, ?_, ?_, ?_⟩
  · rw [h4, h2, h.place]
  · rw [h3, h4, h.buffer]
  · rw [h2]
    exact h.inside
  · rw [h1, h2]
    exact h.filled
  · rw [h4]
    exact h.small

/-- Window and output are the history; the output begins behind `base` bytes of it. -/
structure Win (base : Nat) (hist : List UInt8) (s : Globals) : Prop where
  ring : Holds wsize s.window hist
  cnt : s.outcnt = hist.length % wsize
  base_le : base ≤ hist.length
  base_mod : base % wsize = 0
  out : s.output = (hist.take (hist.length - hist.length % wsize)).drop base
  crc : s.crc = s.output.foldl crcNext crcStart
  bytes : s.bytesOut = s.output.length % 2 ^ 32

section
variable {base : Nat} {hist : List UInt8} {s : Globals}

theorem Win.sameOut {s' : Globals} (h : Win base hist s) (hs : SameOut s s') : Win base hist s' := by
  obtain ⟨h1, h2, h3, h4, h5, -⟩ := hs
  refine ⟨?_, ?_, h.base_le, h.base_mod, ?_, ?_, ?_⟩
  · rw [h2]
    exact h.ring
  · rw [h1, h.cnt]
  · rw [h3, h.out]
  · rw [h4, h3, h.crc]
  · rw [h5, h3, h.bytes]

theorem Win.cnt_lt (h : Win base hist s) : s.outcnt < wsize := by
  rw [h.cnt]
  exact Nat.mod_lt _ (by decide)

theorem Win.base_le_full (h : Win base hist s) : base ≤ hist.length - hist.length % wsize := by
  have := h.base_le
  have := h.base_mod
  unfold wsize at *
  omega

/-- What the window has and was not written yet. -/
theorem Win.read_window (h : Win base hist s) :
    read s.window 0 s.outcnt = hist.drop (hist.length - hist.length % wsize) := by
  rw [h.cnt]
  refine h.ring.read (Nat.le_of_lt (Nat.mod_lt _ (by decide))) (Nat.mod_le _ _) ?_
  unfold wsize
  omega

theorem drop_take_append {α : Type} (l : List α) {a b : Nat} (h : a ≤ b) (hb : b ≤ l.length) :
    (l.take b).drop a ++ l.drop b = l.drop a := by
  conv_rhs => rw [← List.take_append_drop b l]
  rw [List.drop_append_of_le_length]
  rw [List.length_take]
  omega

/-- **All that was put out is written.** -/
theorem Win.flushWindow (h : Win base hist s) :
    (Gzip.flushWindow s).output = hist.drop base ∧
      (Gzip.flushWindow s).crc = (hist.drop base).foldl crcNext crcStart ∧
      (Gzip.flushWindow s).bytesOut = (hist.drop base).length % 2 ^ 32 := by
  have hout : s.output ++ read s.window 0 s.outcnt = hist.drop base := by
    rw [h.read_window, h.out, drop_take_append hist h.base_le_full (Nat.sub_le _ _)]
  refine ⟨hout, ?_, ?_⟩
  · show (read s.window 0 s.outcnt).foldl crcNext s.crc = _
    rw [h.crc, ← List.foldl_append, hout]
  · show (s.bytesOut + s.outcnt) % 2 ^ 32 = _
    rw [h.bytes, ← hout, List.length_append, length_read, Nat.mod_add_mod]

theorem emit_sameIn (ch : UInt8) (s : Globals) : SameIn s (emit ch s) := by
  unfold emit flushFull
  split <;> exact .rfl

/-- **One more byte.** -/
theorem Win.emit (h : Win base hist s) (ch : UInt8) : Win base (hist ++ [ch]) (Gzip.emit ch s) := by
  have hlt := h.cnt_lt
  have hcnt := h.cnt
  have hpush : Holds wsize (Function.update s.window s.outcnt ch) (hist ++ [ch]) := by
    rw [hcnt]
    exact h.ring.push ch
  have hlen : (hist ++ [ch]).length = hist.length + 1 := by
    rw [List.length_append, List.length_singleton]
  have hbase := h.base_le_full
  unfold Gzip.emit flushFull
  by_cases hfull : s.outcnt + 1 = wsize
  · rw [if_pos hfull]
    have hmod : (hist ++ [ch]).length % wsize = 0 := by
      rw [hlen]
      unfold wsize at *
      omega
    have hread : read (Function.update s.window s.outcnt ch) 0 (s.outcnt + 1) =
        (hist ++ [ch]).drop (hist.length - hist.length % wsize) := by
      have hfirst : (hist ++ [ch]).length - (s.outcnt + 1) = hist.length - hist.length % wsize := by
        rw [hlen]
        omega
      rw [← hfirst]
      refine hpush.read hfull.le (by rw [hlen]; have := Nat.mod_le hist.length wsize; omega) ?_
      rw [hfirst]
      unfold wsize
      omega
    have hout : s.output ++ read (Function.update s.window s.outcnt ch) 0 (s.outcnt + 1) =
        (hist ++ [ch]).drop base := by
      have hold : hist.take (hist.length - hist.length % wsize) =
          (hist ++ [ch]).take (hist.length - hist.length % wsize) :=
        (List.take_append_of_le_length (Nat.sub_le _ _)).symm
      rw [hread, h.out, hold, drop_take_append _ hbase (by rw [hlen]; omega)]
    refine ⟨hpush, ?_, by rw [hlen]; have := h.base_le; omega, h.base_mod, ?_, ?_, ?_⟩
    · show 0 = _
      rw [hmod]
    · show s.output ++ read _ 0 (s.outcnt + 1) = _
      rw [hout, hmod, Nat.sub_zero, List.take_length]
    · show (read _ 0 (s.outcnt + 1)).foldl crcNext s.crc = _
      rw [h.crc, ← List.foldl_append]
      rfl
    · show (s.bytesOut + (s.outcnt + 1)) % 2 ^ 32 = (s.output ++ _).length % 2 ^ 32
      rw [h.bytes, List.length_append, length_read, Nat.mod_add_mod]
  · rw [if_neg hfull]
    have hmod : (hist ++ [ch]).length % wsize = hist.length % wsize + 1 := by
      rw [hlen]
      unfold wsize at *
      omega
    refine ⟨hpush, ?_, by rw [hlen]; have := h.base_le; omega, h.base_mod, ?_, h.crc, h.bytes⟩
    · show s.outcnt + 1 = _
      rw [hmod, hcnt]
    · show s.output = _
      rw [h.out, hmod, hlen, Nat.add_sub_add_right, List.take_append_of_le_length (Nat.sub_le _ _)]

/-! ## Copies -/

theorem slowCopy_succ (e w d : Nat) (m : Nat → UInt8) :
    slowCopy (e + 1) w d m =
      Function.update (slowCopy e w d m) (w + e) (slowCopy e w d m (d + e)) := by
  induction e generalizing w d m with
  | zero => rfl
  | succ e ih =>
    rw [slowCopy, ih, slowCopy, Nat.add_right_comm w 1 e, Nat.add_right_comm d 1 e]
    rfl

/-- **The faster way is the slow one.** -/
theorem memcpy_eq (m : Nat → UInt8) (w d e : Nat) : memcpy m w d e = slowCopy e w d m := by
  induction e with
  | zero => rfl
  | succ e ih => rw [memcpy, ih, slowCopy_succ]

/-- One byte after the other. -/
def emitBack : Nat → Nat → Globals → Globals
  | 0, _, s => s
  | e + 1, d, s => emitBack e (d + 1) (emit (s.window d) s)

theorem emitBack_sameIn (e d : Nat) (s : Globals) : SameIn s (emitBack e d s) := by
  induction e generalizing d s with
  | zero => exact .rfl
  | succ e ih => exact (emit_sameIn _ _).trans (ih _ _)

theorem piece_eq {e d : Nat} (hlt : s.outcnt < wsize) (he : s.outcnt + e ≤ wsize) :
    copyPiece e d s = emitBack e d s := by
  have hslow : copyPiece e d s =
      flushFull { s with window := slowCopy e s.outcnt d s.window, outcnt := s.outcnt + e } := by
    unfold copyPiece
    dsimp only
    rw [memcpy_eq, ite_self]
  rw [hslow]
  clear hslow
  induction e generalizing s d with
  | zero =>
    show (if s.outcnt = wsize then _ else s) = s
    rw [if_neg (Nat.ne_of_lt hlt)]
  | succ e ih =>
    by_cases hfull : s.outcnt + 1 = wsize
    · obtain rfl : e = 0 := by omega
      rfl
    · have hemit : emit (s.window d) s = { s with
          window := Function.update s.window s.outcnt (s.window d), outcnt := s.outcnt + 1 } := by
        unfold emit flushFull
        rw [if_neg hfull]
      rw [emitBack, hemit, ← ih (by show s.outcnt + 1 < wsize; omega)
        (by show s.outcnt + 1 + e ≤ wsize; omega), Nat.add_right_comm s.outcnt 1 e]
      rfl

theorem Win.emitBack {e d δ : Nat} (h : Win base hist s) (h1 : 1 ≤ δ) (hδ : δ ≤ wsize)
    (hfar : δ ≤ hist.length) (hd : d % wsize = (hist.length - δ) % wsize) (he : d + e ≤ wsize) :
    Win base (copyBack δ e hist) (Gzip.emitBack e d s) := by
  induction e generalizing s hist d with
  | zero => exact h
  | succ e ih =>
    have hread : s.window d = hist.getD (hist.length - δ) 0 := by
      have hlt : hist.length - δ < hist.length := by omega
      have hring := h.ring (hist.length - δ) _ (List.getElem?_eq_getElem hlt) (by omega)
      rw [← hd, Nat.mod_eq_of_lt (by omega)] at hring
      rw [hring, List.getD_eq_getElem _ _ hlt]
    have hnext := h.emit (s.window d)
    rw [hread] at hnext
    rw [copyBack, Gzip.emitBack, hread]
    refine ih hnext ?_ ?_ (by omega)
    · rw [List.length_append, List.length_singleton]
      omega
    · rw [List.length_append, List.length_singleton, Nat.sub_add_comm hfar, Nat.add_mod, hd,
        ← Nat.add_mod]

/-- **A copy of what is in the history.** -/
theorem Win.copyLoop {fuel n d δ : Nat} (h : Win base hist s) (h1 : 1 ≤ δ) (hδ : δ ≤ wsize)
    (hfar : δ ≤ hist.length) (hd : d % wsize = (hist.length - δ) % wsize) (hn : 1 ≤ n)
    (hfuel : n ≤ fuel) :
    Win base (copyBack δ n hist) (Gzip.copyLoop fuel n d s) ∧
      SameIn s (Gzip.copyLoop fuel n d s) := by
  induction fuel generalizing s hist n d with
  | zero => omega
  | succ fuel ih =>
    have hlt := h.cnt_lt
    have hdlt : d % wsize < wsize := Nat.mod_lt _ (by decide)
    have he : 1 ≤ pieceLength n (d % wsize) s.outcnt ∧ pieceLength n (d % wsize) s.outcnt ≤ n ∧
        s.outcnt + pieceLength n (d % wsize) s.outcnt ≤ wsize ∧
        d % wsize + pieceLength n (d % wsize) s.outcnt ≤ wsize := by
      unfold pieceLength
      dsimp only
      split <;> split <;> omega
    rw [Gzip.copyLoop]
    generalize pieceLength n (d % wsize) s.outcnt = e at he ⊢
    obtain ⟨he1, hen, hew, hed⟩ := he
    rw [piece_eq hlt hew]
    have hpiece := h.emitBack (e := e) h1 hδ hfar (by rw [Nat.mod_mod]; exact hd) hed
    have hsame := emitBack_sameIn e (d % wsize) s
    by_cases hmore : n - e ≠ 0
    · rw [if_pos hmore]
      obtain ⟨hwin, hin⟩ := ih hpiece (n := n - e) (d := d % wsize + e)
        (by rw [length_copyBack]; omega)
        (by
          rw [length_copyBack, Nat.mod_add_mod, Nat.sub_add_comm hfar, Nat.add_mod, hd,
            ← Nat.add_mod])
        (by omega) (by omega)
      rw [← copyBack_add, Nat.add_sub_cancel' hen] at hwin
      exact ⟨hwin, hsame.trans hin⟩
    · obtain rfl : e = n := by omega
      rw [if_neg hmore]
      exact ⟨hpiece, hsame⟩

end

/-! ## One byte at a time -/

/-- The copy without its pieces: the window is a ring, and full after `wsize` bytes. -/
def copyBytes : Nat → Nat → Globals → Globals
  | 0, _, s => s
  | n + 1, d, s => copyBytes n (d + 1) (emit (s.window (d % wsize)) s)

section
variable {s : Globals}

theorem copyBytes_add (m n d : Nat) (s : Globals) :
    copyBytes (m + n) d s = copyBytes n (d + m) (copyBytes m d s) := by
  induction m generalizing d s with
  | zero => rw [Nat.zero_add, copyBytes, Nat.add_zero]
  | succ m ih => rw [Nat.succ_add, copyBytes, ih, copyBytes, Nat.add_assoc, Nat.add_comm 1 m]

/-- Only the place in the ring counts. -/
theorem copyBytes_congr {n d d' : Nat} (h : d % wsize = d' % wsize) :
    copyBytes n d s = copyBytes n d' s := by
  induction n generalizing d d' s with
  | zero => rfl
  | succ n ih =>
    rw [copyBytes, copyBytes, h]
    exact ih (by rw [Nat.add_mod, h, ← Nat.add_mod])

theorem emit_cnt (ch : UInt8) (h : s.outcnt < wsize) : (emit ch s).outcnt < wsize := by
  unfold emit flushFull
  by_cases hfull : s.outcnt + 1 = wsize
  · rw [if_pos hfull]
    show 0 < wsize
    decide
  · rw [if_neg hfull]
    show s.outcnt + 1 < wsize
    omega

theorem copyBytes_cnt {n d : Nat} (h : s.outcnt < wsize) : (copyBytes n d s).outcnt < wsize := by
  induction n generalizing d s with
  | zero => exact h
  | succ n ih => exact ih (emit_cnt _ h)

/-- A piece does not wrap around. -/
theorem emitBack_eq {e d : Nat} (h : d % wsize + e ≤ wsize) :
    emitBack e (d % wsize) s = copyBytes e d s := by
  induction e generalizing d s with
  | zero => rfl
  | succ e ih =>
    rw [emitBack, copyBytes]
    rcases Nat.eq_zero_or_pos e with rfl | he
    · rfl
    · have hnext : (d + 1) % wsize = d % wsize + 1 := by
        unfold wsize at *
        omega
      rw [← hnext]
      exact ih (by omega)

/-- **The copy in pieces is the copy of one byte after the other**, for any length and distance. -/
theorem copyLoop_eq_copyBytes {fuel n d : Nat} (h : s.outcnt < wsize) (hfuel : n ≤ fuel) :
    copyLoop fuel n d s = copyBytes n d s := by
  induction fuel generalizing s n d with
  | zero =>
    obtain rfl : n = 0 := by omega
    rfl
  | succ fuel ih =>
    have hdlt : d % wsize < wsize := Nat.mod_lt _ (by decide)
    have he : (0 < n → 1 ≤ pieceLength n (d % wsize) s.outcnt) ∧
        pieceLength n (d % wsize) s.outcnt ≤ n ∧
        s.outcnt + pieceLength n (d % wsize) s.outcnt ≤ wsize ∧
        d % wsize + pieceLength n (d % wsize) s.outcnt ≤ wsize := by
      unfold pieceLength
      dsimp only
      split <;> split <;> omega
    rw [copyLoop]
    generalize pieceLength n (d % wsize) s.outcnt = e at he ⊢
    obtain ⟨he1, hen, hew, hed⟩ := he
    rw [piece_eq h hew, emitBack_eq hed]
    obtain ⟨k, rfl⟩ : ∃ k, n = e + k := Nat.exists_eq_add_of_le hen
    rw [copyBytes_add, Nat.add_sub_cancel_left]
    by_cases hmore : k ≠ 0
    · rw [if_pos hmore, ih (copyBytes_cnt h) (by omega)]
      exact copyBytes_congr (by rw [Nat.mod_add_mod])
    · obtain rfl : k = 0 := not_not.1 hmore
      rw [if_neg hmore]
      rfl

/-- A distance of one repeats the last byte, over the end of the window. -/
theorem copyLoop_run :
    let s : Globals :=
      ⟨0, 0, 32700, 0, 0, fun _ => 0x2e, [], crcStart, 0, ⟨0, fun _ _ => ⟨0, 0, .n 0⟩⟩⟩
    copyLoop 300 300 32699 s = copyBytes 300 32699 s :=
  copyLoop_eq_copyBytes (by show 32700 < wsize; decide) (Nat.le_refl 300)

end

end Gentoox.Gzip
