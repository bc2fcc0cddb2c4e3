import GentooxLoader.Base.Loops
import GentooxLoader.Gzip.Lengths
import GentooxLoader.Gzip.Window

/-!
# `inflate_codes` (lib/gzip/inflate.c)

Codes are looked up in the tables, a table's entry may lead to another table,
and literals and copies go into the window until the end-of-block code.

    takeBits_ok            so many bits of the input
    decode_leads           the entry that the data are led to
    inflateCodes_tokens    a block's codes add the bytes that they stand for
    huftBuild_decodes      from the lengths of the codes to what is looked up
-/

namespace Gentoox.Gzip

open Loops

/-! ## Algorithm -/

/-- `v.n` of an entry. -/
def Val.base : Val → Run Nat
  | .n x => .ok x
  | .t _ => .error .null

section
variable (inp : List UInt8)

/-- `NEEDBITS(n)`, the bits masked out, `DUMPBITS(n)`. -/
def takeBits (n : Nat) (s : Globals) : Run (Nat × Globals) := do
  let s ← needBits inp n s
  .ok (peek n s, dump n s)

/-- From an entry on through the tables. -/
def follow : Nat → Huft → Globals → Run (Huft × Globals)
  | 0, _, _ => .error .fuel
  | fuel + 1, r, s =>
    if r.e > 16 then
      if r.e = 99 then .error (.ret 1)
      else do
        let s ← needBits inp (r.e - 16) (dump r.b s)
        match r.v with
        | .t t => follow fuel (s.heap.cell t (peek (r.e - 16) s)) s
        | .n _ => .error .null
    else .ok (r, dump r.b s)

/-- The look-up of a code; there are no more than `bmax` tables on its way. -/
def decode (t : Option Nat) (bl : Nat) (s : Globals) : Run (Huft × Globals) := do
  let s ← needBits inp bl s
  match t with
  | none => .error .null
  | some t => follow inp (bmax + 1) (s.heap.cell t (peek bl s)) s

/-- One turn of the loop. -/
def codesTurn (tl td : Option Nat) (bl bd : Nat) (s : Globals) : Run (Turn Globals Globals) := do
  let (r, s) ← decode inp tl bl s
  if r.e = 16 then
    let n ← r.v.base
    .ok (.next (emit (UInt8.ofNat n) s))
  else if r.e = 15 then .ok (.done s)
  else
    let n ← r.v.base
    let (x, s) ← takeBits inp r.e s
    let n := n + x
    let (r, s) ← decode inp td bd s
    let far ← r.v.base
    let (x, s) ← takeBits inp r.e s
    let d := (s.outcnt + 2 * 2 ^ 32 - far - x) % 2 ^ 32
    .ok (.next (copyLoop n n d s))

def inflateCodes (tl td : Option Nat) (bl bd : Nat) : Nat → Globals → Run Globals
  | 0, _ => .error .fuel
  | fuel + 1, s => do
    match ← codesTurn inp tl td bl bd s with
    | .done s => .ok s
    | .next s => inflateCodes tl td bl bd fuel s

end

/-! ## Bits and codes of the input -/

section
variable {inp : List UInt8} {pos n : Nat} {s : Globals}

theorem takeBits_ok (h : At inp pos s) (hn : n ≤ 16) (hroom : pos + n ≤ 8 * inp.length) :
    ∃ s', takeBits inp n s = .ok (bits (streamOf inp) pos n, s') ∧ At inp (pos + n) s' ∧
      SameOut s s' := by
  obtain ⟨s', hneed, hat, hle, hsame⟩ := h.needBits hn hroom
  obtain ⟨hat', -, hsame'⟩ := hat.dump hle
  refine ⟨dump n s', ?_, hat', hsame.trans hsame'⟩
  unfold takeBits
  rw [hneed]
  show Except.ok (peek n s', dump n s') = _
  rw [hat.peek hle]

/-- The bits that table `t` looks at. -/
theorem idx_eq (P : Places) (N pos t : Nat) :
    P.idx (bitsFrom N pos) t = bits N (pos + P.w t) (P.bits t) := by
  rw [Places.idx, bits, bitsFrom_add]

theorem follow_leads {P : Places} {heap : Heap} {t k : Nat} {r : Huft}
    (h : Leads P heap (bitsFrom (streamOf inp) pos) t k r) (hr : r.e ≤ 16)
    (hroom : pos + bmax ≤ 8 * inp.length) :
    ∀ (fuel : Nat) {s : Globals}, bmax < fuel + P.w t → At inp (pos + P.w t) s →
      P.bits t ≤ s.bk → s.heap = heap →
      ∃ s', follow inp fuel (heap.cell t (P.idx (bitsFrom (streamOf inp) pos) t)) s = .ok (r, s') ∧
        At inp (pos + k) s' ∧ SameOut s s' := by
  induction h with
  | @leaf t ht hpre hw hb =>
    intro fuel s hfuel hat hbits hheap
    obtain ⟨fuel, rfl⟩ : ∃ f, fuel = f + 1 := Nat.exists_eq_add_of_le' (by omega)
    obtain ⟨hat', -, hsame⟩ := hat.dump (hb.2.trans hbits)
    rw [follow, if_neg (Nat.not_lt.2 hr)]
    exact ⟨_, rfl, by rw [← Nat.add_assoc]; exact hat', hsame⟩
  | @link t t' k e ht hpre hw hnext hpos hpos' hcell hleads ih =>
    intro fuel s hfuel hat hbits hheap
    obtain ⟨fuel, rfl⟩ : ∃ f, fuel = f + 1 := Nat.exists_eq_add_of_le' (by omega)
    have hw' : P.w t' + P.bits t' ≤ bmax := by
      cases hleads with
      | leaf _ _ hw' => exact hw'
      | link _ _ hw' => exact hw'
    obtain ⟨hat', -, hsame⟩ := hat.dump hbits
    rw [Nat.add_assoc, ← hnext] at hat'
    have hbmax : bmax = 16 := rfl
    obtain ⟨s', hneed, hat'', hle, hsame'⟩ := hat'.needBits (n := P.bits t') (by omega) (by omega)
    obtain ⟨s'', hfollow, hat''', hsame''⟩ := @ih hr fuel s' (by omega) hat'' hle
      ((hsame.trans hsame').2.2.2.2.2.trans hheap)
    have he : 16 + P.bits t' - 16 = P.bits t' := Nat.add_sub_cancel_left 16 _
    rw [follow, hcell, if_pos (by show 16 + P.bits t' > 16; omega),
      if_neg (by show ¬ 16 + P.bits t' = 99; omega)]
    dsimp only
    rw [he, hneed]
    refine ⟨s'', ?_, hat''', (hsame.trans hsame').trans hsame''⟩
    show follow inp fuel (s'.heap.cell t' (peek (P.bits t') s')) s' = _
    rw [hat''.peek hle, ← idx_eq, (hsame.trans hsame').2.2.2.2.2.trans hheap]
    exact hfollow

/-- **The entry that the data are led to.** -/
theorem decode_leads {P : Places} {heap : Heap} {root bl k : Nat} {r : Huft}
    (h : Leads P heap (bitsFrom (streamOf inp) pos) root k r) (hw : P.w root = 0)
    (hbl : P.bits root = bl) (hr : r.e ≤ 16) (hroom : pos + bmax ≤ 8 * inp.length)
    (hat : At inp pos s) (hheap : s.heap = heap) :
    ∃ s', decode inp (some root) bl s = .ok (r, s') ∧ At inp (pos + k) s' ∧ SameOut s s' := by
  have hfirst : P.w root + P.bits root ≤ bmax := by
    cases h with
    | leaf _ _ hw' => exact hw'
    | link _ _ hw' => exact hw'
  have hbmax : bmax = 16 := rfl
  obtain ⟨s', hneed, hat', hle, hsame⟩ := hat.needBits (n := bl) (by omega) (by omega)
  obtain ⟨s'', hfollow, hat'', hsame'⟩ := follow_leads h hr hroom (bmax + 1)
    (by omega) (by rw [hw]; exact hat') (by rw [hbl]; exact hle) (hsame.2.2.2.2.2.trans hheap)
  refine ⟨s'', ?_, hat'', hsame.trans hsame'⟩
  unfold decode
  rw [hneed]
  show follow inp (bmax + 1) (s'.heap.cell root (peek bl s')) s' = _
  rw [hat'.peek hle, ← hbl, show bits (streamOf inp) pos (P.bits root) =
    P.idx (bitsFrom (streamOf inp) pos) root by rw [idx_eq, hw, Nat.add_zero],
    hsame.2.2.2.2.2.trans hheap]
  exact hfollow

end

/-! ## The codes of a block -/

/-- The decoder is at a position of the input with a history put out. -/
structure Ready (inp : List UInt8) (base : Nat) (heap : Heap) (pos : Nat) (hist : List UInt8)
    (s : Globals) : Prop where
  at_ : At inp pos s
  win : Win base hist s
  heap_ : s.heap = heap

section
variable {inp : List UInt8} {base : Nat} {heap : Heap} {pos n : Nat} {hist : List UInt8}
  {s s' : Globals}

theorem Ready.read {p : Nat} (h : Ready inp base heap pos hist s) (hat : At inp p s')
    (hsame : SameOut s s') : Ready inp base heap p hist s' :=
  ⟨hat, h.win.sameOut hsame, hsame.2.2.2.2.2.trans h.heap_⟩

theorem Ready.wrote {hist' : List UInt8} (h : Ready inp base heap pos hist s)
    (hwin : Win base hist' s') (hsame : SameIn s s') : Ready inp base heap pos hist' s' :=
  ⟨h.at_.sameIn hsame, hwin, hsame.2.2.2.2.trans h.heap_⟩

theorem Ready.takeBits (h : Ready inp base heap pos hist s) (hn : n ≤ 16)
    (hroom : pos + n ≤ 8 * inp.length) :
    ∃ s', Gzip.takeBits inp n s = .ok (bits (streamOf inp) pos n, s') ∧
      Ready inp base heap (pos + n) hist s' := by
  obtain ⟨s', htake, hat, hsame⟩ := takeBits_ok h.at_ hn hroom
  exact ⟨s', htake, h.read hat hsame⟩

/-- A code of the input is looked up. -/
theorem Ready.decode {b d e : List Nat} {sv m x k : Nat} {t : Option Nat}
    (h : Ready inp base heap pos hist s) (hdec : Decoder b sv d e heap t m)
    (hx : Decodes b (bitsFrom (streamOf inp) pos) x k)
    (he : ∀ r, EntryFor sv d e x r → r.e ≤ 16) (hroom : pos + bmax ≤ 8 * inp.length) :
    ∃ r s', Gzip.decode inp t m s = .ok (r, s') ∧ EntryFor sv d e x r ∧
      Ready inp base heap (pos + k) hist s' := by
  obtain ⟨root, P, r, rfl, hw, hbl, hr, hleads⟩ := hdec _ x k hx
  obtain ⟨s', hdecode, hat, hsame⟩ := decode_leads hleads hw hbl (he r hr) hroom h.at_ h.heap_
  exact ⟨r, s', hdecode, hr, h.read hat hsame⟩

theorem cplext_le {i : Nat} (hi : i < 29) : cplext.getD i 0 ≤ 5 := by
  revert i
  decide

theorem cpdext_le {j : Nat} (hj : j < 30) : cpdext.getD j 0 ≤ 13 := by
  revert j
  decide

theorem cplens_ge {i : Nat} (hi : i < 29) : 3 ≤ cplens.getD i 0 := by
  revert i
  decide

/-- No distance is longer than the window. -/
theorem cpdist_le {j : Nat} (hj : j < 30) :
    1 ≤ cpdist.getD j 0 ∧ cpdist.getD j 0 + 2 ^ cpdext.getD j 0 ≤ wsize + 1 := by
  revert j
  decide

/-! ## Entries -/

theorem EntryFor.literal {x : Nat} {r : Huft} (h : EntryFor 257 cplens cplext x r) (hx : x < 256) :
    r.e = 16 ∧ r.v = .n x := by
  unfold EntryFor at h
  rw [if_pos (by omega), if_pos hx, Nat.mod_eq_of_lt (by omega)] at h
  exact h

theorem EntryFor.eob {r : Huft} (h : EntryFor 257 cplens cplext 256 r) : r.e = 15 := h.1

theorem EntryFor.copy {i : Nat} {r : Huft} (h : EntryFor 257 cplens cplext (257 + i) r)
    (hi : i < 29) : r.e = cplext.getD i 0 ∧ r.v = .n (cplens.getD i 0) := by
  have hle := cplext_le hi
  unfold EntryFor at h
  rw [if_neg (by omega), Nat.add_sub_cancel_left, Nat.mod_eq_of_lt (by omega)] at h
  exact h

theorem EntryFor.distance {j : Nat} {r : Huft} (h : EntryFor 0 cpdist cpdext j r) (hj : j < 30) :
    r.e = cpdext.getD j 0 ∧ r.v = .n (cpdist.getD j 0) := by
  have hle := cpdext_le hj
  unfold EntryFor at h
  rw [if_neg (Nat.not_lt_zero j), Nat.sub_zero, Nat.mod_eq_of_lt (by omega)] at h
  exact h

/-! ## Top theorem -/

section
variable {tl td : Option Nat} {bl bd fuel : Nat}

theorem inflateCodes_next (h : codesTurn inp tl td bl bd s = .ok (.next s')) :
    inflateCodes inp tl td bl bd (fuel + 1) s = inflateCodes inp tl td bl bd fuel s' := by
  rw [inflateCodes, h]
  rfl

theorem inflateCodes_done (h : codesTurn inp tl td bl bd s = .ok (.done s')) :
    inflateCodes inp tl td bl bd (fuel + 1) s = .ok s' := by
  rw [inflateCodes, h]
  rfl

variable {lit dist : List Nat}

variable (td bd) in
/-- A literal goes into the window. -/
theorem codesTurn_literal {x k : Nat} (h : Ready inp base heap pos hist s)
    (hlit : Decoder lit 257 cplens cplext heap tl bl)
    (hx : Decodes lit (bitsFrom (streamOf inp) pos) x k) (hlt : x < 256)
    (hroom : pos + bmax ≤ 8 * inp.length) :
    ∃ s', codesTurn inp tl td bl bd s = .ok (.next s') ∧
      Ready inp base heap (pos + k) (hist ++ [UInt8.ofNat x]) s' := by
  obtain ⟨r, s₁, hdecode, hr, h₁⟩ := h.decode hlit hx
    (fun r hr => by rw [(hr.literal hlt).1]) hroom
  obtain ⟨he, hv⟩ := hr.literal hlt
  refine ⟨emit (UInt8.ofNat x) s₁, ?_, h₁.wrote (h₁.win.emit _) (emit_sameIn _ _)⟩
  unfold codesTurn
  rw [hdecode, ok_bind]
  dsimp only
  rw [if_pos he, hv]
  rfl

variable (td bd) in
/-- The end-of-block code ends the loop. -/
theorem codesTurn_eob {k : Nat} (h : Ready inp base heap pos hist s)
    (hlit : Decoder lit 257 cplens cplext heap tl bl)
    (hx : Decodes lit (bitsFrom (streamOf inp) pos) 256 k) (hroom : pos + bmax ≤ 8 * inp.length) :
    ∃ s', codesTurn inp tl td bl bd s = .ok (.done s') ∧ Ready inp base heap (pos + k) hist s' := by
  obtain ⟨r, s₁, hdecode, hr, h₁⟩ := h.decode hlit hx (fun r hr => by rw [hr.eob]; decide) hroom
  refine ⟨s₁, ?_, h₁⟩
  unfold codesTurn
  rw [hdecode, ok_bind]
  dsimp only
  rw [hr.eob, if_neg (by decide), if_pos rfl]

/-- A length and a distance: what they stand for is copied. -/
theorem codesTurn_copy {i k j k' : Nat} (h : Ready inp base heap pos hist s)
    (hlit : Decoder lit 257 cplens cplext heap tl bl)
    (hdist : Decoder dist 0 cpdist cpdext heap td bd)
    (hx : Decodes lit (bitsFrom (streamOf inp) pos) (257 + i) k) (hi : i < 29)
    (hy : Decodes dist (bitsFrom (streamOf inp) (pos + k + cplext.getD i 0)) j k') (hj : j < 30)
    (hfar : cpdist.getD j 0 + bits (streamOf inp) (pos + k + cplext.getD i 0 + k') (cpdext.getD j 0) ≤
      hist.length)
    (hroom : pos + k + cplext.getD i 0 + k' + cpdext.getD j 0 + bmax ≤ 8 * inp.length) :
    ∃ s', codesTurn inp tl td bl bd s = .ok (.next s') ∧
      Ready inp base heap (pos + k + cplext.getD i 0 + k' + cpdext.getD j 0)
        (copyBack
          (cpdist.getD j 0 + bits (streamOf inp) (pos + k + cplext.getD i 0 + k') (cpdext.getD j 0))
          (cplens.getD i 0 + bits (streamOf inp) (pos + k) (cplext.getD i 0)) hist) s' := by
  have hbmax : bmax = 16 := rfl
  have hext := cplext_le hi
  have hdext := cpdext_le hj
  obtain ⟨hone, hmost⟩ := cpdist_le hj
  obtain ⟨r, s₁, hdecode, hr, h₁⟩ := h.decode hlit hx
    (fun r hr => by rw [(hr.copy hi).1]; omega) (by omega)
  obtain ⟨he, hv⟩ := hr.copy hi
  obtain ⟨s₂, htake, h₂⟩ := h₁.takeBits (n := cplext.getD i 0) (by omega) (by omega)
  obtain ⟨r', s₃, hdecode', hr', h₃⟩ := h₂.decode hdist hy
    (fun r hr => by rw [(hr.distance hj).1]; omega) (by omega)
  obtain ⟨he', hv'⟩ := hr'.distance hj
  obtain ⟨s₄, htake', h₄⟩ := h₃.takeBits (n := cpdext.getD j 0) (by omega) (by omega)
  have hbits := bits_lt (streamOf inp) (pos + k + cplext.getD i 0 + k') (cpdext.getD j 0)
  generalize hδ : cpdist.getD j 0 +
    bits (streamOf inp) (pos + k + cplext.getD i 0 + k') (cpdext.getD j 0) = δ at hfar
  generalize hn : cplens.getD i 0 + bits (streamOf inp) (pos + k) (cplext.getD i 0) = n
  -- the distance in the window
  have hcnt := h₄.win.cnt
  have hd : (s₄.outcnt + 2 * 2 ^ 32 - cpdist.getD j 0 -
      bits (streamOf inp) (pos + k + cplext.getD i 0 + k') (cpdext.getD j 0)) % 2 ^ 32 % wsize =
      (hist.length - δ) % wsize := by
    unfold wsize at *
    omega
  have hlen := cplens_ge hi
  obtain ⟨hwin, hsame⟩ := @Win.copyLoop _ _ _ n n _ δ h₄.win (by omega)
    (by unfold wsize at *; omega) hfar hd (by omega) (Nat.le_refl n)
  refine ⟨_, ?_, h₄.wrote hwin hsame⟩
  unfold codesTurn
  rw [hdecode, ok_bind]
  dsimp only
  rw [if_neg (by omega), if_neg (by omega), hv, he, Val.base, ok_bind, htake, ok_bind]
  dsimp only
  rw [hdecode', ok_bind]
  dsimp only
  rw [hv', he', Val.base, ok_bind, htake', ok_bind, ← hn]

/-- **`inflate_codes`.**  With tables for its codes, a block's codes add the bytes that
they stand for. -/
theorem inflateCodes_tokens {pos' : Nat} {hist' : List UInt8}
    (hlit : Decoder lit 257 cplens cplext heap tl bl)
    (hdist : Decoder dist 0 cpdist cpdext heap td bd)
    (htok : Tokens lit dist (streamOf inp) pos hist pos' hist')
    (hroom : pos' + bmax ≤ 8 * inp.length) (h : Ready inp base heap pos hist s)
    (hfuel : pos' ≤ pos + fuel) :
    ∃ s', inflateCodes inp tl td bl bd fuel s = .ok s' ∧ Ready inp base heap pos' hist' s' := by
  induction htok generalizing s fuel with
  | @eob pos k hist hx =>
    have hk := hx.2.1
    obtain ⟨fuel, rfl⟩ : ∃ f, fuel = f + 1 := Nat.exists_eq_add_of_le' (by omega)
    obtain ⟨s', hturn, h'⟩ := codesTurn_eob td bd h hlit hx (by omega)
    exact ⟨s', inflateCodes_done hturn, h'⟩
  | @literal pos x k pos' hist hist' hx hlt rest ih =>
    have hk := hx.2.1
    have hgrows := rest.grows.2
    obtain ⟨fuel, rfl⟩ : ∃ f, fuel = f + 1 := Nat.exists_eq_add_of_le' (by omega)
    obtain ⟨s', hturn, h'⟩ := codesTurn_literal td bd h hlit hx hlt (by omega)
    rw [inflateCodes_next hturn]
    exact ih hroom h' (by omega)
  | @copy pos i k p n j k' q δ pos' hist hist' hx hi hn hp hy hj hδ hq hfar rest ih =>
    subst hp hn hδ hq
    have hk := hx.2.1
    have hgrows := rest.grows.2
    obtain ⟨fuel, rfl⟩ : ∃ f, fuel = f + 1 := Nat.exists_eq_add_of_le' (by omega)
    obtain ⟨s', hturn, h'⟩ := codesTurn_copy h hlit hdist hx hi hy hj hfar (by omega)
    rw [inflateCodes_next hturn]
    exact ih hroom h' (by omega)

end

end

/-! ## Tables and look-up together -/

/-- **`huft_build` and its tables.**  What it returns is Kraft's sum: 2 if the codes take more
than there is, 0 if they take all or none is longer than a bit, 1 otherwise.  Unless it is 2, and
with codes that need two levels of tables at most, data that begin with the code of a value
are looked up as that value's entry, the code's bits are taken, and the tables that were there
stay. -/
theorem huftBuild_decodes {b : List Nat} {sv : Nat} {d e : List Nat} {m : Nat} {heap : Heap}
    {v : Nat → Nat} {r : Huft} (hle : ∀ k ∈ b, k ≤ bmax) :
    let t := huftBuild b sv d e m heap v r
    (t.ret = if room b > 2 ^ bmax then 2 else if room b = 2 ^ bmax ∨ ∀ k ∈ b, k ≤ 1 then 0 else 1) ∧
      (Shallow b m → t.ret ≠ 2 →
        (∀ inp pos s x k, Decodes b (bitsFrom (streamOf inp) pos) x k →
          (sv ≤ x → e.getD (x - sv) 0 ≤ 16) → pos + bmax ≤ 8 * inp.length → At inp pos s →
          s.heap = t.heap → ∃ r s', Gzip.decode inp t.t t.m s = .ok (r, s') ∧ EntryFor sv d e x r ∧
            At inp (pos + k) s' ∧ SameOut s s') ∧
        heap.count ≤ t.heap.count ∧ ∀ i < heap.count, t.heap.cell i = heap.cell i) := by
  intro t
  refine ⟨huftBuild_ret hle, fun hm hret => ?_⟩
  obtain ⟨hdec, hcount, hcell⟩ := huftBuild_decoder hle hm hret
  refine ⟨fun inp pos s x k hx he hroom hat hheap => ?_, hcount, hcell⟩
  obtain ⟨root, P, r, ht, hw, hbits, hr, hleads⟩ := hdec _ x k hx
  have hre : r.e ≤ 16 := by
    unfold EntryFor at hr
    by_cases hlt : x < sv
    · rw [if_pos hlt] at hr
      rw [hr.1]
      split <;> decide
    · rw [if_neg hlt] at hr
      have := he (Nat.le_of_not_lt hlt)
      rw [hr.1]
      omega
  obtain ⟨s', hrun, hat', hsame⟩ := decode_leads hleads hw hbits hre hroom hat hheap
  refine ⟨r, s', ?_, hr, hat', hsame⟩
  show decode inp t.t t.m s = _
  rw [show t.t = some root from ht]
  exact hrun

/-- The codes 0, 10 and 11, with one bit for the first table: 11 is in the second. -/
theorem huftBuild_three :
    let t := huftBuild [1, 2, 2] 3 [] [] 1 ⟨0, fun _ _ => ⟨0, 0, .n 0⟩⟩ (fun _ => 0) ⟨0, 0, .n 0⟩
    t.ret = 0 ∧ t.heap.count = 2 ∧
      ∃ r s', decode [3, 0] t.t t.m ⟨0, 0, 0, 0, 0, fun _ => 0, [], crcStart, 0, t.heap⟩ =
          .ok (r, s') ∧ r.e = 16 ∧ r.v = .n 2 ∧ At [3, 0] 2 s' := by
  intro t
  obtain ⟨hret, htables⟩ := @huftBuild_decodes [1, 2, 2] 3 [] [] 1 ⟨0, fun _ _ => ⟨0, 0, .n 0⟩⟩
    (fun _ => 0) ⟨0, 0, .n 0⟩ (by decide)
  have hzero : t.ret = 0 := hret.trans (by decide)
  obtain ⟨hlook, -⟩ := htables (Or.inl (by decide)) (by rw [hzero]; decide)
  obtain ⟨r, s', hrun, hr, hat, -⟩ := hlook [3, 0] 0
    ⟨0, 0, 0, 0, 0, fun _ => 0, [], crcStart, 0, t.heap⟩ 2 2 (by decide)
    (fun h => absurd h (by decide)) (by decide)
    ⟨rfl, (Nat.mod_one _).symm, Nat.zero_le _, Or.inr ⟨rfl, rfl⟩, (by decide : 0 < 32)⟩ rfl
  obtain ⟨he, hv⟩ := hr
  exact ⟨hzero, by decide +kernel, r, s', hrun, he, hv, hat⟩

end Gentoox.Gzip
