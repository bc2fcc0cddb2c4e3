import GentooxLoader.Gzip.Codes

/-!
# The blocks of a stream (lib/gzip/inflate.c)

`inflate_stored`, `inflate_fixed` and `inflate_dynamic` put out what a block
stands for, `inflate` all blocks, and gives back the bytes that it took too many.
What lies on the stack where `huft_build` is called is a function of the memory
then, that is, anything.

    inflateStored_block     a stored block
    readBitLengths_eq       the lengths of the bit length codes
    readLengths_lengths     the lengths of the codes
    inflateDynamic_block    a dynamic block
    inflateBlock_block      any block
    inflate_stream          all blocks
-/

namespace Gentoox.Gzip

open Cells

/-! ## Algorithm -/

def lbits : Nat := 9

def dbits : Nat := 6

/-- What lies on the stack: `v` and `r` of `huft_build`, `ll` of `inflate_dynamic`. -/
structure Junk where
  v : Nat → Nat
  r : Huft
  ll : Nat → Nat

section
variable (inp : List UInt8) (junk : Heap → Junk)

/-- `while (n--)` of `inflate_stored`. -/
def storedBytes : Nat → Globals → Run Globals
  | 0, s => .ok s
  | n + 1, s => do
    let s ← needBits inp 8 s
    storedBytes n (dump 8 (emit (UInt8.ofNat s.bb) s))

def inflateStored (s : Globals) : Run Globals := do
  let s := dump (s.bk % 8) s
  let (n, s) ← takeBits inp 16 s
  let s ← needBits inp 16 s
  if n ≠ (2 ^ 32 - 1 - s.bb) % 2 ^ 16 then .error (.ret 1)
  else storedBytes inp n (dump 16 s)

/-- `huft_build` where it is called. -/
def build (b : List Nat) (s : Nat) (d e : List Nat) (m : Nat) (heap : Heap) : Built :=
  huftBuild b s d e m heap (junk heap).v (junk heap).r

def inflateFixed (fuel : Nat) (s : Globals) : Run Globals := do
  let tl := build junk fixedLit 257 cplens cplext 7 s.heap
  if tl.ret ≠ 0 then .error (.ret tl.ret)
  else
    let td := build junk fixedDist 0 cpdist cpdext 5 tl.heap
    if td.ret > 1 then .error (.ret td.ret)
    else inflateCodes inp tl.t td.t tl.m td.m fuel { s with heap := td.heap }

/-- The lengths of the bit length codes, for the codes in this order. -/
def readBitLengths : List Nat → (Nat → Nat) → Globals → Run ((Nat → Nat) × Globals)
  | [], ll, s => .ok (ll, s)
  | p :: ps, ll, s => do
    let (x, s) ← takeBits inp 3 s
    readBitLengths ps (Function.update ll p x) s

/-- `while (i < n)` of `inflate_dynamic`; `l` is the last length. -/
def readLengths (t : Option Nat) (bl n : Nat) :
    Nat → Nat → Nat → (Nat → Nat) → Globals → Run ((Nat → Nat) × Globals)
  | 0, _, _, _, _ => .error .fuel
  | fuel + 1, i, l, ll, s =>
    if i < n then do
      let s ← needBits inp bl s
      match t with
      | none => .error .null
      | some t =>
        let r := s.heap.cell t (peek bl s)
        let s := dump r.b s
        let j ← r.v.base
        if j < 16 then readLengths (some t) bl n fuel (i + 1) j (Function.update ll i j) s
        else if j = 16 then
          let (x, s) ← takeBits inp 2 s
          let j := 3 + x
          if i + j > n then .error (.ret 1)
          else readLengths (some t) bl n fuel (i + j) l (fill ll i l j) s
        else if j = 17 then
          let (x, s) ← takeBits inp 3 s
          let j := 3 + x
          if i + j > n then .error (.ret 1)
          else readLengths (some t) bl n fuel (i + j) 0 (fill ll i 0 j) s
        else
          let (x, s) ← takeBits inp 7 s
          let j := 11 + x
          if i + j > n then .error (.ret 1)
          else readLengths (some t) bl n fuel (i + j) 0 (fill ll i 0 j) s
    else .ok (ll, s)

/-- The tables of a dynamic block, and its codes. -/
def inflateTables (fuel nl nd : Nat) (ll : Nat → Nat) (s : Globals) : Run Globals :=
  let tl := build junk (read ll 0 nl) 257 cplens cplext lbits s.heap
  if tl.ret ≠ 0 then if tl.ret = 1 then .error .error else .error (.ret tl.ret)
  else
    let td := build junk (read ll nl nd) 0 cpdist cpdext dbits tl.heap
    if td.ret ≠ 0 then if td.ret = 1 then .error .error else .error (.ret td.ret)
    else inflateCodes inp tl.t td.t tl.m td.m fuel { s with heap := td.heap }

def inflateDynamic (fuel : Nat) (s : Globals) : Run Globals := do
  let (x, s) ← takeBits inp 5 s
  let nl := 257 + x
  let (x, s) ← takeBits inp 5 s
  let nd := 1 + x
  let (x, s) ← takeBits inp 4 s
  let nb := 4 + x
  if nl > 286 ∨ nd > 30 then .error (.ret 1)
  else
    let (ll, s) ← readBitLengths inp (border.take nb) (junk s.heap).ll s
    let ll := (border.drop nb).foldl (fun ll p => Function.update ll p 0) ll
    let t := build junk (read ll 0 19) 19 [] [] 7 s.heap
    if t.ret ≠ 0 then .error (.ret t.ret)
    else
      let (ll, s) ← readLengths inp t.t t.m (nl + nd) (nl + nd + 1) 0 0 ll { s with heap := t.heap }
      inflateTables inp junk fuel nl nd ll s

/-- Inflate that block type. -/
def inflateType (fuel t : Nat) (s : Globals) : Run Globals :=
  if t = 2 then inflateDynamic inp junk fuel s
  else if t = 0 then inflateStored inp s
  else if t = 1 then inflateFixed inp junk fuel s
  else .error (.ret 2)

/-- The last block flag, and the block inflated. -/
def inflateBlock (fuel : Nat) (s : Globals) : Run (Nat × Globals) := do
  let (e, s) ← takeBits inp 1 s
  let (t, s) ← takeBits inp 2 s
  let s ← inflateType inp junk fuel t s
  .ok (e, s)

/-- `do … while (!e)`, with the memory marked before a block and released behind it. -/
def inflateBlocks (fuel : Nat) : Nat → Globals → Run Globals
  | 0, _ => .error .fuel
  | left + 1, s => do
    let mark := s.heap.count
    let (e, s) ← inflateBlock inp junk fuel s
    let s := { s with heap.count := mark }
    if e = 0 then inflateBlocks fuel left s else .ok s

/-- Undo too much lookahead; `inptr` is unsigned. -/
def undo (s : Globals) : Globals :=
  if s.bk ≥ 8 then undo { s with bk := s.bk - 8, inptr := (s.inptr + 2 ^ 32 - 1) % 2 ^ 32 } else s
termination_by s.bk

def inflate (fuel : Nat) (s : Globals) : Run Globals := do
  let s ← inflateBlocks inp junk fuel fuel { s with outcnt := 0, bk := 0, bb := 0 }
  .ok (flushWindow (undo s))

end

/-! ## Stored blocks -/

section
variable {inp : List UInt8} {base : Nat} {heap : Heap} {pos n : Nat} {hist : List UInt8}
  {s : Globals}

theorem Ready.needBits (h : Ready inp base heap pos hist s) (hn : n ≤ 16)
    (hroom : pos + n ≤ 8 * inp.length) :
    ∃ s', Gzip.needBits inp n s = .ok s' ∧ Ready inp base heap pos hist s' ∧ n ≤ s'.bk := by
  obtain ⟨s', hneed, hat, hle, hsame⟩ := h.at_.needBits hn hroom
  exact ⟨s', hneed, h.read hat hsame, hle⟩

theorem Ready.dump (h : Ready inp base heap pos hist s) (hn : n ≤ s.bk) :
    Ready inp base heap (pos + n) hist (Gzip.dump n s) := by
  obtain ⟨hat, -, hsame⟩ := h.at_.dump hn
  exact h.read hat hsame

/-- The low byte of the buffer. -/
theorem ofNat_bb (h : At inp pos s) (hn : 8 ≤ s.bk) :
    UInt8.ofNat s.bb = UInt8.ofNat (bits (streamOf inp) pos 8) := by
  rw [← h.peek hn, Gzip.peek, maskBits, Nat.and_two_pow_sub_one_eq_mod]
  apply UInt8.toNat_inj.1
  rw [UInt8.toNat_ofNat', UInt8.toNat_ofNat', Nat.mod_mod]

theorem storedBytes_ok (h : Ready inp base heap pos hist s) (hroom : pos + 8 * n ≤ 8 * inp.length) :
    ∃ s', storedBytes inp n s = .ok s' ∧ Ready inp base heap (pos + 8 * n)
      (hist ++ (List.range n).map fun i => UInt8.ofNat (bits (streamOf inp) (pos + 8 * i) 8)) s' := by
  induction n generalizing s pos hist with
  | zero =>
    refine ⟨s, rfl, ?_⟩
    rw [List.range_zero, List.map_nil, List.append_nil]
    exact h
  | succ n ih =>
    obtain ⟨s₁, hneed, h₁, hle⟩ := h.needBits (n := 8) (by decide) (by omega)
    have hsame := emit_sameIn (UInt8.ofNat s₁.bb) s₁
    have h₂ : Ready inp base heap pos (hist ++ [UInt8.ofNat (bits (streamOf inp) pos 8)])
        (emit (UInt8.ofNat s₁.bb) s₁) := by
      rw [← ofNat_bb h₁.at_ hle]
      exact h₁.wrote (h₁.win.emit _) hsame
    have h₃ := h₂.dump (n := 8) (by rw [hsame.2.2.2.1]; exact hle)
    obtain ⟨s', hrest, h'⟩ := ih h₃ (by omega)
    refine ⟨s', ?_, ?_⟩
    · rw [storedBytes, hneed, ok_bind]
      exact hrest
    · rw [List.range_succ_eq_map, List.map_cons, List.map_map]
      have hplace : pos + 8 + 8 * n = pos + 8 * (n + 1) := by omega
      rw [hplace, List.append_assoc] at h'
      have hmap : ((fun i => UInt8.ofNat (bits (streamOf inp) (pos + 8 * i) 8)) ∘ Nat.succ) =
          fun i => UInt8.ofNat (bits (streamOf inp) (pos + 8 + 8 * i) 8) := by
        funext i
        show UInt8.ofNat (bits (streamOf inp) (pos + 8 * (i + 1)) 8) = _
        congr 2
        omega
      rw [hmap]
      exact h'

/-- **A stored block.** -/
theorem inflateStored_block {n : Nat} (h : Ready inp base heap pos hist s)
    (hn : n = bits (streamOf inp) (aligned pos) 16)
    (hcomp : bits (streamOf inp) (aligned pos + 16) 16 = 0xffff - n)
    (hroom : aligned pos + 32 + 8 * n ≤ 8 * inp.length) :
    ∃ s', inflateStored inp s = .ok s' ∧ Ready inp base heap (aligned pos + 32 + 8 * n)
      (hist ++ (List.range n).map fun i =>
        UInt8.ofNat (bits (streamOf inp) (aligned pos + 32 + 8 * i) 8)) s' := by
  have hplace := h.at_.place
  have halign : pos + s.bk % 8 = aligned pos := by
    unfold aligned
    omega
  have h₁ := h.dump (n := s.bk % 8) (Nat.mod_le _ _)
  rw [halign] at h₁
  obtain ⟨s₂, htake, h₂⟩ := h₁.takeBits (n := 16) (by decide) (by omega)
  obtain ⟨s₃, hneed, h₃, hle⟩ := h₂.needBits (n := 16) (by decide) (by omega)
  have h₄ := h₃.dump hle
  obtain ⟨s', hbytes, h'⟩ := storedBytes_ok (n := n) h₄ (by omega)
  refine ⟨s', ?_, h'⟩
  unfold inflateStored
  dsimp only
  rw [htake, ok_bind]
  dsimp only
  rw [hneed, ok_bind, ← hn, if_neg]
  · exact hbytes
  · -- the complement
    have hpeek := h₃.at_.peek hle
    rw [hcomp, Gzip.peek, maskBits, Nat.and_two_pow_sub_one_eq_mod] at hpeek
    have hn16 := bits_lt (streamOf inp) (aligned pos) 16
    have hbb : s₃.bb < 2 ^ 32 := by
      rw [h₃.at_.buffer]
      refine (bits_lt _ _ _).trans_le (Nat.pow_le_pow_right Nat.two_pos ?_)
      exact Nat.le_of_lt h₃.at_.small
    omega

end

/-! ## Fixed blocks -/

section
variable {inp : List UInt8} {junk : Heap → Junk} {base : Nat} {heap : Heap} {pos pos' fuel : Nat}
  {hist hist' : List UInt8} {s : Globals}

theorem Ready.withHeap (h : Ready inp base heap pos hist s) (heap' : Heap) :
    Ready inp base heap' pos hist { s with heap := heap' } :=
  ⟨⟨h.at_.place, h.at_.buffer, h.at_.inside, h.at_.filled, h.at_.small⟩,
    ⟨h.win.ring, h.win.cnt, h.win.base_le, h.win.base_mod, h.win.out, h.win.crc, h.win.bytes⟩, rfl⟩

variable (junk heap) in
theorem build_decoder {b : List Nat} {sv : Nat} {d e : List Nat} {m : Nat} (hle : ∀ k ∈ b, k ≤ bmax)
    (hm : Shallow b m) (hret : (build junk b sv d e m heap).ret ≠ 2) :
    Decoder b sv d e (build junk b sv d e m heap).heap (build junk b sv d e m heap).t
        (build junk b sv d e m heap).m ∧
      heap.count ≤ (build junk b sv d e m heap).heap.count ∧
      ∀ t < heap.count, (build junk b sv d e m heap).heap.cell t = heap.cell t :=
  huftBuild_decoder hle hm hret

variable (junk heap) in
/-- Both tables of a block, the second built behind the first. -/
theorem build_two {lit dist : List Nat} {ml md : Nat} (hlit : ∀ k ∈ lit, k ≤ bmax)
    (hdist : ∀ k ∈ dist, k ≤ bmax) (hml : Shallow lit ml) (hmd : Shallow dist md)
    (hretl : (build junk lit 257 cplens cplext ml heap).ret ≠ 2)
    (hretd : (build junk dist 0 cpdist cpdext md
      (build junk lit 257 cplens cplext ml heap).heap).ret ≠ 2) :
    let tl := build junk lit 257 cplens cplext ml heap
    let td := build junk dist 0 cpdist cpdext md tl.heap
    Decoder lit 257 cplens cplext td.heap tl.t tl.m ∧ Decoder dist 0 cpdist cpdext td.heap td.t td.m := by
  intro tl td
  obtain ⟨hl, -, -⟩ := build_decoder junk heap hlit hml hretl
  obtain ⟨hd, hcount, hcell⟩ := build_decoder junk _ hdist hmd hretd
  exact ⟨hl.mono hcount hcell, hd⟩

theorem fixedLit_le : ∀ k ∈ fixedLit, k ≤ 9 := by
  intro k hk
  simp only [fixedLit, List.mem_append, List.mem_replicate] at hk
  omega

theorem fixedDist_le : ∀ k ∈ fixedDist, k ≤ 5 := by
  intro k hk
  exact (List.eq_of_mem_replicate hk).le

theorem room_fixedLit : room fixedLit = 2 ^ bmax := by
  unfold room fixedLit
  rw [List.map_append, List.map_append, List.map_append, List.sum_append, List.sum_append,
    List.sum_append, List.map_replicate, List.map_replicate, List.map_replicate,
    List.map_replicate, List.sum_replicate, List.sum_replicate, List.sum_replicate,
    List.sum_replicate]
  decide

theorem room_fixedDist : room fixedDist < 2 ^ bmax := by
  unfold room fixedDist
  rw [List.map_replicate, List.sum_replicate]
  decide

/-- **A fixed block.** -/
theorem inflateFixed_block (h : Ready inp base heap pos hist s)
    (htok : Tokens fixedLit fixedDist (streamOf inp) pos hist pos' hist')
    (hroom : pos' + bmax ≤ 8 * inp.length) (hfuel : pos' ≤ pos + fuel) :
    ∃ s', inflateFixed inp junk fuel s = .ok s' ∧ Ready inp base s'.heap pos' hist' s' := by
  have hlit : ∀ k ∈ fixedLit, k ≤ bmax := fun k hk => (fixedLit_le k hk).trans (by decide)
  have hdist : ∀ k ∈ fixedDist, k ≤ bmax := fun k hk => (fixedDist_le k hk).trans (by decide)
  have hretl : (build junk fixedLit 257 cplens cplext 7 s.heap).ret = 0 := by
    unfold build
    rw [huftBuild_ret hlit, room_fixedLit, if_neg (Nat.lt_irrefl _), if_pos (Or.inl rfl)]
  have hretd : (build junk fixedDist 0 cpdist cpdext 5
      (build junk fixedLit 257 cplens cplext 7 s.heap).heap).ret ≤ 1 := by
    unfold build
    rw [huftBuild_ret hdist, if_neg (Nat.not_lt.2 (Nat.le_of_lt room_fixedDist))]
    split <;> decide
  obtain ⟨hdl, hdd⟩ := build_two junk s.heap hlit hdist
    (Or.inl fun k hk => (fixedLit_le k hk).trans (by decide : 9 ≤ 2 * 7))
    (Or.inl fun k hk => (fixedDist_le k hk).trans (by decide : 5 ≤ 2 * 5)) (by omega) (by omega)
  obtain ⟨s', hcodes, h'⟩ := inflateCodes_tokens hdl hdd htok hroom (h.withHeap _) hfuel
  refine ⟨s', ?_, h'.heap_.symm ▸ h'⟩
  unfold inflateFixed
  dsimp only
  rw [if_neg (not_not.2 hretl), if_neg (by omega)]
  exact hcodes

/-! ## Dynamic blocks -/

/-- The look-up of a bit length code: its table is the only one. -/
theorem Ready.lookup {b d e : List Nat} {sv m x k : Nat} {t : Option Nat}
    (h : Ready inp base heap pos hist s) (hdec : Decoder b sv d e heap t m)
    (hx : Decodes b (bitsFrom (streamOf inp) pos) x k) (hk : k ≤ m) (hm : m ≤ bmax)
    (hroom : pos + bmax ≤ 8 * inp.length) :
    ∃ root s', t = some root ∧ Gzip.needBits inp m s = .ok s' ∧
      EntryFor sv d e x (s'.heap.cell root (peek m s')) ∧
      Ready inp base heap (pos + k) hist (Gzip.dump (s'.heap.cell root (peek m s')).b s') := by
  have hbmax : bmax = 16 := rfl
  obtain ⟨root, P, r, rfl, hw, hbits, hr, hleads⟩ := hdec _ x k hx
  obtain ⟨s', hneed, h', hle⟩ := h.needBits (n := m) (by omega) (by omega)
  obtain ⟨hcell, hb⟩ := hleads.single (by omega)
  have hidx : P.idx (bitsFrom (streamOf inp) pos) root = peek m s' := by
    rw [idx_eq, hw, Nat.add_zero, hbits, h'.at_.peek hle]
  rw [hidx, ← h'.heap_] at hcell
  have hbk : r.b = k := by omega
  refine ⟨root, s', rfl, hneed, ?_, ?_⟩
  · rw [hcell]
    exact hr
  · rw [hcell, hbk]
    exact h'.dump (hk.trans hle)

theorem read_update (ll : Nat → Nat) (i j : Nat) :
    read (Function.update ll i j) 0 (i + 1) = read ll 0 i ++ [j] := by
  rw [read_add, read_update_of_outside (by omega), Nat.zero_add, read_succ, Function.update_self]
  rfl

theorem read_fill (ll : Nat → Nat) (i v n : Nat) :
    read (fill ll i v n) 0 (i + n) = read ll 0 i ++ List.replicate n v := by
  rw [read_add, Nat.zero_add]
  congr 1
  · apply read_congr
    intro j _ hj
    exact fill_of_outside _ _ _ _ _ (by omega)
  · apply List.ext_getElem
    · rw [length_read, List.length_replicate]
    · intro j h1 h2
      rw [length_read] at h1
      rw [getElem_read, List.getElem_replicate, fill_apply _ _ _ _ _ (by omega)]

/-- **The lengths of the codes.** -/
theorem readLengths_lengths {cl l l' : List Nat} {m n : Nat} {t : Option Nat}
    (hdec : Decoder cl 19 [] [] heap t m) (hcl : ∀ S x k, Decodes cl S x k → k ≤ m) (hm : m ≤ bmax)
    (hll : Lengths cl (streamOf inp) n pos l pos' l') (hroom : pos' + bmax ≤ 8 * inp.length) :
    ∀ (fuel : Nat) (ll : Nat → Nat) {s : Globals}, Ready inp base heap pos hist s →
      read ll 0 l.length = l → n < l.length + fuel →
      ∃ ll' s', readLengths inp t m n fuel l.length (l.getLastD 0) ll s = .ok (ll', s') ∧
        Ready inp base heap pos' hist s' ∧ read ll' 0 n = l' := by
  have hbmax : bmax = 16 := rfl
  induction hll with
  | @done pos l hlen =>
    intro fuel ll s h hread hfuel
    obtain ⟨fuel, rfl⟩ : ∃ f, fuel = f + 1 := Nat.exists_eq_add_of_le' (by omega)
    refine ⟨ll, s, ?_, h, hlen ▸ hread⟩
    rw [readLengths, if_neg (by omega)]
  | @length pos x k pos' l l' hlt hx hx16 rest ih =>
    intro fuel ll s h hread hfuel
    obtain ⟨fuel, rfl⟩ : ∃ f, fuel = f + 1 := Nat.exists_eq_add_of_le' (by omega)
    have hgrows := rest.grows.1
    obtain ⟨root, s₁, rfl, hneed, hr, h₁⟩ := h.lookup hdec hx (hcl _ _ _ hx) hm (by omega)
    obtain ⟨ll', s', hrest, h', hread'⟩ := ih hroom fuel
      (Function.update ll l.length x) h₁
      (by rw [List.length_append, List.length_singleton, read_update, hread])
      (by rw [List.length_append, List.length_singleton]; omega)
    refine ⟨ll', s', ?_, h', hread'⟩
    unfold EntryFor at hr
    rw [if_pos (by omega), Nat.mod_eq_of_lt (by omega)] at hr
    rw [List.length_append, List.length_singleton, List.getLastD_concat] at hrest
    rw [readLengths, if_pos hlt, hneed, ok_bind]
    dsimp only
    rw [hr.2, Val.base, ok_bind, if_pos hx16]
    exact hrest
  | @again pos k j pos' l l' hlt hx hj hle rest ih =>
    intro fuel ll s h hread hfuel
    obtain ⟨fuel, rfl⟩ : ∃ f, fuel = f + 1 := Nat.exists_eq_add_of_le' (by omega)
    have hgrows := rest.grows.1
    obtain ⟨root, s₁, rfl, hneed, hr, h₁⟩ := h.lookup hdec hx (hcl _ _ _ hx) hm (by omega)
    obtain ⟨s₂, htake, h₂⟩ := h₁.takeBits (n := 2) (by decide) (by omega)
    have hlast : (l ++ List.replicate j (l.getLastD 0)).getLastD 0 = l.getLastD 0 := by
      rw [hj, Nat.add_comm 3, List.replicate_succ', ← List.append_assoc, List.getLastD_concat]
    obtain ⟨ll', s', hrest, h', hread'⟩ := ih hroom fuel
      (fill ll l.length (l.getLastD 0) j) h₂
      (by rw [List.length_append, List.length_replicate, read_fill, hread])
      (by rw [List.length_append, List.length_replicate]; omega)
    refine ⟨ll', s', ?_, h', hread'⟩
    unfold EntryFor at hr
    rw [if_pos (by decide), Nat.mod_eq_of_lt (by decide)] at hr
    rw [List.length_append, List.length_replicate, hlast] at hrest
    rw [readLengths, if_pos hlt, hneed, ok_bind]
    dsimp only
    rw [hr.2, Val.base, ok_bind, if_neg (by decide), if_pos rfl, htake, ok_bind]
    dsimp only
    rw [← hj, if_neg (by omega)]
    exact hrest
  | @zeros pos x k j pos' extra low l l' hlt hx hxs hj hle rest ih =>
    intro fuel ll s h hread hfuel
    obtain ⟨fuel, rfl⟩ : ∃ f, fuel = f + 1 := Nat.exists_eq_add_of_le' (by omega)
    have hgrows := rest.grows.1
    have hextra : extra ≤ 16 := by omega
    obtain ⟨root, s₁, rfl, hneed, hr, h₁⟩ := h.lookup hdec hx (hcl _ _ _ hx) hm (by omega)
    obtain ⟨s₂, htake, h₂⟩ := h₁.takeBits hextra (by omega)
    have hlast : (l ++ List.replicate j 0).getLastD 0 = 0 := by
      obtain ⟨i, rfl⟩ : ∃ i, j = i + 1 := Nat.exists_eq_add_of_le' (by omega)
      rw [List.replicate_succ', ← List.append_assoc, List.getLastD_concat]
    obtain ⟨ll', s', hrest, h', hread'⟩ := ih hroom fuel
      (fill ll l.length 0 j) h₂
      (by rw [List.length_append, List.length_replicate, read_fill, hread])
      (by rw [List.length_append, List.length_replicate]; omega)
    refine ⟨ll', s', ?_, h', hread'⟩
    unfold EntryFor at hr
    rw [if_pos (by omega), Nat.mod_eq_of_lt (by omega)] at hr
    rw [List.length_append, List.length_replicate, hlast] at hrest
    rw [readLengths, if_pos hlt, hneed, ok_bind]
    dsimp only
    rw [hr.2, Val.base, ok_bind]
    rcases hxs with ⟨rfl, rfl, rfl⟩ | ⟨rfl, rfl, rfl⟩
    · rw [if_neg (by decide), if_neg (by decide), if_pos rfl, htake, ok_bind]
      dsimp only
      rw [← hj, if_neg (by omega)]
      exact hrest
    · rw [if_neg (by decide), if_neg (by decide), if_neg (by decide), htake, ok_bind]
      dsimp only
      rw [← hj, if_neg (by omega)]
      exact hrest

/-- The lengths of the bit length codes that are given. -/
theorem readBitLengths_eq {ps : List Nat} (hps : ps.Nodup) (h : Ready inp base heap pos hist s)
    (hroom : pos + 3 * ps.length ≤ 8 * inp.length) (ll : Nat → Nat) :
    ∃ ll' s', readBitLengths inp ps ll s = .ok (ll', s') ∧
      Ready inp base heap (pos + 3 * ps.length) hist s' ∧
      ∀ x, ll' x = if x ∈ ps then bits (streamOf inp) (pos + 3 * ps.idxOf x) 3 else ll x := by
  induction ps generalizing pos s ll with
  | nil => exact ⟨ll, s, rfl, h, fun x => rfl⟩
  | cons p ps ih =>
    rw [List.length_cons] at hroom
    obtain ⟨hp, hps'⟩ := List.nodup_cons.1 hps
    obtain ⟨s₁, htake, h₁⟩ := h.takeBits (n := 3) (by decide) (by omega)
    obtain ⟨ll', s', hrest, h', hval⟩ := ih hps' h₁ (by omega)
      (Function.update ll p (bits (streamOf inp) pos 3))
    refine ⟨ll', s', ?_, ?_, fun x => ?_⟩
    · rw [readBitLengths, htake, ok_bind]
      exact hrest
    · rw [List.length_cons]
      have hplace : pos + 3 + 3 * ps.length = pos + 3 * (ps.length + 1) := by omega
      exact hplace ▸ h'
    · rw [hval]
      by_cases hx : x ∈ ps
      · have hne : p ≠ x := fun heq => hp (heq ▸ hx)
        rw [if_pos hx, if_pos (List.mem_cons_of_mem p hx), List.idxOf_cons_ne _ hne]
        congr 1
        omega
      · rw [if_neg hx]
        by_cases hxp : x = p
        · subst hxp
          rw [Function.update_self, if_pos List.mem_cons_self, List.idxOf_cons_self, Nat.mul_zero,
            Nat.add_zero]
        · rw [Function.update_of_ne hxp, if_neg (by simp [hx, hxp])]

theorem foldl_zero (ps : List Nat) (ll : Nat → Nat) (x : Nat) :
    ps.foldl (fun ll p => Function.update ll p 0) ll x = if x ∈ ps then 0 else ll x := by
  induction ps generalizing ll with
  | nil => rfl
  | cons p ps ih =>
    rw [List.foldl_cons, ih]
    by_cases hx : x ∈ ps
    · rw [if_pos hx, if_pos (List.mem_cons_of_mem p hx)]
    · rw [if_neg hx]
      by_cases hxp : x = p
      · subst hxp
        rw [Function.update_self, if_pos List.mem_cons_self]
      · rw [Function.update_of_ne hxp, if_neg (by simp [hx, hxp])]

/-- Where each bit length code is in the order. -/
theorem border_take {nb x : Nat} (hnb : nb ≤ 19) (hx : x < 19) :
    (x ∈ border.take nb ↔ border.idxOf x < nb) ∧
      (x ∈ border.drop nb ↔ ¬ border.idxOf x < nb) ∧
      (x ∈ border.take nb → (border.take nb).idxOf x = border.idxOf x) := by
  revert x
  obtain ⟨i, rfl⟩ : ∃ i : Fin 20, nb = i := ⟨⟨nb, by omega⟩, rfl⟩
  revert i
  decide

end

section
variable {inp : List UInt8} {junk : Heap → Junk} {base : Nat} {heap : Heap} {pos pos' fuel : Nat}
  {hist hist' : List UInt8} {s : Globals}

/-- The distance codes of a block are few, so that two levels of tables do for them. -/
theorem shallow_of_allowed {b : List Nat} {m : Nat} (hle : ∀ k ∈ b, k ≤ 15) (hlen : b.length < 2 ^ m)
    (hm : 1 ≤ m) (h : Allowed b) : Shallow b m := by
  rcases h with hwhole | ⟨hshort, -⟩
  · have hroom := (whole_iff hle).1 hwhole
    have hle' : ∀ k ∈ b, k ≤ bmax := fun k hk => (hle k hk).trans (by decide)
    have h0 : b.count 0 ≠ b.length := by
      intro h0
      have hone : b.count 1 = 0 := List.count_eq_zero.2 fun h1 =>
        absurd (List.count_eq_length.1 h0 1 h1) (by decide)
      have hzero := room_of_short fun k hk => (List.count_eq_length.1 h0 k hk).symm.le.trans (Nat.zero_le 1)
      rw [hone, Nat.zero_mul, hroom] at hzero
      exact absurd hzero (by decide)
    obtain ⟨hmax1, hmax16, -, habove⟩ := maxLength_spec (exists_length hle' h0)
    have hspare := spare_eq hmax1 hmax16 fun j hj => by
      by_contra hcon
      exact Nat.pos_iff_ne_zero.1 (List.count_pos_iff.2 hj) (habove j (by omega) (hle' j hj))
    rw [hroom, Nat.cast_pow, Nat.cast_ofNat, sub_self] at hspare
    exact Or.inr ⟨hlen, (mul_eq_zero.1 hspare).resolve_right (pow_ne_zero _ (by decide))⟩
  · exact Or.inl fun k hk => (hshort k hk).trans (by omega)

variable (junk fuel) in
/-- The tables of a dynamic block are built, and its codes inflated. -/
theorem inflateTables_tokens {nl nd : Nat} {ll : Nat → Nat} {lit dist : List Nat}
    (h : Ready inp base heap pos hist s) (hlit : read ll 0 nl = lit) (hdist : read ll nl nd = dist)
    (hlit15 : ∀ k ∈ lit, k ≤ 15) (hdist15 : ∀ k ∈ dist, k ≤ 15) (hnd : nd ≤ 30)
    (halit : Allowed lit) (hadist : Allowed dist)
    (htok : Tokens lit dist (streamOf inp) pos hist pos' hist')
    (hroom : pos' + bmax ≤ 8 * inp.length) (hfuel : pos' ≤ pos + fuel) :
    ∃ s', inflateTables inp junk fuel nl nd ll s = .ok s' ∧ Ready inp base s'.heap pos' hist' s' := by
  have hretl : (build junk lit 257 cplens cplext lbits s.heap).ret = 0 :=
    (huftBuild_ret_zero hlit15).2 halit
  have hretd : (build junk dist 0 cpdist cpdext dbits
      (build junk lit 257 cplens cplext lbits s.heap).heap).ret = 0 :=
    (huftBuild_ret_zero hdist15).2 hadist
  have hlen : dist.length < 2 ^ dbits := by
    rw [← hdist, length_read]
    exact lt_of_le_of_lt hnd (by decide)
  obtain ⟨hdl, hdd⟩ := build_two junk s.heap
    (fun k hk => (hlit15 k hk).trans (by decide)) (fun k hk => (hdist15 k hk).trans (by decide))
    (Or.inl fun k hk => (hlit15 k hk).trans (by decide : 15 ≤ 2 * lbits))
    (shallow_of_allowed hdist15 hlen (by decide) hadist) (by omega) (by omega)
  obtain ⟨s', hcodes, h'⟩ := inflateCodes_tokens hdl hdd htok hroom (h.withHeap _) hfuel
  refine ⟨s', ?_, h'.heap_.symm ▸ h'⟩
  unfold inflateTables
  dsimp only
  rw [hlit, hdist, if_neg (not_not.2 hretl), if_neg (not_not.2 hretd)]
  exact hcodes

theorem bitLengths_le (N pos nb : Nat) : ∀ k ∈ bitLengths N pos nb, k ≤ 7 := by
  intro k hk
  obtain ⟨x, -, rfl⟩ := List.mem_map.1 hk
  split
  · exact Nat.le_of_lt_succ (bits_lt _ _ _)
  · exact Nat.zero_le 7

/-- **A dynamic block.** -/
theorem inflateDynamic_block {nl nd nb p : Nat} {ll : List Nat} (h : Ready inp base heap pos hist s)
    (hnl : nl = 257 + bits (streamOf inp) pos 5) (hnd : nd = 1 + bits (streamOf inp) (pos + 5) 5)
    (hnb : nb = 4 + bits (streamOf inp) (pos + 10) 4) (hmost : nl ≤ 286 ∧ nd ≤ 30)
    (hcl : Allowed (bitLengths (streamOf inp) (pos + 14) nb))
    (hll : Lengths (bitLengths (streamOf inp) (pos + 14) nb) (streamOf inp) (nl + nd)
      (pos + 14 + 3 * nb) [] p ll)
    (hlit : Allowed (ll.take nl)) (hdist : Allowed (ll.drop nl))
    (htok : Tokens (ll.take nl) (ll.drop nl) (streamOf inp) p hist pos' hist')
    (hroom : pos' + bmax ≤ 8 * inp.length) (hfuel : pos' ≤ pos + fuel) :
    ∃ s', inflateDynamic inp junk fuel s = .ok s' ∧ Ready inp base s'.heap pos' hist' s' := by
  have hbmax : bmax = 16 := rfl
  have hp := hll.grows.1
  have hpos' := htok.grows.2
  have hnb19 : nb ≤ 19 := by
    have := bits_lt (streamOf inp) (pos + 10) 4
    omega
  obtain ⟨s₁, htake₁, h₁⟩ := h.takeBits (n := 5) (by decide) (by omega)
  obtain ⟨s₂, htake₂, h₂⟩ := h₁.takeBits (n := 5) (by decide) (by omega)
  obtain ⟨s₃, htake₃, h₃⟩ := h₂.takeBits (n := 4) (by decide) (by omega)
  have hlen : (border.take nb).length = nb := by
    rw [List.length_take]
    exact Nat.min_eq_left hnb19
  have hnodup : (border.take nb).Nodup :=
    (by decide : border.Nodup).sublist (List.take_sublist nb border)
  obtain ⟨ll₀, s₄, hread, h₄, hval⟩ := readBitLengths_eq hnodup h₃ (by rw [hlen]; omega)
    (junk s₃.heap).ll
  rw [hlen] at h₄
  have hzeroed : read ((border.drop nb).foldl (fun ll p => Function.update ll p 0) ll₀) 0 19 =
      bitLengths (streamOf inp) (pos + 14) nb := by
    unfold bitLengths
    apply List.ext_getElem
    · rw [length_read, List.length_map, List.length_range]
    · intro x h1 h2
      rw [length_read] at h1
      obtain ⟨htake, hdrop, hidx⟩ := border_take hnb19 h1
      rw [getElem_read, Nat.zero_add, foldl_zero, List.getElem_map, List.getElem_range]
      by_cases hx : border.idxOf x < nb
      · rw [if_neg (fun hd => hdrop.1 hd hx), if_pos hx, hval, if_pos (htake.2 hx),
          hidx (htake.2 hx)]
      · rw [if_pos (hdrop.2 hx), if_neg hx]
  generalize hll₁ : (border.drop nb).foldl (fun ll p => Function.update ll p 0) ll₀ = ll₁ at hzeroed
  have hcl7 := bitLengths_le (streamOf inp) (pos + 14) nb
  generalize bitLengths (streamOf inp) (pos + 14) nb = cl at hcl hll hzeroed hcl7
  have hcl15 : ∀ k ∈ cl, k ≤ 15 := fun k hk => (hcl7 k hk).trans (by decide)
  have hcl16 : ∀ k ∈ cl, k ≤ bmax := fun k hk => (hcl7 k hk).trans (by decide)
  have hret : (build junk cl 19 [] [] 7 s₄.heap).ret = 0 := (huftBuild_ret_zero hcl15).2 hcl
  obtain ⟨hdec, -, -⟩ := @build_decoder junk s₄.heap cl 19 [] [] 7
    hcl16 (Or.inl fun k hk => (hcl7 k hk).trans (by decide : 7 ≤ 2 * 7)) (by omega)
  obtain ⟨ll₂, s₅, hlens, h₅, hread₂⟩ := readLengths_lengths hdec
    (fun S x k hx => le_huftBuild_m (by decide) hcl7 hx) (huftBuild_m_le hcl16) hll (by omega)
    (nl + nd + 1) ll₁ (h₄.withHeap _) rfl (by simp)
  have hll15 : ∀ k ∈ ll, k ≤ 15 := hll.le (by simp)
  rw [read_add, Nat.zero_add] at hread₂
  have hlit₂ : read ll₂ 0 nl = ll.take nl := by
    rw [← hread₂, List.take_left' (length_read _ _ _)]
  have hdist₂ : read ll₂ nl nd = ll.drop nl := by
    rw [← hread₂, List.drop_left' (length_read _ _ _)]
  obtain ⟨s', htables, h'⟩ := inflateTables_tokens junk fuel h₅ hlit₂ hdist₂
    (fun k hk => hll15 k (List.mem_of_mem_take hk)) (fun k hk => hll15 k (List.mem_of_mem_drop hk))
    hmost.2 hlit hdist htok hroom (by omega)
  refine ⟨s', ?_, h'⟩
  unfold inflateDynamic
  rw [htake₁, ok_bind]
  dsimp only
  rw [htake₂, ok_bind]
  dsimp only
  rw [htake₃, ok_bind]
  dsimp only
  rw [← hnl, ← hnd, Nat.add_assoc pos 5 5, ← hnb, if_neg (by omega), hread, ok_bind]
  dsimp only
  rw [hll₁, hzeroed, if_neg (not_not.2 hret)]
  exact (congrArg (· >>= _) hlens).trans htables

end

/-! ## Top theorem -/

section
variable {inp : List UInt8} {junk : Heap → Junk} {base : Nat} {heap : Heap} {pos pos' fuel : Nat}
  {hist hist' : List UInt8} {s : Globals}

variable (junk fuel) in
/-- **A block of any type**, and whether it is the last. -/
theorem inflateBlock_block (h : Ready inp base heap pos hist s)
    (hblock : Block (streamOf inp) (bits (streamOf inp) (pos + 1) 2) (pos + 3) hist pos' hist')
    (hroom : pos' + bmax ≤ 8 * inp.length) (hfuel : pos' ≤ pos + fuel) :
    ∃ s', inflateBlock inp junk fuel s = .ok (bits (streamOf inp) pos 1, s') ∧
      Ready inp base s'.heap pos' hist' s' := by
  have hgrows := hblock.grows.2
  obtain ⟨s₁, htake₁, h₁⟩ := h.takeBits (n := 1) (by decide) (by omega)
  obtain ⟨s₂, htake₂, h₂⟩ := h₁.takeBits (n := 2) (by decide) (by omega)
  have hbmax : bmax = 16 := rfl
  replace h₂ : Ready inp base heap (pos + 3) hist s₂ := h₂
  suffices hrun : ∃ s', inflateType inp junk fuel (bits (streamOf inp) (pos + 1) 2) s₂ = .ok s' ∧
      Ready inp base s'.heap pos' hist' s' by
    obtain ⟨s', hrun, h'⟩ := hrun
    refine ⟨s', ?_, h'⟩
    unfold inflateBlock
    rw [htake₁, ok_bind]
    dsimp only
    rw [htake₂, ok_bind]
    dsimp only
    rw [hrun, ok_bind]
  generalize bits (streamOf inp) (pos + 1) 2 = t at hblock
  unfold inflateType
  cases hblock with
  | stored hn hcomp =>
    obtain ⟨s', hrun, h'⟩ := inflateStored_block h₂ hn hcomp (by omega)
    rw [if_neg (by decide), if_pos rfl]
    exact ⟨s', hrun, h'.at_, h'.win, rfl⟩
  | fixed htok =>
    rw [if_neg (by decide), if_neg (by decide), if_pos rfl]
    exact inflateFixed_block h₂ htok hroom (by omega)
  | dynamic hnl hnd hnb hmost hcl hll hlit hdist htok =>
    rw [if_pos rfl]
    exact inflateDynamic_block h₂ hnl hnd hnb hmost hcl hll hlit hdist htok hroom (by omega)

variable (junk fuel) in
theorem inflateBlocks_stream (hstream : Stream (streamOf inp) pos hist pos' hist')
    (hroom : pos' + bmax ≤ 8 * inp.length) :
    ∀ (left : Nat) {heap : Heap} {s : Globals}, Ready inp base heap pos hist s →
      pos' ≤ pos + left → pos' ≤ pos + fuel →
      ∃ s', inflateBlocks inp junk fuel left s = .ok s' ∧ Ready inp base s'.heap pos' hist' s' := by
  induction hstream with
  | @last pos pos' hist hist' hlast hblock =>
    intro left heap s h hleft hfuel
    have hgrows := hblock.grows.2
    obtain ⟨left, rfl⟩ : ∃ m, left = m + 1 := Nat.exists_eq_add_of_le' (by omega)
    obtain ⟨s', hrun, h'⟩ := inflateBlock_block junk fuel h hblock hroom hfuel
    refine ⟨{ s' with heap.count := s.heap.count }, ?_, h'.withHeap ⟨s.heap.count, s'.heap.cell⟩⟩
    rw [inflateBlocks, hrun, ok_bind]
    dsimp only
    rw [hlast, if_neg (by decide)]
  | @more pos p pos' hist hist₁ hist' hlast hblock rest ih =>
    intro left heap s h hleft hfuel
    have hgrows := hblock.grows.2
    have hrest := rest.grows.2
    obtain ⟨left, rfl⟩ : ∃ m, left = m + 1 := Nat.exists_eq_add_of_le' (by omega)
    obtain ⟨s₁, hrun, h₁⟩ := inflateBlock_block junk fuel h hblock (by omega)
      (by omega)
    obtain ⟨s', hrest', h'⟩ := ih hroom left
      (h₁.withHeap ⟨s.heap.count, s₁.heap.cell⟩) (by omega) (by omega)
    refine ⟨s', ?_, h'⟩
    rw [inflateBlocks, hrun, ok_bind]
    dsimp only
    rw [hlast, if_pos rfl]
    exact hrest'

/-- The bytes that were taken too many are given back. -/
theorem undo_spec (hplace : pos + s.bk = 8 * s.inptr) (hlt : s.inptr < 2 ^ 32) :
    (undo s).inptr = (pos + 7) / 8 ∧ (undo s).insize = s.insize ∧ SameOut s (undo s) := by
  induction hk : s.bk using Nat.strongRecOn generalizing s with
  | ind k ih =>
    rw [undo]
    by_cases h8 : s.bk ≥ 8
    · rw [if_pos h8]
      have hptr : (s.inptr + 2 ^ 32 - 1) % 2 ^ 32 = s.inptr - 1 := by omega
      rw [hptr]
      exact ih (s.bk - 8) (by omega) (s := { s with bk := s.bk - 8, inptr := s.inptr - 1 })
        (by show pos + (s.bk - 8) = 8 * (s.inptr - 1); omega) (by show s.inptr - 1 < 2 ^ 32; omega)
        rfl
    · rw [if_neg h8]
      exact ⟨by omega, rfl, .rfl⟩

variable (junk fuel) in
/-- **`inflate`.**  From a byte of the input on, a stream of blocks is put out, checked and
counted, and the next byte read is the one behind it. -/
theorem inflate_stream (hlen : inp.length < 2 ^ 32) (hsize : s.insize = inp.length)
    (hin : s.inptr ≤ inp.length)
    (hwin : Win base hist { s with outcnt := 0 })
    (hstream : Stream (streamOf inp) (8 * s.inptr) hist pos' hist')
    (hroom : pos' + bmax ≤ 8 * inp.length) (hfuel : pos' ≤ fuel) :
    ∃ s', inflate inp junk fuel s = .ok s' ∧ s'.output = hist'.drop base ∧
      s'.crc = (hist'.drop base).foldl crcNext crcStart ∧
      s'.bytesOut = (hist'.drop base).length % 2 ^ 32 ∧ s'.inptr = (pos' + 7) / 8 ∧
      s'.insize = inp.length := by
  have hready : Ready inp base s.heap (8 * s.inptr) hist { s with outcnt := 0, bk := 0, bb := 0 } := by
    refine ⟨⟨rfl, ?_, hin, Or.inl hsize, Nat.succ_pos 31⟩,
      ⟨hwin.ring, hwin.cnt, hwin.base_le, hwin.base_mod, hwin.out, hwin.crc, hwin.bytes⟩, rfl⟩
    show 0 = bits _ _ 0
    rw [bits, Nat.pow_zero, Nat.mod_one]
  have hgrows := hstream.grows.2
  obtain ⟨s', hrun, h'⟩ := inflateBlocks_stream junk fuel hstream hroom fuel hready
    (by omega) (by omega)
  obtain ⟨hptr, hsz, hsame⟩ := undo_spec h'.at_.place (h'.at_.inside.trans_lt hlen)
  obtain ⟨hout, hcrc, hbytes⟩ := (h'.win.sameOut hsame).flushWindow
  refine ⟨flushWindow (undo s'), ?_, hout, hcrc, hbytes, hptr, hsz.trans ?_⟩
  · unfold inflate
    rw [hrun, ok_bind]
  · rcases h'.at_.filled with hfull | hnone
    · exact hfull
    · have := h'.at_.place
      omega

end

end Gentoox.Gzip
