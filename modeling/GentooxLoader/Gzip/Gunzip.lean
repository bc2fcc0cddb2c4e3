import GentooxLoader.Gzip.Blocks

/-!
# The compressed file (lib/gzip/inflate.c, lib/gzip/misc.c)

`gunzip` reads a header, has the stream behind it inflated, and compares the
check and the length that follow with those of the output.  `error` halts, so
that `decompress_kernel` comes back with what was compressed or not at all.

    readHeader_ok           a header is passed over
    getLong_eq              a number of four bytes
    gunzip_eq               the output, if check and length are right
    decompressKernel_eq     from the first byte on
    decompressKernel_burst  output with up to four wrong bytes is not let through
-/

namespace Gentoox.Gzip

/-! ## Algorithm -/

def continuation : UInt8 := 0x02
def extraField : UInt8 := 0x04
def origName : UInt8 := 0x08
def comment : UInt8 := 0x10
def encrypted : UInt8 := 0x20
def reserved : UInt8 := 0xc0

section
variable (inp : List UInt8) (junk : Heap → Junk)

/-- `while (len--) (void)get_byte()`. -/
def skip : Nat → Globals → Run Globals
  | 0, s => .ok s
  | len + 1, s => do
    let (_, s) ← getByte inp s
    skip len s

/-- `while (get_byte() != 0)`. -/
def skipString : Nat → Globals → Run Globals
  | 0, _ => .error .fuel
  | fuel + 1, s => do
    let (c, s) ← getByte inp s
    if c ≠ 0 then skipString fuel s else .ok s

/-- Four bytes, as `orig_crc` and `orig_len` are read. -/
def getLong (s : Globals) : Run (UInt32 × Globals) := do
  let (c0, s) ← getByte inp s
  let (c1, s) ← getByte inp s
  let (c2, s) ← getByte inp s
  let (c3, s) ← getByte inp s
  .ok (c0.toUInt32 ||| c1.toUInt32 <<< 8 ||| c2.toUInt32 <<< 16 ||| c3.toUInt32 <<< 24, s)

/-- `if ((flags & EXTRA_FIELD) != 0)`. -/
def skipExtra (flags : UInt8) (s : Globals) : Run Globals :=
  if flags &&& extraField ≠ 0 then do
    let (lo, s) ← getByte inp s
    let (hi, s) ← getByte inp s
    skip inp (lo.toUInt32 ||| hi.toUInt32 <<< 8).toNat s
  else .ok s

/-- The original name or the comment. -/
def skipField (flags bit : UInt8) (fuel : Nat) (s : Globals) : Run Globals :=
  if flags &&& bit ≠ 0 then skipString inp fuel s else .ok s

/-- `gunzip` before it decompresses. -/
def readHeader (fuel : Nat) (s : Globals) : Run Globals := do
  let (magic0, s) ← getByte inp s
  let (magic1, s) ← getByte inp s
  let (method, s) ← getByte inp s
  if magic0 ≠ 0o37 ∨ magic1 ≠ 0o213 ∧ magic1 ≠ 0o236 then .error .error
  else if method ≠ 8 then .error .error
  else
    let (flags, s) ← getByte inp s
    if flags &&& encrypted ≠ 0 then .error .error
    else if flags &&& continuation ≠ 0 then .error .error
    else if flags &&& reserved ≠ 0 then .error .error
    else
      -- the timestamp, the extra flags and the OS type
      let s ← skip inp 6 s
      let s ← skipExtra inp flags s
      let s ← skipField inp flags origName fuel s
      skipField inp flags comment fuel s

/-- `gunzip` behind the stream. -/
def checkTrailer (s : Globals) : Run Globals := do
  let (origCrc, s) ← getLong inp s
  let (origLen, s) ← getLong inp s
  if origCrc ≠ crcValue s.crc then .error .error
  else if origLen.toNat ≠ s.bytesOut then .error .error
  else .ok s

def gunzip (fuel : Nat) (s : Globals) : Run Globals := do
  let s ← readHeader inp fuel s
  match inflate inp junk fuel s with
  | .error (.ret _) => .error .error
  | .error e => .error e
  | .ok s => checkTrailer inp s

/-- The window and the heap are what is in the memory before. -/
def decompressKernel (fuel : Nat) (window : Nat → UInt8) (heap : Heap) : Run Globals :=
  gunzip inp junk fuel ⟨0, 0, 0, 0, 0, window, [], crcStart, 0, heap⟩

end

/-! ## The file -/

/-- What lies behind the first bytes, if the flag says so. -/
def Field (flags bit : UInt8) (form : List UInt8 → Prop) (l : List UInt8) : Prop :=
  if flags &&& bit ≠ 0 then form l else l = []

/-- An extra field, its length before it. -/
def Extra (l : List UInt8) : Prop :=
  ∃ (lo hi : UInt8) (field : List UInt8), l = lo :: hi :: field ∧
    field.length = lo.toNat + 256 * hi.toNat

/-- A string that ends with a zero. -/
def Zeroed (l : List UInt8) : Prop := ∃ name : List UInt8, l = name ++ [0] ∧ 0 ∉ name

inductive Header : List UInt8 → Prop
  | mk {m flags : UInt8} {six extra name note : List UInt8} (hm : m = 0x8b ∨ m = 0x9e)
      (henc : flags &&& encrypted = 0) (hcont : flags &&& continuation = 0)
      (hres : flags &&& reserved = 0) (hsix : six.length = 6)
      (hextra : Field flags extraField Extra extra) (hname : Field flags origName Zeroed name)
      (hnote : Field flags comment Zeroed note) :
      Header (0x1f :: m :: 8 :: flags :: (six ++ (extra ++ (name ++ note))))

/-! ## Bytes -/

/-- The bytes `l` are those that were not read. -/
structure Unread (inp l : List UInt8) (s : Globals) : Prop where
  left : inp.drop s.inptr = l
  inside : s.inptr ≤ inp.length
  filled : s.insize = inp.length ∨ s.insize = 0 ∧ s.inptr = 0

section
variable {inp l : List UInt8} {c : UInt8} {fuel : Nat} {s : Globals}

theorem Unread.place (h : Unread inp l s) : s.inptr + l.length = inp.length := by
  have := h.inside
  rw [← h.left, List.length_drop]
  omega

theorem Unread.getByte (h : Unread inp (c :: l) s) :
    ∃ s', Gzip.getByte inp s = .ok (c, s') ∧ Unread inp l s' ∧ SameOut s s' := by
  have hplace := h.place
  rw [List.length_cons] at hplace
  have hlt : s.inptr < inp.length := by omega
  have hsplit := h.left
  rw [List.drop_eq_getElem_cons hlt] at hsplit
  obtain ⟨hc, hrest⟩ := List.cons.inj hsplit
  have hget : inp.getD s.inptr 0 = c := by rw [List.getD_eq_getElem _ _ hlt, hc]
  unfold Gzip.getByte fillInbuf
  rcases h.filled with hfull | ⟨h0, hp⟩
  · rw [if_pos (by omega), hget]
    exact ⟨_, rfl, ⟨hrest, hlt, Or.inl hfull⟩, .rfl⟩
  · rw [if_neg (by omega), if_neg (not_not.2 h0), ← hp, hget]
    refine ⟨_, rfl, ⟨?_, ?_, Or.inl rfl⟩, .rfl⟩
    · show inp.drop 1 = l
      rw [← hrest, hp]
    · show 1 ≤ inp.length
      omega

theorem Unread.skip {l' : List UInt8} (h : Unread inp (l' ++ l) s) :
    ∃ s', Gzip.skip inp l'.length s = .ok s' ∧ Unread inp l s' ∧ SameOut s s' := by
  induction l' generalizing s with
  | nil => exact ⟨s, rfl, h, .rfl⟩
  | cons c l' ih =>
    obtain ⟨s₁, hbyte, h₁, hsame₁⟩ := h.getByte
    obtain ⟨s', hrest, h', hsame⟩ := ih h₁
    refine ⟨s', ?_, h', hsame₁.trans hsame⟩
    rw [List.length_cons, Gzip.skip, hbyte, ok_bind]
    exact hrest

theorem Unread.skipString {name : List UInt8} (h : Unread inp (name ++ 0 :: l) s) (h0 : 0 ∉ name)
    (hfuel : name.length < fuel) :
    ∃ s', Gzip.skipString inp fuel s = .ok s' ∧ Unread inp l s' ∧ SameOut s s' := by
  induction name generalizing s fuel with
  | nil =>
    obtain ⟨fuel, rfl⟩ : ∃ f, fuel = f + 1 := Nat.exists_eq_add_of_le' hfuel
    obtain ⟨s', hbyte, h', hsame⟩ := h.getByte
    refine ⟨s', ?_, h', hsame⟩
    rw [Gzip.skipString, hbyte, ok_bind]
    exact if_neg (not_not.2 rfl)
  | cons c name ih =>
    obtain ⟨fuel, rfl⟩ : ∃ f, fuel = f + 1 := Nat.exists_eq_add_of_le' (by omega)
    obtain ⟨s₁, hbyte, h₁, hsame₁⟩ := h.getByte
    obtain ⟨hc, h0'⟩ : 0 ≠ c ∧ 0 ∉ name := by simpa using h0
    obtain ⟨s', hrest, h', hsame⟩ := ih h₁ h0' (Nat.lt_of_succ_lt_succ hfuel)
    refine ⟨s', ?_, h', hsame₁.trans hsame⟩
    rw [Gzip.skipString, hbyte, ok_bind]
    dsimp only
    rw [if_pos (Ne.symm hc), hrest]

theorem Unread.skipExtra {flags : UInt8} {extra : List UInt8} (h : Unread inp (extra ++ l) s)
    (hextra : Field flags extraField Extra extra) :
    ∃ s', Gzip.skipExtra inp flags s = .ok s' ∧ Unread inp l s' ∧ SameOut s s' := by
  unfold Gzip.skipExtra
  unfold Field at hextra
  by_cases hflag : flags &&& extraField ≠ 0
  · rw [if_pos hflag] at hextra
    obtain ⟨lo, hi, field, rfl, hlen⟩ := hextra
    obtain ⟨s₁, hlo, h₁, hsame₁⟩ := h.getByte
    obtain ⟨s₂, hhi, h₂, hsame₂⟩ := h₁.getByte
    obtain ⟨s', hskip, h', hsame⟩ := h₂.skip
    have hword : (lo.toUInt32 ||| hi.toUInt32 <<< 8).toNat = field.length := by
      have hor := or_byte (k := 8) lo.toNat_lt hi.toNat_lt (by decide)
      rw [UInt32.toNat_or, UInt32.toNat_shiftLeft, UInt8.toNat_toUInt32, UInt8.toNat_toUInt32, hlen]
      exact hor
    refine ⟨s', ?_, h', (hsame₁.trans hsame₂).trans hsame⟩
    rw [if_pos hflag, hlo, ok_bind]
    dsimp only
    rw [hhi, ok_bind]
    dsimp only
    rw [hword, hskip]
  · rw [if_neg hflag] at hextra ⊢
    subst hextra
    exact ⟨s, rfl, h, .rfl⟩

theorem Unread.skipField {flags bit : UInt8} {name : List UInt8} (h : Unread inp (name ++ l) s)
    (hname : Field flags bit Zeroed name) (hfuel : inp.length < fuel) :
    ∃ s', Gzip.skipField inp flags bit fuel s = .ok s' ∧ Unread inp l s' ∧ SameOut s s' := by
  unfold Gzip.skipField
  unfold Field at hname
  by_cases hflag : flags &&& bit ≠ 0
  · rw [if_pos hflag] at hname ⊢
    obtain ⟨name, rfl, h0⟩ := hname
    have hplace := h.place
    rw [List.length_append, List.length_append] at hplace
    rw [List.append_assoc] at h
    exact h.skipString h0 (by omega)
  · rw [if_neg hflag] at hname ⊢
    subst hname
    exact ⟨s, rfl, h, .rfl⟩

/-- **A header is passed over.** -/
theorem readHeader_ok {hd : List UInt8} (h : Unread inp (hd ++ l) s) (hhd : Header hd)
    (hfuel : inp.length < fuel) :
    ∃ s', readHeader inp fuel s = .ok s' ∧ Unread inp l s' ∧ SameOut s s' := by
  obtain ⟨hm, henc, hcont, hres, hsix, hextra, hname, hnote⟩ := hhd
  simp only [List.cons_append, List.append_assoc] at h
  obtain ⟨s₁, hb₁, h₁, hs₁⟩ := h.getByte
  obtain ⟨s₂, hb₂, h₂, hs₂⟩ := h₁.getByte
  obtain ⟨s₃, hb₃, h₃, hs₃⟩ := h₂.getByte
  obtain ⟨s₄, hb₄, h₄, hs₄⟩ := h₃.getByte
  obtain ⟨s₅, hb₅, h₅, hs₅⟩ := h₄.skip
  obtain ⟨s₆, hb₆, h₆, hs₆⟩ := h₅.skipExtra hextra
  obtain ⟨s₇, hb₇, h₇, hs₇⟩ := h₆.skipField hname hfuel
  obtain ⟨s₈, hb₈, h₈, hs₈⟩ := h₇.skipField hnote hfuel
  refine ⟨s₈, ?_, h₈, hs₁.trans (hs₂.trans (hs₃.trans (hs₄.trans (hs₅.trans (hs₆.trans
    (hs₇.trans hs₈))))))⟩
  unfold readHeader
  rw [hb₁, ok_bind]
  dsimp only
  rw [hb₂, ok_bind]
  dsimp only
  rw [hb₃, ok_bind]
  dsimp only
  rw [if_neg (by rcases hm with rfl | rfl <;> decide), if_neg (by decide), hb₄, ok_bind]
  dsimp only
  rw [if_neg (not_not.2 henc), if_neg (not_not.2 hcont), if_neg (not_not.2 hres), ← hsix, hb₅,
    ok_bind, hb₆, ok_bind, hb₇, ok_bind, hb₈]

theorem long_toNat (c0 c1 c2 c3 : UInt8) :
    (c0.toUInt32 ||| c1.toUInt32 <<< 8 ||| c2.toUInt32 <<< 16 ||| c3.toUInt32 <<< 24).toNat =
      c0.toNat + 2 ^ 8 * c1.toNat + 2 ^ 16 * c2.toNat + 2 ^ 24 * c3.toNat := by
  have h0 := c0.toNat_lt
  have h1 := c1.toNat_lt
  have h2 := c2.toNat_lt
  have hor₁ := or_byte (k := 8) h0 h1 (by decide)
  have hor₂ := or_byte (x := c0.toNat + 2 ^ 8 * c1.toNat) (k := 16) (by omega) h2 (by decide)
  have hor₃ := or_byte (x := c0.toNat + 2 ^ 8 * c1.toNat + 2 ^ 16 * c2.toNat) (k := 24) (by omega)
    c3.toNat_lt (by decide)
  rw [UInt32.toNat_or, UInt32.toNat_or, UInt32.toNat_or, UInt32.toNat_shiftLeft,
    UInt32.toNat_shiftLeft, UInt32.toNat_shiftLeft]
  rw [← hor₃, ← hor₂, ← hor₁]
  rfl

/-- Four bytes of the input as a number. -/
theorem bits_long (inp : List UInt8) (i : Nat) :
    bits (streamOf inp) (8 * i) 32 =
      (inp.getD i 0).toNat + 2 ^ 8 * (inp.getD (i + 1) 0).toNat +
        2 ^ 16 * (inp.getD (i + 2) 0).toNat + 2 ^ 24 * (inp.getD (i + 3) 0).toNat := by
  have h₁ : bits (streamOf inp) (8 * i) 32 =
    bits (streamOf inp) (8 * i) 8 + 2 ^ 8 * bits (streamOf inp) (8 * (i + 1)) 24 :=
    bits_add _ _ 8 24
  have h₂ : bits (streamOf inp) (8 * (i + 1)) 24 =
    bits (streamOf inp) (8 * (i + 1)) 8 + 2 ^ 8 * bits (streamOf inp) (8 * (i + 2)) 16 :=
    bits_add _ _ 8 16
  have h₃ : bits (streamOf inp) (8 * (i + 2)) 16 =
    bits (streamOf inp) (8 * (i + 2)) 8 + 2 ^ 8 * bits (streamOf inp) (8 * (i + 3)) 8 :=
    bits_add _ _ 8 8
  rw [h₁, h₂, h₃, bits_streamOf, bits_streamOf, bits_streamOf, bits_streamOf]
  omega

/-- **A number of four bytes.** -/
theorem getLong_eq {i : Nat} (h : Unread inp l s) (hi : s.inptr = i) (hroom : i + 4 ≤ inp.length) :
    ∃ v s', getLong inp s = .ok (v, s') ∧ v.toNat = bits (streamOf inp) (8 * i) 32 ∧
      Unread inp (l.drop 4) s' ∧ s'.inptr = i + 4 ∧ SameOut s s' := by
  subst hi
  have hplace := h.place
  have hbyte : ∀ j < l.length, inp.getD (s.inptr + j) 0 = l.getD j 0 := by
    intro j hj
    rw [← h.left, List.getD_eq_getElem?_getD, List.getD_eq_getElem?_getD, List.getElem?_drop]
  obtain ⟨c0, c1, c2, c3, l', rfl⟩ : ∃ c0 c1 c2 c3 l', l = c0 :: c1 :: c2 :: c3 :: l' := by
    match l, hplace with
    | c0 :: c1 :: c2 :: c3 :: l', _ => exact ⟨c0, c1, c2, c3, l', rfl⟩
    | [], hp | [_], hp | [_, _], hp | [_, _, _], hp =>
      simp only [List.length_nil, List.length_cons] at hp
      omega
  obtain ⟨s₁, hb₁, h₁, hs₁⟩ := h.getByte
  obtain ⟨s₂, hb₂, h₂, hs₂⟩ := h₁.getByte
  obtain ⟨s₃, hb₃, h₃, hs₃⟩ := h₂.getByte
  obtain ⟨s₄, hb₄, h₄, hs₄⟩ := h₃.getByte
  have hplace₄ := h₄.place
  simp only [List.length_cons] at hplace
  refine ⟨c0.toUInt32 ||| c1.toUInt32 <<< 8 ||| c2.toUInt32 <<< 16 ||| c3.toUInt32 <<< 24, s₄, ?_,
    ?_, h₄, by omega, hs₁.trans (hs₂.trans (hs₃.trans hs₄))⟩
  · unfold getLong
    rw [hb₁, ok_bind]
    dsimp only
    rw [hb₂, ok_bind]
    dsimp only
    rw [hb₃, ok_bind]
    dsimp only
    rw [hb₄, ok_bind]
  · simp only [List.length_cons] at hbyte
    rw [long_toNat, bits_long, ← Nat.add_zero s.inptr, hbyte 0 (by omega), Nat.add_zero,
      hbyte 1 (by omega), hbyte 2 (by omega), hbyte 3 (by omega)]
    rfl

end

/-! ## Top theorem -/

section
variable {inp out : List UInt8} {junk : Heap → Junk} {fuel stop : Nat} {window : Nat → UInt8}
  {heap : Heap}

theorem crcValue_eq (out : List UInt8) :
    (crcValue (out.foldl crcNext crcStart)).toNat = (crcOf out).toNat := by
  have hstart : crcStart.toBitVec = BitVec.allOnes 32 := by decide
  have hones : (0xffffffff : UInt32).toBitVec = BitVec.allOnes 32 := by decide
  unfold crcValue crcOf
  rw [← UInt32.toNat_toBitVec, UInt32.toBitVec_xor, crcNext_foldl, hstart, hones]

/-- **A compressed file that stands for `out`**: a header, a stream up to bit `stop`, and eight
bytes more. -/
structure Member (inp out : List UInt8) (stop : Nat) : Prop where
  stream : ∃ hd, hd <+: inp ∧ Header hd ∧ Stream (streamOf inp) (8 * hd.length) [] stop out
  room : aligned stop + 64 ≤ 8 * inp.length

/-- What is behind the stream is right. -/
def Checked (inp out : List UInt8) (stop : Nat) : Prop :=
  bits (streamOf inp) (aligned stop) 32 = (crcOf out).toNat ∧
    bits (streamOf inp) (aligned stop + 32) 32 = out.length % 2 ^ 32

variable (junk) in
theorem gunzip_eq {s : Globals} (hlen : inp.length < 2 ^ 32) (h : Member inp out stop)
    (hstart : Unread inp inp s) (hwin : Win 0 [] s) (hfuel : 8 * inp.length < fuel) :
    ∃ s₁ s₂ s', readHeader inp fuel s = .ok s₁ ∧ inflate inp junk fuel s₁ = .ok s₂ ∧
      s₂.output = out ∧ s'.output = out ∧
      (Checked inp out stop → gunzip inp junk fuel s = .ok s') ∧
      (¬ Checked inp out stop → gunzip inp junk fuel s = .error .error) := by
  obtain ⟨⟨hd, hinp, hhd, hstream⟩, hroom⟩ := h
  have hbmax : bmax = 16 := rfl
  have hle := le_aligned stop
  obtain ⟨rest, rfl⟩ := hinp
  obtain ⟨s₁, hheader, h₁, hsame₁⟩ := @readHeader_ok _ _ fuel _ hd hstart hhd (by omega)
  have hplace := h₁.place
  rw [List.length_append] at hplace
  have hsize : s₁.insize = (hd ++ rest).length := by
    rcases h₁.filled with hfull | ⟨-, h0⟩
    · exact hfull
    · cases hhd
      simp only [List.length_cons] at hplace
      omega
  have hwin₁ := hwin.sameOut hsame₁
  have hwin₀ : Win 0 [] { s₁ with outcnt := 0 } :=
    ⟨hwin₁.ring, rfl, hwin₁.base_le, rfl, hwin₁.out, hwin₁.crc, hwin₁.bytes⟩
  have hptr : s₁.inptr = hd.length := by omega
  rw [← hptr] at hstream
  obtain ⟨s₂, hinflate, hout, hcrc', hbytes', hptr', hsize'⟩ := inflate_stream junk
    fuel hlen hsize h₁.inside hwin₀ hstream (by omega) (by omega)
  rw [List.drop_zero] at hout hcrc' hbytes'
  have haligned : 8 * ((stop + 7) / 8) = aligned stop := by
    unfold aligned
    exact Nat.mul_comm _ _
  have h₂ : Unread (hd ++ rest) ((hd ++ rest).drop s₂.inptr) s₂ :=
    ⟨rfl, by omega, Or.inl hsize'⟩
  obtain ⟨v, s₃, hlong₃, hv, h₃, hptr₃, hsame₃⟩ := getLong_eq h₂ hptr' (by omega)
  obtain ⟨w, s₄, hlong₄, hw, h₄, -, hsame₄⟩ := getLong_eq h₃ hptr₃ (by omega)
  rw [haligned] at hv
  rw [Nat.mul_add, haligned] at hw
  obtain ⟨-, -, houtput', hcrc'', hbytes'', -⟩ := hsame₃.trans hsame₄
  have hrun : gunzip (hd ++ rest) junk fuel s =
      if v ≠ crcValue s₄.crc then .error .error
      else if w.toNat ≠ s₄.bytesOut then .error .error
      else .ok s₄ := by
    unfold gunzip
    rw [hheader, ok_bind, hinflate]
    show checkTrailer _ s₂ = _
    unfold checkTrailer
    rw [hlong₃, ok_bind]
    dsimp only
    rw [hlong₄, ok_bind]
  have hcrceq : v = crcValue s₄.crc ↔
      bits (streamOf (hd ++ rest)) (aligned stop) 32 = (crcOf out).toNat := by
    rw [hcrc'', hcrc', ← UInt32.toNat_inj, hv, crcValue_eq]
  have hleneq : w.toNat = s₄.bytesOut ↔
      bits (streamOf (hd ++ rest)) (aligned stop + 32) 32 = out.length % 2 ^ 32 := by
    rw [hbytes'', hbytes', hw]
  refine ⟨s₁, s₂, s₄, hheader, hinflate, hout, houtput'.trans hout, fun ⟨hc, hl⟩ => ?_,
    fun hbad => ?_⟩
  · rw [hrun, if_neg (not_not.2 (hcrceq.2 hc)), if_neg (not_not.2 (hleneq.2 hl))]
  · rw [hrun]
    by_cases hc : v = crcValue s₄.crc
    · rw [if_neg (not_not.2 hc), if_pos fun hl => hbad ⟨hcrceq.1 hc, hleneq.1 hl⟩]
    · rw [if_pos hc]

theorem start_unread (inp : List UInt8) (window : Nat → UInt8) (heap : Heap) :
    Unread inp inp ⟨0, 0, 0, 0, 0, window, [], crcStart, 0, heap⟩ :=
  ⟨rfl, Nat.zero_le _, Or.inr ⟨rfl, rfl⟩⟩

theorem start_win (window : Nat → UInt8) (heap : Heap) :
    Win 0 [] ⟨0, 0, 0, 0, 0, window, [], crcStart, 0, heap⟩ :=
  ⟨Rings.holds_nil _ _, rfl, Nat.le_refl 0, rfl, rfl, rfl, rfl⟩

/-- **`decompress_kernel`** has put out `out` when the stream is over.  It comes back if check
and length are right, and halts if not. -/
theorem decompressKernel_eq (hlen : inp.length < 2 ^ 32) (h : Member inp out stop)
    (hfuel : 8 * inp.length < fuel) :
    ∃ s₁ s₂ s',
      readHeader inp fuel ⟨0, 0, 0, 0, 0, window, [], crcStart, 0, heap⟩ = .ok s₁ ∧
      inflate inp junk fuel s₁ = .ok s₂ ∧ s₂.output = out ∧ s'.output = out ∧
      (Checked inp out stop → decompressKernel inp junk fuel window heap = .ok s') ∧
      (¬ Checked inp out stop → decompressKernel inp junk fuel window heap = .error .error) :=
  gunzip_eq junk hlen h (start_unread inp window heap) (start_win window heap) hfuel

/-- Eight letters `a`, as two of them and a copy of six, with this check. -/
def sample (check : List UInt8) : List UInt8 :=
  [0x1f, 0x8b, 8, 0, 0, 0, 0, 0, 0, 3, 0x4b, 0x4c, 0x84, 0, 0] ++ check ++ [8, 0, 0, 0]

/-- The check of eight letters `a`, and one that is of seven and a `b`. -/
def checks : List (List UInt8) := [[0x46, 0x80, 0x84, 0xbf], [0xfc, 0xd1, 0x8d, 0x26]]

theorem sample_stream : ∀ c ∈ checks,
    Stream (streamOf (sample c)) 80 [] 118 (List.replicate 8 97) := by
  have h₁ : ∀ c ∈ checks, Decodes fixedLit (bitsFrom (streamOf (sample c)) 83) 97 8 := by
    decide +kernel
  have h₂ : ∀ c ∈ checks, Decodes fixedLit (bitsFrom (streamOf (sample c)) 91) 97 8 := by
    decide +kernel
  have h₃ : ∀ c ∈ checks, Decodes fixedLit (bitsFrom (streamOf (sample c)) 99) (257 + 3) 7 := by
    decide +kernel
  have h₄ : ∀ c ∈ checks, Decodes fixedDist (bitsFrom (streamOf (sample c)) 106) 0 5 := by
    decide +kernel
  have h₅ : ∀ c ∈ checks, Decodes fixedLit (bitsFrom (streamOf (sample c)) 111) 256 7 := by
    decide +kernel
  have hn : ∀ c ∈ checks,
      6 = cplens.getD 3 0 + bits (streamOf (sample c)) 106 (cplext.getD 3 0) := by decide +kernel
  have hδ : ∀ c ∈ checks,
      1 = cpdist.getD 0 0 + bits (streamOf (sample c)) 111 (cpdext.getD 0 0) := by decide +kernel
  have htype : ∀ c ∈ checks,
      bits (streamOf (sample c)) 80 1 = 1 ∧ bits (streamOf (sample c)) 81 2 = 1 := by decide +kernel
  intro c hc
  have hcopy : Tokens fixedLit fixedDist (streamOf (sample c)) 99 [97, 97] 118
      (List.replicate 8 97) :=
    .copy (h₃ c hc) (by decide) (hn c hc) rfl (h₄ c hc) (by decide) (hδ c hc) rfl (by decide)
      (.eob (h₅ c hc))
  refine .last (htype c hc).1 ?_
  rw [(htype c hc).2]
  exact .fixed (.literal (h₁ c hc) (by decide) (.literal (h₂ c hc) (by decide) hcopy))

theorem sample_member : ∀ c ∈ checks, Member (sample c) (List.replicate 8 97) 118 := by
  intro c hc
  have hheader : Header ((sample c).take 10) :=
    @Header.mk 0x8b 0 [0, 0, 0, 0, 0, 3] [] [] [] (Or.inl rfl) rfl rfl rfl rfl rfl rfl rfl
  have hroom : ∀ c ∈ checks, aligned 118 + 64 ≤ 8 * (sample c).length := by decide
  exact ⟨⟨(sample c).take 10, List.take_prefix 10 _, hheader, sample_stream c hc⟩, hroom c hc⟩

theorem sample_checked : Checked (sample [0x46, 0x80, 0x84, 0xbf]) (List.replicate 8 97) 118 := by
  unfold Checked
  decide +kernel

/-- A memory of zeros. -/
def zeroHeap : Heap := ⟨0, fun _ _ => ⟨0, 0, .n 0⟩⟩

def zeroJunk : Heap → Junk := fun _ => ⟨fun _ => 0, ⟨0, 0, .n 0⟩, fun _ => 0⟩

theorem decompressKernel_sample : ∃ s, s.output = List.replicate 8 97 ∧
    decompressKernel (sample [0x46, 0x80, 0x84, 0xbf]) zeroJunk 200 (fun _ => 0) zeroHeap = .ok s := by
  obtain ⟨-, -, s, -, -, -, hout, hok, -⟩ := @decompressKernel_eq _ _ zeroJunk 200 118 (fun _ => 0) zeroHeap
    (by decide) (sample_member _ List.mem_cons_self) (by decide)
  exact ⟨s, hout, hok sample_checked⟩

/-- **Output with up to four wrong bytes** is not let through: the file has the check of
`a ++ m ++ z`, but stands for `a ++ m' ++ z`. -/
theorem decompressKernel_burst {a m m' z : List UInt8} (hlen : inp.length < 2 ^ 32)
    (h : Member inp (a ++ m' ++ z) stop) (hfuel : 8 * inp.length < fuel)
    (hcheck : bits (streamOf inp) (aligned stop) 32 = (crcOf (a ++ m ++ z)).toNat)
    (hm : m.length = m'.length) (hfour : m.length ≤ 4) (hne : m ≠ m') :
    decompressKernel inp junk fuel window heap = .error .error := by
  obtain ⟨-, -, s', -, -, -, -, -, hhalts⟩ := gunzip_eq junk hlen h (start_unread inp window heap)
    (start_win window heap) hfuel
  refine hhalts fun hchecked => hne ?_
  have hcrc : crcOf (a ++ m ++ z) = crcOf (a ++ m' ++ z) :=
    BitVec.eq_of_toNat_eq (hcheck.symm.trans hchecked.1)
  exact crcOf_burst hm hfour hcrc

theorem decompressKernel_damaged :
    decompressKernel (sample [0xfc, 0xd1, 0x8d, 0x26]) zeroJunk 200 (fun _ => 0) zeroHeap =
      .error .error :=
  @decompressKernel_burst _ _ 200 118 _ _ (List.replicate 7 97) [98] [97] [] (by decide)
    (sample_member _ (by decide)) (by decide) (by decide +kernel) rfl (by decide) (by decide)

end

end Gentoox.Gzip
