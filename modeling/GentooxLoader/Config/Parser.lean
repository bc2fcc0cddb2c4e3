import Mathlib.Data.List.DropRight
import GentooxLoader.Config.Buffer

/-!
# The boot configuration (lib/misc/BootParser.c)

`parseConfig` tokenises its buffer in place.  The value of a directive is looked
for one byte behind the NUL of its keyword, whether the keyword was ended by a
blank or by the end of the line:

* in a line without a blank that is the text of all the following lines, whose
  trailing white space is then cut off;
* in a last line without a blank it is the byte behind the buffer's last one.

The parser stays inside `szBuffer[0..fileLen]` exactly when the contents hold a
NUL or are `Guarded`: the last line has a blank, or a line before it has none
and what follows that line ends in white space.

    parseConfig_inside_iff   stays inside ↔ 0 ∈ contents ∨ Guarded contents
    empty_file_read_outside  the empty file
-/

namespace Gentoox.Config

open Lib

/-! ## Algorithm -/

/-- `CONFIGENTRY`; `bytes` are those of the arrays, at their offsets in the structure. -/
structure ConfigEntry where
  isDefault : Int
  bytes : Nat → UInt8
  previousConfigEntry : Option Nat
  nextConfigEntry : Option Nat

/-- An entry cleared by `memset`. -/
instance : Inhabited ConfigEntry := ⟨⟨0, fun _ => 0, none, none⟩⟩

def offsetTitle : Nat := 16
def offsetKernel : Nat := 2079
def offsetInitrd : Nat := 4127
def offsetAppend : Nat := 6175

/-- `strncpy(field, s, strlen(s))` -/
def ConfigEntry.strncpy (e : ConfigEntry) (field : Nat) (s : List UInt8) : ConfigEntry :=
  { e with bytes := Cells.write e.bytes field s }

/-- `sprintf(field, "%s", s)` -/
def ConfigEntry.sprintf (e : ConfigEntry) (field : Nat) (s : List UInt8) : ConfigEntry :=
  { e with bytes := Cells.write e.bytes field (s ++ [0]) }

/-- The local variables; entries are numbered in the order of their `malloc`. -/
structure Parse where
  buf : Buffer
  entries : List ConfigEntry
  currentEntry : Nat
  defaultTitle : Option Nat

def Parse.modify (s : Parse) (f : ConfigEntry → ConfigEntry) : Parse :=
  { s with entries := s.entries.modify s.currentEntry f }

/-- `paramdata`, from `p` on, and the buffer with trailing white space cut off. -/
def stripValue (buf : Buffer) (p : Nat) : Except Fault (Nat × Buffer) := do
  let paramdata ← skipSpace buf p
  let m ← strlen buf paramdata
  let p ← stripBack buf paramdata (paramdata + m - 1)
  let buf ← buf.store (p + 1) 0
  return (paramdata, buf)

/-- `param`, `paramdata` and the buffer. -/
def tokens (buf : Buffer) (linePtr : Nat) : Except Fault (Nat × Nat × Buffer) := do
  match ← strsep buf (some linePtr) [0x20, 0x09] with
  | (none, _, _) => .error .outside
  | (some param, _, buf) =>
    let n ← strlen buf param
    let (paramdata, buf) ← stripValue buf (param + n + 1)
    return (param, paramdata, buf)

def setTitle (s : Parse) (title : List UInt8) : Parse :=
  if (s.entries.getD s.currentEntry default).bytes offsetTitle = 0 then
    s.modify (·.strncpy offsetTitle title)
  else
    { s with
      entries := s.entries.modify s.currentEntry (fun e => { e with nextConfigEntry := some s.entries.length })
        ++ [(default : ConfigEntry).strncpy offsetTitle title]
      currentEntry := s.entries.length }

/-- A file name with the path or a leading slash. -/
def withPath (szPath : Option (List UInt8)) (paramdata : List UInt8) : List UInt8 :=
  match szPath with
  | some path => path ++ 0x2f :: paramdata
  | none => if paramdata.head? = some 0x2f then paramdata else 0x2f :: paramdata

def directive (szPath : Option (List UInt8)) (s : Parse) (param paramdata : Nat) :
    Except Fault Parse := do
  if ← strncmpEq s.buf param (chars ['t', 'i', 't', 'l', 'e']) then
    return setTitle s (← string s.buf paramdata)
  else if ← strncmpEq s.buf param (chars ['k', 'e', 'r', 'n', 'e', 'l']) then
    let buf ← chrreplace s.buf paramdata 0x5c 0x2f
    let value ← string buf paramdata
    return { s with buf }.modify (·.sprintf offsetKernel (withPath szPath value))
  else if ← strncmpEq s.buf param (chars ['i', 'n', 'i', 't', 'r', 'd']) then
    let buf ← chrreplace s.buf paramdata 0x5c 0x2f
    if ← strncmpEq buf paramdata (chars ['n', 'o']) then return { s with buf }
    else
      let value ← string buf paramdata
      return { s with buf }.modify (·.sprintf offsetInitrd (withPath szPath value))
  else if ← strncmpEq s.buf param (chars ['a', 'p', 'p', 'e', 'n', 'd']) then
    let value ← string s.buf paramdata
    return s.modify (·.strncpy offsetAppend value)
  else if ← strncmpEq s.buf param (chars ['d', 'e', 'f', 'a', 'u', 'l', 't']) then
    return { s with defaultTitle := some paramdata }
  else return s

/-- The body of the loop over the lines. -/
def parseLine (szPath : Option (List UInt8)) (s : Parse) (linePtr : Nat) : Except Fault Parse := do
  let (param, paramdata, buf) ← tokens s.buf linePtr
  directive szPath { s with buf } param paramdata

def parseLoop (szPath : Option (List UInt8)) : Nat → Parse → Option Nat → Except Fault Parse
  | 0, _, _ => .error .endless
  | fuel + 1, s, currentPos => do
    match ← strsep s.buf currentPos [0x0a] with
    | (none, _, buf) => return { s with buf }
    | (some linePtr, currentPos, buf) =>
      let s ← parseLine szPath { s with buf } linePtr
      parseLoop szPath fuel s currentPos

/-- The search for the default entry, from entry `i` on. -/
def markDefault (title : List UInt8) : Nat → List ConfigEntry → Option Nat → List ConfigEntry
  | 0, entries, _ => entries
  | _, entries, none => entries
  | n + 1, entries, some i =>
    let e := entries.getD i default
    if Cells.read e.bytes offsetTitle title.length = title then
      entries.modify i fun e => { e with isDefault := 1 }
    else markDefault title n entries e.nextConfigEntry

def parseConfig (szBuffer : Nat → UInt8) (fileLen : Nat) (szPath : Option (List UInt8)) :
    Except Fault Parse := do
  let buf ← Buffer.store ⟨fileLen, szBuffer⟩ fileLen 0
  let s ← parseLoop szPath (fileLen + 2) ⟨buf, [default], 0, none⟩ (some 0)
  match s.defaultTitle with
  | none => return s
  | some defaultTitle =>
    let title ← string s.buf defaultTitle
    return { s with entries := markDefault title s.entries.length s.entries (some 0) }

/-! ## Tokens of a line -/

theorem exists_split {p : UInt8 → Bool} {t : List UInt8} (h : t.any p = true) :
    ∃ w c r, t = w ++ c :: r ∧ w.any p = false ∧ p c = true := by
  induction t with
  | nil => cases h
  | cons d t ih =>
    cases hd : p d with
    | true => exact ⟨[], d, t, rfl, rfl, hd⟩
    | false =>
      rw [List.any_cons, hd, Bool.false_or] at h
      obtain ⟨w, c, r, rfl, hw, hc⟩ := ih h
      exact ⟨d :: w, c, r, rfl, by rw [List.any_cons, hd, hw]; rfl, hc⟩

def isBlank (c : UInt8) : Bool := c == 0x20 || c == 0x09

theorem not_blank_iff (l : List UInt8) : l.any isBlank = false ↔ ∀ c ∈ l, c ∉ [(0x20 : UInt8), 0x09] := by
  simp [isBlank]

/-- A text without its trailing white space. -/
def rstrip (t : List UInt8) : List UInt8 := t.rdropWhile isspace

theorem rstrip_append (t : List UInt8) : rstrip t ++ t.rtakeWhile isspace = t :=
  List.rdropWhile_append_rtakeWhile

theorem rstrip_last (t : List UInt8) (h : rstrip t ≠ []) : isspace ((rstrip t).getLast h) = false := by
  cases hc : isspace ((rstrip t).getLast h) with
  | false => rfl
  | true => exact absurd hc (List.rdropWhile_last_not isspace t h)

section
variable {b : Buffer} {a : Nat}

theorem strAt_lead {p : Nat} {r : List UInt8} (h : StrAt b p r) :
    StrAt b (p + (r.takeWhile isspace).length) (r.dropWhile isspace) := by
  rw [← List.takeWhile_append_dropWhile (p := isspace) (l := r)] at h
  exact (strAt_append.1 h).2.2

theorem strAt_trail {p : Nat} {r : List UInt8} (h : StrAt b p r) :
    StrAt b (p + (rstrip r).length) (r.rtakeWhile isspace) := by
  rw [← rstrip_append r] at h
  exact (strAt_append.1 h).2.2

/-- The first byte of the value is no white space: where there is none, it is the NUL. -/
theorem not_isspace_value {p : Nat} {r : List UInt8} (h : StrAt b p r) :
    isspace (b.bytes (p + (r.takeWhile isspace).length)) = false := by
  have hlead := strAt_lead h
  cases hd : r.dropWhile isspace with
  | nil =>
    rw [hd] at hlead
    rw [(strAt_nil.1 hlead).1]
    rfl
  | cons c v =>
    rw [hd] at hlead
    rw [(strAt_cons.1 hlead).1]
    have := List.head_dropWhile_not isspace (l := r) (by rw [hd]; simp)
    simp only [hd, List.head_cons] at this
    simpa using this

/-- Nor is the byte in front of the trailing white space, be it the NUL before `p`. -/
theorem not_isspace_last {p : Nat} {r : List UInt8} (h : StrAt b p r) (hp : 0 < p)
    (h0 : b.bytes (p - 1) = 0) : isspace (b.bytes (p + (rstrip r).length - 1)) = false := by
  by_cases hnil : rstrip r = []
  · rw [hnil, List.length_nil, Nat.add_zero, h0]
    rfl
  · have hlast := rstrip_last r hnil
    have hpos := List.length_pos_of_ne_nil hnil
    rw [← rstrip_append r] at h
    have hg := h.getElem ((rstrip r).length - 1) (by rw [List.length_append]; omega)
    rw [List.getElem_append_left (by omega)] at hg
    rw [show p + (rstrip r).length - 1 = p + ((rstrip r).length - 1) by omega, hg]
    rw [List.getLast_eq_getElem] at hlast
    exact hlast

/-- The value that starts at `p` behind a NUL. -/
theorem stripValue_strAt {p : Nat} {r : List UInt8} (h : StrAt b p r) (hp : 0 < p)
    (h0 : b.bytes (p - 1) = 0) : stripValue b p =
      .ok (p + (r.takeWhile isspace).length, b.cut (p + (rstrip r).length)) := by
  have hlead := strAt_lead h
  have htrail := strAt_trail h
  have hsum := congrArg List.length (List.takeWhile_append_dropWhile (p := isspace) (l := r))
  have hsum' := congrArg List.length (rstrip_append r)
  rw [List.length_append] at hsum hsum'
  have hin := h.inside
  have hback : stripBack b (p + (r.takeWhile isspace).length)
      (p + (rstrip r).length - 1 + (r.rtakeWhile isspace).length) =
        .ok (p + (rstrip r).length - 1) := by
    apply stripBack_spaces
    · omega
    · intro i h1 h2
      obtain ⟨j, rfl⟩ : ∃ j, i = p + (rstrip r).length + j := ⟨i - (p + (rstrip r).length), by omega⟩
      have hsp : isspace (b.bytes (p + (rstrip r).length + j)) = true := by
        rw [htrail.getElem j (by omega)]
        exact List.mem_rtakeWhile_imp (List.getElem_mem _)
      refine ⟨hsp, fun heq => ?_⟩
      rw [heq, not_isspace_value h] at hsp
      cases hsp
    · exact Or.inr (not_isspace_last h hp h0)
  unfold stripValue
  rw [skipSpace_strAt h]
  show (strlen b (p + (r.takeWhile isspace).length) >>= _) = _
  rw [strlen_strAt hlead]
  show (stripBack b _ (p + (r.takeWhile isspace).length + (r.dropWhile isspace).length - 1) >>= _) = _
  rw [show p + (r.takeWhile isspace).length + (r.dropWhile isspace).length - 1 =
    p + (rstrip r).length - 1 + (r.rtakeWhile isspace).length by omega, hback]
  show (b.store (p + (rstrip r).length - 1 + 1) 0 >>= _) = _
  rw [Nat.sub_add_cancel (by omega), Buffer.store_zero (by omega)]
  rfl

theorem tokens_blank {w r : List UInt8} {c : UInt8} (h : StrAt b a (w ++ c :: r))
    (hw : w.any isBlank = false) (hc : isBlank c = true) : tokens b a =
      .ok (a, a + w.length + 1 + (r.takeWhile isspace).length,
        (b.cut (a + w.length)).cut (a + w.length + 1 + (rstrip r).length)) := by
  have hct : c ∈ ([0x20, 0x09] : List UInt8) := by simpa [isBlank] using hc
  have hsep := strsep_some h ((not_blank_iff w).1 hw) hct
  have hv := stripValue_strAt h.cut_right (Nat.succ_pos _) (by simp [Buffer.cut_self])
  simp only [tokens, hsep]
  show (strlen _ a >>= _) = _
  rw [strlen_strAt h.cut_left]
  show (stripValue _ (a + w.length + 1) >>= _) = _
  rw [hv]
  rfl

theorem tokens_no_blank {line r : List UInt8} (h : StrAt b a line) (hl : line.any isBlank = false)
    (hr : StrAt b (a + line.length + 1) r) : tokens b a =
      .ok (a, a + line.length + 1 + (r.takeWhile isspace).length,
        b.cut (a + line.length + 1 + (rstrip r).length)) := by
  have hsep := strsep_none h ((not_blank_iff line).1 hl)
  have hv := stripValue_strAt hr (Nat.succ_pos _) (by simpa using h.nul)
  simp only [tokens, hsep]
  show (strlen _ a >>= _) = _
  rw [strlen_strAt h]
  show (stripValue _ (a + line.length + 1) >>= _) = _
  rw [hv]
  rfl

/-- Behind the last byte of the buffer there is no value. -/
theorem tokens_outside {line : List UInt8} (h : StrAt b a line) (hl : line.any isBlank = false)
    (hend : a + line.length = b.fileLen) : tokens b a = .error .outside := by
  have hsep := strsep_none h ((not_blank_iff line).1 hl)
  have hskip : skipSpace b (a + line.length + 1) = .error .outside := by
    rw [skipSpace, Buffer.left, hend, Nat.sub_self]
    rfl
  simp only [tokens, hsep]
  show (strlen _ a >>= _) = _
  rw [strlen_strAt h]
  show (stripValue _ (a + line.length + 1) >>= _) = _
  rw [stripValue, hskip]
  rfl

end

/-! ## Directives -/

/-- What `chrreplace` makes of a character. -/
def slash (c : UInt8) : UInt8 := if c = 0x5c then 0x2f else c

/-- `b'` is `b` with some backslashes turned into slashes. -/
structure Slashes (b b' : Buffer) : Prop where
  size : b'.fileLen = b.fileLen
  bytes : ∀ i, slash (b'.bytes i) = slash (b.bytes i)

theorem Slashes.refl (b : Buffer) : Slashes b b := ⟨rfl, fun _ => rfl⟩

theorem slash_eq_zero (c : UInt8) : slash c = 0 ↔ c = 0 := by
  unfold slash
  split
  · rename_i h
    subst h
    decide
  · rfl

theorem Slashes.zero {b b' : Buffer} (h : Slashes b b') (i : Nat) : b'.bytes i = 0 ↔ b.bytes i = 0 := by
  rw [← slash_eq_zero, h.bytes, slash_eq_zero]

theorem Slashes.strAt {b b' : Buffer} (h : Slashes b b') {a : Nat} {t : List UInt8} (ht : StrAt b a t) :
    ∃ t', StrAt b' a t' ∧ t'.map slash = t.map slash := by
  induction t generalizing a with
  | nil =>
    obtain ⟨h0, hin⟩ := strAt_nil.1 ht
    exact ⟨[], strAt_nil.2 ⟨(h.zero a).2 h0, by rw [h.size]; exact hin⟩, rfl⟩
  | cons c t ih =>
    obtain ⟨hc, hne, hrest⟩ := strAt_cons.1 ht
    obtain ⟨t', ht', hm⟩ := ih hrest
    refine ⟨b'.bytes a :: t', strAt_cons.2 ⟨rfl, ?_, ht'⟩, ?_⟩
    · rw [ne_eq, h.zero, hc]
      exact hne
    · rw [List.map_cons, List.map_cons, hm, h.bytes, hc]

theorem chrreplace_strAt {b : Buffer} {a : Nat} {t : List UInt8} (h : StrAt b a t) :
    ∃ b', chrreplace b a 0x5c 0x2f = .ok b' ∧ Slashes b b' := by
  refine ⟨{ b with bytes := Cells.write b.bytes a (t.map slash) }, ?_, rfl, ?_⟩
  · unfold chrreplace
    rw [string_strAt h]
    rfl
  · intro i
    by_cases hi : a ≤ i ∧ i < a + t.length
    · obtain ⟨j, rfl⟩ : ∃ j, i = a + j := ⟨i - a, by omega⟩
      simp only
      rw [Cells.write_apply _ _ _ _ (by simp; omega), List.getElem_map, h.getElem j (by omega)]
      generalize t[j] = c
      unfold slash
      by_cases hc : c = 0x5c <;> simp [hc]
    · simp only
      rw [Cells.write_of_outside _ _ _ _ (by simp; omega)]

/-- What the parser keeps about its variables. -/
structure Parse.Valid (s : Parse) (fileLen : Nat) : Prop where
  size : s.buf.fileLen = fileLen
  nul : s.buf.bytes fileLen = 0
  defaultTitle : ∀ a, s.defaultTitle = some a → a ≤ fileLen

theorem Parse.Valid.exists_strAt {s : Parse} {fileLen : Nat} (hv : s.Valid fileLen) {a : Nat}
    (ha : a ≤ fileLen) : ∃ t, StrAt s.buf a t :=
  Config.exists_strAt s.buf (fileLen - a) a (by rw [hv.size]; omega) (by rw [hv.size, hv.nul])

theorem Parse.Valid.slashes {s s' : Parse} {fileLen : Nat} (hv : s.Valid fileLen)
    (hb : Slashes s.buf s'.buf) (hd : ∀ a, s'.defaultTitle = some a → a ≤ fileLen) :
    s'.Valid fileLen :=
  ⟨hb.size.trans hv.size, (hb.zero _).2 hv.nul, hd⟩

theorem setTitle_keeps (s : Parse) (title : List UInt8) :
    (setTitle s title).buf = s.buf ∧ (setTitle s title).defaultTitle = s.defaultTitle := by
  unfold setTitle
  split <;> exact ⟨rfl, rfl⟩

theorem Parse.Valid.cut {s : Parse} {fileLen : Nat} (hv : s.Valid fileLen) (i : Nat) :
    ({ s with buf := s.buf.cut i } : Parse).Valid fileLen :=
  ⟨hv.size, s.buf.cut_of_zero hv.nul, hv.defaultTitle⟩

/-- A directive only turns backslashes of the buffer. -/
theorem directive_ok {s : Parse} {fileLen : Nat} (hv : s.Valid fileLen)
    (szPath : Option (List UInt8)) (param paramdata : Nat) (hp : param ≤ fileLen)
    (hd : paramdata ≤ fileLen) :
    ∃ s', directive szPath s param paramdata = .ok s' ∧ s'.Valid fileLen ∧ Slashes s.buf s'.buf := by
  obtain ⟨t, ht⟩ := hv.exists_strAt hp
  obtain ⟨u, hu⟩ := hv.exists_strAt hd
  obtain ⟨b', hb', hsl⟩ := chrreplace_strAt hu
  obtain ⟨u', hu', -⟩ := hsl.strAt hu
  have hsame := Slashes.refl s.buf
  simp only [directive, strncmpEq_strAt ht (chars ['t', 'i', 't', 'l', 'e']) (by decide),
    strncmpEq_strAt ht (chars ['k', 'e', 'r', 'n', 'e', 'l']) (by decide),
    strncmpEq_strAt ht (chars ['i', 'n', 'i', 't', 'r', 'd']) (by decide),
    strncmpEq_strAt ht (chars ['a', 'p', 'p', 'e', 'n', 'd']) (by decide),
    strncmpEq_strAt ht (chars ['d', 'e', 'f', 'a', 'u', 'l', 't']) (by decide),
    strncmpEq_strAt hu' (chars ['n', 'o']) (by decide), string_strAt hu, string_strAt hu', hb',
    bind, Except.bind, pure, Except.pure]
  split_ifs
  · obtain ⟨e1, e2⟩ := setTitle_keeps s u
    have htitle : Slashes s.buf (setTitle s u).buf := by
      rw [e1]
      exact hsame
    exact ⟨_, rfl, hv.slashes htitle (by rw [e2]; exact hv.defaultTitle), htitle⟩
  · exact ⟨_, rfl, hv.slashes hsl hv.defaultTitle, hsl⟩
  · exact ⟨_, rfl, hv.slashes hsl hv.defaultTitle, hsl⟩
  · exact ⟨_, rfl, hv.slashes hsl hv.defaultTitle, hsl⟩
  · exact ⟨_, rfl, hv.slashes hsame hv.defaultTitle, hsame⟩
  · refine ⟨_, rfl, hv.slashes hsame ?_, hsame⟩
    rintro a ⟨⟩
    exact hd
  · exact ⟨_, rfl, hv, hsame⟩

/-! ## Lines -/

/-- The end of the value a line without a blank runs on to. -/
def valueEnd (line rest : List UInt8) : List UInt8 := if line.any isBlank then rest else rstrip rest

section
variable {s : Parse} {fileLen a : Nat} {line : List UInt8} (hv : s.Valid fileLen)
  (h : StrAt s.buf a line) (szPath : Option (List UInt8))

include hv h

/-- A line with a blank, or with something of the buffer behind it, is parsed;
of the text behind it only the value it ran on to is cut. -/
theorem parseLine_ok (hin : line.any isBlank = true ∨ a + line.length < fileLen) :
    ∃ s', parseLine szPath s a = .ok s' ∧ s'.Valid fileLen ∧
      ∀ rest, StrAt s.buf (a + line.length + 1) rest →
        ∃ rest', StrAt s'.buf (a + line.length + 1) rest' ∧
          rest'.map slash = (valueEnd line rest).map slash := by
  have hsize := hv.size
  cases hl : line.any isBlank with
  | true =>
    obtain ⟨w, c, r, rfl, hw, hc⟩ := exists_split hl
    have hinside := h.inside
    have htake := (List.takeWhile_sublist isspace (l := r)).length_le
    have hstrip := congrArg List.length (rstrip_append r)
    simp only [List.length_append, List.length_cons] at hinside hstrip ⊢
    obtain ⟨s', hs', hv', hsl⟩ := directive_ok ((hv.cut (a + w.length)).cut
      (a + w.length + 1 + (rstrip r).length)) szPath a
      (a + w.length + 1 + (r.takeWhile isspace).length) (by omega) (by omega)
    refine ⟨s', ?_, hv', fun rest hrest => ?_⟩
    · unfold parseLine
      rw [tokens_blank h hw hc]
      exact hs'
    · rw [valueEnd, hl, if_pos rfl]
      exact hsl.strAt ((hrest.cut (Or.inl (by omega))).cut (Or.inl (by omega)))
  | false =>
    have hin' : a + line.length < fileLen := by simpa [hl] using hin
    obtain ⟨r, hr⟩ := hv.exists_strAt (a := a + line.length + 1) (by omega)
    have hinside := hr.inside
    have htake := (List.takeWhile_sublist isspace (l := r)).length_le
    obtain ⟨s', hs', hv', hsl⟩ := directive_ok (hv.cut (a + line.length + 1 + (rstrip r).length))
      szPath a (a + line.length + 1 + (r.takeWhile isspace).length)
      (by omega) (by omega)
    refine ⟨s', ?_, hv', fun rest hrest => ?_⟩
    · unfold parseLine
      rw [tokens_no_blank h hl hr]
      exact hs'
    · obtain rfl : r = rest := by
        have := (string_strAt hr).symm.trans (string_strAt hrest)
        simpa using this
      rw [valueEnd, hl, if_neg Bool.false_ne_true]
      rw [← rstrip_append r] at hrest
      exact hsl.strAt hrest.cut_left

/-- A last line without a blank that ends the buffer reads behind it. -/
theorem parseLine_outside (hl : line.any isBlank = false) (hend : a + line.length = fileLen) :
    parseLine szPath s a = .error .outside := by
  unfold parseLine
  rw [tokens_outside h hl (hend.trans hv.size.symm)]
  rfl

end

/-! ## The loop -/

def endsInSpace (t : List UInt8) : Bool := t.getLast?.any isspace

/-- The last line has a blank, or a line before it has none and what follows
it ends in white space; `blank` says whether the current line had one so far. -/
def guarded : Bool → List UInt8 → Bool
  | blank, [] => blank
  | blank, c :: t =>
    if c = 0x0a then !blank && endsInSpace t || guarded false t else guarded (blank || isBlank c) t

theorem slash_keeps (c : UInt8) :
    (slash c = 0x0a ↔ c = 0x0a) ∧ isBlank (slash c) = isBlank c ∧ isspace (slash c) = isspace c := by
  unfold slash
  split
  · rename_i h
    subst h
    decide
  · exact ⟨Iff.rfl, rfl, rfl⟩

theorem guarded_slash (blank : Bool) (t : List UInt8) : guarded blank (t.map slash) = guarded blank t := by
  induction t generalizing blank with
  | nil => rfl
  | cons c t ih =>
    have hend : endsInSpace (t.map slash) = endsInSpace t := by
      unfold endsInSpace
      rw [List.getLast?_map]
      cases t.getLast? with
      | none => rfl
      | some d => exact (slash_keeps d).2.2
    obtain ⟨h1, h2, -⟩ := slash_keeps c
    rw [List.map_cons, guarded, guarded, hend, ih, ih, h2]
    simp only [h1]

theorem guarded_line (blank : Bool) (line t : List UInt8) (h : 0x0a ∉ line) :
    guarded blank (line ++ t) = guarded (blank || line.any isBlank) t := by
  induction line generalizing blank with
  | nil => simp
  | cons c line ih =>
    rw [List.mem_cons, not_or] at h
    rw [List.cons_append, guarded, if_neg (Ne.symm h.1), ih _ h.2, List.any_cons, Bool.or_assoc]

theorem rstrip_eq_self {t : List UInt8} (h : endsInSpace t = false) : rstrip t = t := by
  apply List.rdropWhile_eq_self_iff.2
  intro hne hc
  rw [endsInSpace, List.getLast?_eq_some_getLast hne, Option.any_some, hc] at h
  cases h

theorem length_rstrip_lt {t : List UInt8} (h : endsInSpace t = true) : (rstrip t).length < t.length := by
  have hpre : (rstrip t).length ≤ t.length := (List.rdropWhile_prefix isspace t).length_le
  rcases Nat.lt_or_eq_of_le hpre with hlt | heq
  · exact hlt
  · have hself : rstrip t = t := (List.rdropWhile_prefix isspace t).eq_of_length heq
    cases hg : t.getLast? with
    | none =>
      rw [endsInSpace, hg] at h
      cases h
    | some c =>
      have hne : t ≠ [] := by
        rintro rfl
        cases hg
      have hlast := rstrip_last t (by rw [hself]; exact hne)
      simp only [hself] at hlast
      rw [endsInSpace, List.getLast?_eq_some_getLast hne, Option.any_some, hlast] at h
      cases h

theorem parseLoop_none (szPath : Option (List UInt8)) (fuel : Nat) (s : Parse) :
    parseLoop szPath (fuel + 1) s none = .ok s := rfl

/-- Text of one line. -/
theorem parseLoop_last {s : Parse} {a : Nat} {t : List UInt8} (ht : StrAt s.buf a t)
    (hline : ∀ c ∈ t, c ∉ [(0x0a : UInt8)]) (szPath : Option (List UInt8)) (fuel : Nat) :
    parseLoop szPath (fuel + 1) s (some a) =
      (parseLine szPath s a >>= fun s => parseLoop szPath fuel s none) := by
  rw [parseLoop, strsep_none ht hline]
  rfl

/-- The first of several lines. -/
theorem parseLoop_line {s : Parse} {a : Nat} {line rest : List UInt8}
    (ht : StrAt s.buf a (line ++ 0x0a :: rest)) (hline : ∀ c ∈ line, c ∉ [(0x0a : UInt8)])
    (szPath : Option (List UInt8)) (fuel : Nat) :
    parseLoop szPath (fuel + 1) s (some a) =
      (parseLine szPath { s with buf := s.buf.cut (a + line.length) } a >>= fun s =>
        parseLoop szPath fuel s (some (a + line.length + 1))) := by
  rw [parseLoop, strsep_some ht hline (by simp)]
  rfl

theorem guarded_lines {line : List UInt8} (hline : 0x0a ∉ line) (rest : List UInt8) :
    guarded false (line ++ 0x0a :: rest) =
      (!line.any isBlank && endsInSpace rest || guarded false rest) := by
  rw [guarded_line _ _ _ hline, Bool.false_or, guarded, if_pos rfl]

theorem length_valueEnd_le (line rest : List UInt8) :
    (valueEnd line rest).length ≤ rest.length := by
  unfold valueEnd
  split
  · exact Nat.le_refl _
  · exact (List.rdropWhile_prefix isspace rest).length_le

theorem length_valueEnd_lt {line rest : List UInt8} (hline : line.any isBlank = false)
    (hrest : endsInSpace rest = true) : (valueEnd line rest).length < rest.length := by
  rw [valueEnd, hline, if_neg Bool.false_ne_true]
  exact length_rstrip_lt hrest

theorem valueEnd_eq_self {line rest : List UInt8}
    (h : (!line.any isBlank && endsInSpace rest) = false) : valueEnd line rest = rest := by
  unfold valueEnd
  cases hline : line.any isBlank with
  | true => rw [if_pos rfl]
  | false =>
    rw [if_neg Bool.false_ne_true]
    rw [hline] at h
    exact rstrip_eq_self h

/-- The loop on the text `t` at `a`: it ends well if the buffer goes on behind the text or
the text is guarded, and outside otherwise. -/
structure LoopEnds (szPath : Option (List UInt8)) (fileLen fuel : Nat) (s : Parse) (a : Nat)
    (t : List UInt8) : Prop where
  ok : a + t.length < fileLen ∨ guarded false t = true →
    ∃ s', parseLoop szPath fuel s (some a) = .ok s' ∧ s'.Valid fileLen
  outside : a + t.length = fileLen → guarded false t = false →
    parseLoop szPath fuel s (some a) = .error .outside

theorem loopEnds_last {szPath : Option (List UInt8)} {fileLen fuel a : Nat} {s : Parse}
    {t : List UInt8} (hv : s.Valid fileLen) (ht : StrAt s.buf a t)
    (hline : ∀ c ∈ t, c ∉ [(0x0a : UInt8)]) : LoopEnds szPath fileLen (fuel + 2) s a t := by
  have hg : guarded false t = t.any isBlank := by
    have := guarded_line false t [] (fun h => hline _ h (by simp))
    simpa [guarded] using this
  constructor
  · intro hin
    rw [hg] at hin
    obtain ⟨s', hs', hv', -⟩ := parseLine_ok hv ht szPath hin.symm
    rw [parseLoop_last ht hline]
    exact ⟨s', by rw [hs']; exact parseLoop_none szPath fuel s', hv'⟩
  · intro hend hl
    rw [hg] at hl
    rw [parseLoop_last ht hline, parseLine_outside hv ht szPath hl hend]
    rfl

/-- Behind a line the loop goes on with what the value of the line left of the rest. -/
theorem loopEnds_line {szPath : Option (List UInt8)} {fileLen fuel a : Nat} {s : Parse}
    {line rest : List UInt8} (hv : s.Valid fileLen) (ht : StrAt s.buf a (line ++ 0x0a :: rest))
    (hline : ∀ c ∈ line, c ∉ [(0x0a : UInt8)])
    (hnext : ∀ rest' s', rest'.length ≤ rest.length → s'.Valid fileLen →
      StrAt s'.buf (a + line.length + 1) rest' →
      LoopEnds szPath fileLen fuel s' (a + line.length + 1) rest') :
    LoopEnds szPath fileLen (fuel + 1) s a (line ++ 0x0a :: rest) := by
  have hinside := ht.inside
  have hsize := hv.size
  rw [List.length_append, List.length_cons] at hinside
  obtain ⟨s', hs', hv', hrest⟩ := parseLine_ok (hv.cut (a + line.length)) ht.cut_left szPath
    (Or.inr (by omega))
  obtain ⟨rest', hrest', hsame⟩ := hrest rest ht.cut_right
  have hlen := congrArg List.length hsame
  rw [List.length_map, List.length_map] at hlen
  have hrun : parseLoop szPath (fuel + 1) s (some a) =
      parseLoop szPath fuel s' (some (a + line.length + 1)) := by
    rw [parseLoop_line ht hline, hs']
    rfl
  have hle := length_valueEnd_le line rest
  obtain ⟨hok, hout⟩ := hnext rest' s' (by omega) hv' hrest'
  have hguarded := guarded_lines (fun h => hline _ h (by simp)) rest
  have hlong : (line ++ 0x0a :: rest).length = line.length + (rest.length + 1) := by
    rw [List.length_append, List.length_cons]
  cases hcut : !line.any isBlank && endsInSpace rest with
  | true =>
    -- the value cut at the end of the text: the buffer goes on behind it
    obtain ⟨hblank, hspace⟩ := Bool.and_eq_true_iff.1 hcut
    have hlt := length_valueEnd_lt (Bool.not_eq_eq_eq_not.1 hblank) hspace
    refine ⟨fun _ => ?_, fun _ h => ?_⟩
    · rw [hrun]
      exact hok (Or.inl (by omega))
    · rw [hguarded, hcut] at h
      cases h
  | false =>
    have hkeep := valueEnd_eq_self hcut
    have hguard : guarded false rest' = guarded false rest := by
      rw [← guarded_slash, hsame, hkeep, guarded_slash]
    rw [hkeep] at hlen
    rw [hguard] at hok hout
    rw [hcut, Bool.false_or] at hguarded
    refine ⟨fun h => ?_, fun hend h => ?_⟩
    · rw [hguarded] at h
      rw [hrun]
      exact hok (h.imp (fun h => by omega) id)
    · rw [hguarded] at h
      rw [hrun]
      exact hout (by omega) h

/-- **The loop**, by induction on the length of the text. -/
theorem parseLoop_spec (szPath : Option (List UInt8)) (fileLen : Nat) : ∀ (n : Nat) (t : List UInt8)
    (s : Parse) (a fuel : Nat), t.length ≤ n → n + 1 < fuel → s.Valid fileLen → StrAt s.buf a t →
    LoopEnds szPath fileLen fuel s a t := by
  intro n
  induction n using Nat.strong_induction_on with
  | _ n ih =>
    intro t s a fuel hn hfuel hv ht
    obtain ⟨fuel, rfl⟩ : ∃ f, fuel = f + 2 := ⟨fuel - 2, by omega⟩
    cases hnl : t.any (· == 0x0a) with
    | false => exact loopEnds_last hv ht (by simpa using hnl)
    | true =>
      obtain ⟨line, c, rest, rfl, hline, hc⟩ := exists_split hnl
      obtain rfl : c = 0x0a := by simpa using hc
      rw [List.length_append, List.length_cons] at hn
      refine loopEnds_line hv ht (by simpa using hline) fun rest' s' hle hv' hrest' => ?_
      exact ih rest'.length (by omega) rest' s' _ (fuel + 1) (Nat.le_refl _) (by omega) hv' hrest'

/-! ## Top theorem -/

/-- What the search for the default reads lies inside. -/
theorem parseConfig_tail {s : Parse} {fileLen : Nat} (hv : s.Valid fileLen) :
    ∃ s', (match s.defaultTitle with
      | none => (return s : Except Fault Parse)
      | some defaultTitle => do
        let title ← string s.buf defaultTitle
        return { s with entries := markDefault title s.entries.length s.entries (some 0) }) = .ok s' := by
  cases hd : s.defaultTitle with
  | none => exact ⟨s, rfl⟩
  | some a =>
    obtain ⟨t, ht⟩ := hv.exists_strAt (hv.defaultTitle a hd)
    exact ⟨_, by simp only [string_strAt ht]; rfl⟩

/-- The buffer as the loop gets it. -/
def loaded (mem : Nat → UInt8) (contents : List UInt8) : Buffer :=
  Buffer.cut ⟨contents.length, Cells.write mem 0 contents⟩ contents.length

theorem loaded_read (mem : Nat → UInt8) (contents : List UInt8) :
    Cells.read (loaded mem contents).bytes 0 contents.length = contents := by
  have h : Cells.read (loaded mem contents).bytes 0 contents.length =
      Cells.read (Cells.write mem 0 contents) 0 contents.length := by
    apply Cells.read_congr
    intro i _ hi
    exact Buffer.cut_of_ne _ (by omega)
  rw [h, Cells.read_write]

/-- The string at the start of the buffer is the contents up to a NUL in them. -/
theorem loaded_strAt (mem : Nat → UInt8) (contents : List UInt8) :
    (0 ∉ contents → StrAt (loaded mem contents) 0 contents) ∧
      (0 ∈ contents → ∃ t, StrAt (loaded mem contents) 0 t ∧ t.length < contents.length) := by
  constructor
  · intro h
    exact ⟨loaded_read mem contents, by rw [Nat.zero_add]; exact Buffer.cut_self _ _, h,
      by rw [Nat.zero_add]; exact Nat.le_refl _⟩
  · intro h
    obtain ⟨t, c, r, hsplit, ht, hc⟩ := exists_split (p := (· == 0)) (List.any_eq_true.2 ⟨0, h, rfl⟩)
    have hread := loaded_read mem contents
    have hlen := congrArg List.length hsplit
    rw [List.length_append, List.length_cons] at hlen
    refine ⟨t, ⟨?_, ?_, fun h0 => ?_, ?_⟩, by omega⟩
    · have := congrArg (List.take t.length) hread
      rw [Cells.take_read, min_eq_left (by omega)] at this
      rw [this, hsplit, List.take_left]
    · have hnul : (loaded mem contents).bytes (0 + t.length) = c := by
        have := Cells.getElem?_read (loaded mem contents).bytes 0 contents.length t.length (by omega)
        rw [hread, hsplit, List.getElem?_append_right (Nat.le_refl _), Nat.sub_self,
          List.getElem?_cons_zero, Option.some.injEq, ← hsplit] at this
        exact this.symm
      rw [hnul]
      simpa using hc
    · exact List.any_eq_false.1 ht 0 h0 rfl
    · show 0 + t.length ≤ contents.length
      omega

/-- The parser is its loop on the loaded buffer, and the search for the default. -/
theorem parseConfig_loop (mem : Nat → UInt8) (contents : List UInt8) (szPath : Option (List UInt8)) :
    parseConfig (Cells.write mem 0 contents) contents.length szPath =
      (parseLoop szPath (contents.length + 2) ⟨loaded mem contents, [default], 0, none⟩ (some 0) >>=
        fun s => match s.defaultTitle with
          | none => return s
          | some defaultTitle => do
            let title ← string s.buf defaultTitle
            return { s with entries := markDefault title s.entries.length s.entries (some 0) }) := by
  unfold parseConfig
  rw [Buffer.store_zero (Nat.le_refl _)]
  rfl

/-- What the parser makes of contents that are guarded or hold a NUL, and of others. -/
theorem parseConfig_cases (mem : Nat → UInt8) (contents : List UInt8) (szPath : Option (List UInt8)) :
    (0 ∈ contents ∨ guarded false contents = true →
      ∃ r, parseConfig (Cells.write mem 0 contents) contents.length szPath = .ok r) ∧
    (¬ (0 ∈ contents ∨ guarded false contents = true) →
      parseConfig (Cells.write mem 0 contents) contents.length szPath = .error .outside) := by
  have hv : Parse.Valid ⟨loaded mem contents, [default], 0, none⟩ contents.length :=
    ⟨rfl, Buffer.cut_self _ _, by rintro a ⟨⟩⟩
  have hcall := parseConfig_loop mem contents szPath
  -- a loop that ends well is followed by reads inside the buffer
  have hgood : (∃ s', parseLoop szPath (contents.length + 2) ⟨loaded mem contents, [default], 0, none⟩
      (some 0) = .ok s' ∧ s'.Valid contents.length) →
      ∃ r, parseConfig (Cells.write mem 0 contents) contents.length szPath = .ok r := by
    rintro ⟨s', hs', hv'⟩
    obtain ⟨r, hr⟩ := parseConfig_tail hv'
    exact ⟨r, by rw [hcall, hs']; exact hr⟩
  by_cases h0 : 0 ∈ contents
  · obtain ⟨t, ht, hlt⟩ := (loaded_strAt mem contents).2 h0
    refine ⟨fun _ => hgood ?_, fun h => absurd (Or.inl h0) h⟩
    exact (parseLoop_spec szPath contents.length t.length t _ 0 (contents.length + 2)
      (Nat.le_refl _) (by omega) hv ht).1 (Or.inl (by omega))
  · have ht := (loaded_strAt mem contents).1 h0
    obtain ⟨hok, hout⟩ := parseLoop_spec szPath contents.length contents.length contents _ 0
      (contents.length + 2) (Nat.le_refl _) (by omega) hv ht
    refine ⟨fun h => hgood (hok (Or.inr (h.resolve_left h0))), fun h => ?_⟩
    rw [not_or, Bool.not_eq_true] at h
    rw [hcall, hout (Nat.zero_add _) h.2]
    rfl

/-- **Staying inside.**  With `fileLen + 1` bytes allocated, whatever they held,
the parser reads and writes nothing outside them exactly when the contents hold
a NUL or are guarded; and its loop always ends. -/
theorem parseConfig_inside_iff (mem : Nat → UInt8) (contents : List UInt8)
    (szPath : Option (List UInt8)) :
    (parseConfig (Cells.write mem 0 contents) contents.length szPath ≠ .error .outside ↔
      0 ∈ contents ∨ guarded false contents = true) ∧
    parseConfig (Cells.write mem 0 contents) contents.length szPath ≠ .error .endless := by
  obtain ⟨hin, hout⟩ := parseConfig_cases mem contents szPath
  by_cases h : 0 ∈ contents ∨ guarded false contents = true
  · obtain ⟨r, hr⟩ := hin h
    rw [hr]
    exact ⟨iff_of_true (by rintro ⟨⟩) h, by rintro ⟨⟩⟩
  · rw [hout h]
    exact ⟨iff_of_false (fun hne => hne rfl) h, by rintro ⟨⟩⟩

/-- The empty file, in a buffer of one byte: byte 1 is read. -/
theorem empty_file_read_outside :
    ¬ ∀ (mem : Nat → UInt8) (contents : List UInt8) (szPath : Option (List UInt8)),
      parseConfig (Cells.write mem 0 contents) contents.length szPath ≠ .error .outside := by
  intro h
  exact h (fun _ => 0) [] none rfl

end Gentoox.Config
