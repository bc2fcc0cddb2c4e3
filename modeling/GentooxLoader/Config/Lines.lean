import GentooxLoader.Base.Machine
import GentooxLoader.Config.Parser

/-!
# The lines of a configuration (lib/misc/BootParser.c)

What the parser makes of its buffer, told of the text alone: `lineDirectives`
lists, line by line, which field of an entry the line is about and the value
that it gets, which is the rest of the line behind its first blank, or, in a
line without a blank, all the text that follows.  `turn_spec` says that every
turn of the loop stores the next of these.

    directive_store   a directive stores a value
    turn_spec         one turn of the loop is one line of the text
-/

namespace Gentoox.Config

open Lib

/-! ## Algorithm -/

/-- The arrays of an entry that a directive stores into. -/
inductive Field
  | title
  | kernel
  | initrd
  | append
  deriving DecidableEq

def maxLine : Nat := 2048

def Field.offset : Field → Nat
  | title => offsetTitle
  | kernel => offsetKernel
  | initrd => offsetInitrd
  | append => offsetAppend

def Field.size : Field → Nat
  | title => 15
  | _ => maxLine

/-- The field whose keyword the first token of a line begins with. -/
def fieldOf (param : List UInt8) : Option Field :=
  if (chars ['t', 'i', 't', 'l', 'e']).isPrefixOf param then some .title
  else if (chars ['k', 'e', 'r', 'n', 'e', 'l']).isPrefixOf param then some .kernel
  else if (chars ['i', 'n', 'i', 't', 'r', 'd']).isPrefixOf param then some .initrd
  else if (chars ['a', 'p', 'p', 'e', 'n', 'd']).isPrefixOf param then some .append
  else none

/-- Backslashes are turned in the value itself. -/
def turns (f : Option Field) : Bool := f == some .kernel || f == some .initrd

/-- The string that is stored for a value. -/
def stored (szPath : Option (List UInt8)) (f : Field) (value : List UInt8) : Option (List UInt8) :=
  match f with
  | .title | .append => some value
  | .kernel => some (withPath szPath (value.map slash))
  | .initrd =>
    if (chars ['n', 'o']).isPrefixOf (value.map slash) then none
    else some (withPath szPath (value.map slash))

/-- A directive on the entries alone. -/
def storeField (szPath : Option (List UInt8)) (s : Parse) (f : Field) (value : List UInt8) : Parse :=
  match stored szPath f value with
  | none => s
  | some str =>
    match f with
    | .title => setTitle s str
    | .append => s.modify (·.strncpy offsetAppend str)
    | .kernel => s.modify (·.sprintf offsetKernel str)
    | .initrd => s.modify (·.sprintf offsetInitrd str)

def storeDirective (szPath : Option (List UInt8)) (s : Parse) (d : Option Field × List UInt8) : Parse :=
  match d.1 with
  | none => s
  | some f => storeField szPath s f d.2

/-! ## The text alone -/

/-- The first token of a line. -/
def token (line : List UInt8) : List UInt8 := line.takeWhile (!isBlank ·)

/-- What is behind the blank that ends the first token. -/
def ownText (line : List UInt8) : List UInt8 := (line.dropWhile (!isBlank ·)).drop 1

/-- A text without white space at its ends. -/
def strip (t : List UInt8) : List UInt8 := (rstrip t).dropWhile isspace

def unlines (ls : List (List UInt8)) : List UInt8 := [0x0a].intercalate ls

/-- The value of the first of these lines; `behind` is the string behind the NUL
that ends the text. -/
def lineValue (behind line : List UInt8) (ls : List (List UInt8)) : List UInt8 :=
  if line.any isBlank then strip (ownText line)
  else strip (if ls = [] then behind else unlines ls)

/-- A value that ran on has cut off the white space the text ended in, and what
is behind the NUL is then empty. -/
def nextBehind (behind line : List UInt8) (ls : List (List UInt8)) : List UInt8 :=
  if line.any isBlank = false ∧ endsInSpace (unlines ls) = true then [] else behind

/-- The backslashes of a value that ran on were turned. -/
def nextLines (line : List UInt8) (ls : List (List UInt8)) : List (List UInt8) :=
  if line.any isBlank = false ∧ turns (fieldOf (token line)) = true then ls.map (·.map slash) else ls

theorem length_nextLines (line : List UInt8) (ls : List (List UInt8)) :
    (nextLines line ls).length = ls.length := by
  unfold nextLines
  split
  · exact List.length_map _
  · rfl

/-- The field and the value of each line. -/
def lineDirectives (behind : List UInt8) : List (List UInt8) → List (Option Field × List UInt8)
  | [] => []
  | line :: ls =>
    (fieldOf (token line), lineValue behind line ls) ::
      lineDirectives (nextBehind behind line ls) (nextLines line ls)
termination_by ls => ls.length
decreasing_by
  rw [length_nextLines]
  exact Nat.lt_succ_self _

/-! ## White space at the end -/

theorem rstrip_append_white {t w : List UInt8} (hw : ∀ c ∈ w, isspace c = true) :
    rstrip (t ++ w) = rstrip t := by
  unfold rstrip List.rdropWhile
  rw [List.reverse_append, List.dropWhile_append_of_pos]
  intro c hc
  exact hw c (List.mem_reverse.1 hc)

theorem rstrip_append_of_ne {t w : List UInt8} (hw : rstrip w ≠ []) :
    rstrip (t ++ w) = t ++ rstrip w := by
  have hne : w.reverse.dropWhile isspace ≠ [] := by
    intro h
    apply hw
    rw [rstrip, List.rdropWhile, h, List.reverse_nil]
  unfold rstrip List.rdropWhile
  rw [List.reverse_append, List.dropWhile_append, if_neg (by simpa using hne), List.reverse_append,
    List.reverse_reverse]

theorem rstrip_eq_nil {t : List UInt8} : rstrip t = [] ↔ ∀ c ∈ t, isspace c = true :=
  List.rdropWhile_eq_nil_iff

theorem strip_eq_nil {t : List UInt8} (h : ∀ c ∈ t, isspace c = true) : strip t = [] := by
  rw [strip, rstrip_eq_nil.2 h, List.dropWhile_nil]

theorem strip_rstrip (t : List UInt8) : strip (rstrip t) = strip t := by
  unfold strip rstrip
  rw [List.rdropWhile_idempotent]

theorem strip_append_white {t w : List UInt8} (hw : ∀ c ∈ w, isspace c = true) :
    strip (t ++ w) = strip t := by
  rw [strip, rstrip_append_white hw, strip]

/-- The white space in front is not that at the end. -/
theorem takeWhile_rstrip {t : List UInt8} (h : rstrip t ≠ []) :
    t.takeWhile isspace = (rstrip t).takeWhile isspace := by
  have hlast := rstrip_last t h
  have hnot : ¬ ∀ c ∈ rstrip t, isspace c = true := by
    intro hall
    rw [hall _ (List.getLast_mem h)] at hlast
    cases hlast
  have hsplit := rstrip_append t
  rw [← hsplit, List.takeWhile_append, if_neg, hsplit]
  intro hlen
  exact hnot (List.takeWhile_eq_self_iff.1 ((List.takeWhile_prefix isspace).eq_of_length hlen))

theorem takeWhile_append_strip {t : List UInt8} (h : rstrip t ≠ []) :
    t.takeWhile isspace ++ strip t = rstrip t := by
  rw [takeWhile_rstrip h, strip, List.takeWhile_append_dropWhile]

theorem length_strip (t : List UInt8) : (t.takeWhile isspace).length + (strip t).length ≤ t.length := by
  by_cases h : rstrip t = []
  · rw [strip, h, List.dropWhile_nil]
    exact (List.takeWhile_sublist isspace).length_le
  · have hsum := congrArg List.length (takeWhile_append_strip h)
    rw [List.length_append] at hsum
    rw [hsum]
    exact (List.rdropWhile_prefix isspace t).length_le

theorem map_slash_white {t : List UInt8} (h : ∀ c ∈ t, isspace c = true) : t.map slash = t := by
  have hkeep : ∀ c ∈ t, slash c = id c := by
    intro c hc
    unfold slash
    split
    · rename_i heq
      have hwhite := h c hc
      rw [heq] at hwhite
      cases hwhite
    · rfl
  rw [List.map_congr_left hkeep, List.map_id]

theorem rstrip_map_slash (t : List UInt8) : rstrip (t.map slash) = (rstrip t).map slash := by
  unfold rstrip List.rdropWhile
  rw [← List.map_reverse, List.dropWhile_map, ← List.map_reverse]
  congr 3
  funext c
  exact (slash_keeps c).2.2

theorem rtakeWhile_white {t : List UInt8} : ∀ c ∈ t.rtakeWhile isspace, isspace c = true :=
  fun _ hc => List.mem_rtakeWhile_imp hc

section
variable {u v : List UInt8}

/-- White space behind a token does not make a keyword of it. -/
theorem isPrefixOf_append_white {kw : List UInt8} (hkw : kw.any isspace = false)
    (hv : ∀ c ∈ v, isspace c = true) : kw.isPrefixOf (u ++ v) = kw.isPrefixOf u := by
  induction u generalizing kw with
  | nil =>
    cases kw with
    | nil => rfl
    | cons k kw =>
      cases v with
      | nil => rfl
      | cons c v =>
        have hk : isspace k = false := (Bool.or_eq_false_iff.1 hkw).1
        have hc := hv c List.mem_cons_self
        have hne : (k == c) = false := by
          rw [beq_eq_false_iff_ne]
          rintro rfl
          rw [hk] at hc
          cases hc
        rw [List.nil_append, List.isPrefixOf_cons_cons, hne]
        rfl
  | cons d u ih =>
    cases kw with
    | nil => rfl
    | cons k kw =>
      rw [List.cons_append, List.isPrefixOf_cons_cons, List.isPrefixOf_cons_cons,
        ih (Bool.or_eq_false_iff.1 hkw).2]

theorem fieldOf_append_white (hv : ∀ c ∈ v, isspace c = true) : fieldOf (u ++ v) = fieldOf u := by
  unfold fieldOf
  rw [isPrefixOf_append_white rfl hv, isPrefixOf_append_white rfl hv, isPrefixOf_append_white rfl hv,
    isPrefixOf_append_white rfl hv]

theorem token_append_of_not (hu : u.any isBlank = false) :
    token (u ++ v) = u ++ token v ∧ ownText (u ++ v) = ownText v := by
  have hu' : ∀ d ∈ u, (!isBlank d) = true := by simpa using hu
  unfold token ownText
  rw [List.takeWhile_append_of_pos hu', List.dropWhile_append_of_pos hu']
  exact ⟨rfl, rfl⟩

theorem token_of_not (hu : u.any isBlank = false) : token u = u := by
  have h := (token_append_of_not (v := []) hu).1
  rw [List.append_nil] at h
  rw [h]
  exact List.append_nil u

theorem token_split {w r : List UInt8} {c : UInt8} (hw : w.any isBlank = false) (hc : isBlank c = true) :
    token (w ++ c :: r) = w ∧ ownText (w ++ c :: r) = r := by
  obtain ⟨h1, h2⟩ := token_append_of_not (v := c :: r) hw
  rw [h1, h2]
  simp [token, ownText, hc]

/-- With its blank in front, the token of a line is that of the front. -/
theorem token_append (hu : u.any isBlank = true) :
    token (u ++ v) = token u ∧ ownText (u ++ v) = ownText u ++ v := by
  obtain ⟨w, c, r, rfl, hw, hc⟩ := exists_split hu
  obtain ⟨h1, h2⟩ := token_split (r := r) hw hc
  obtain ⟨h3, h4⟩ := token_split (r := r ++ v) hw hc
  rw [List.append_assoc, List.cons_append, h1, h2, h3, h4]
  exact ⟨rfl, rfl⟩

theorem ownText_subset {line : List UInt8} {c : UInt8} (h : c ∈ ownText line) : c ∈ line :=
  (List.dropWhile_sublist _).subset ((List.drop_sublist 1 _).subset h)

end

/-- `w` is `p` with perhaps some white space behind it. -/
def SameWord (p w : List UInt8) : Prop := ∃ v, (∀ c ∈ v, isspace c = true) ∧ w = p ++ v

theorem SameWord.refl (p : List UInt8) : SameWord p p :=
  ⟨[], fun _ hc => absurd hc List.not_mem_nil, (List.append_nil p).symm⟩

theorem SameWord.fieldOf {p w : List UInt8} (h : SameWord p w) : fieldOf p = fieldOf w := by
  obtain ⟨v, hv, rfl⟩ := h
  exact (fieldOf_append_white hv).symm

/-- The first token of a line without the white space at its end. -/
theorem token_rstrip (line : List UInt8) : SameWord (token (rstrip line)) (token line) := by
  have hline := rstrip_append line
  have hwhite := rtakeWhile_white (t := line)
  cases hb : (rstrip line).any isBlank with
  | true =>
    have hsame := (token_append (v := line.rtakeWhile isspace) hb).1
    rw [hline] at hsame
    rw [hsame]
    exact .refl _
  | false =>
    have hbehind := (token_append_of_not (v := line.rtakeWhile isspace) hb).1
    rw [hline] at hbehind
    rw [token_of_not hb, hbehind]
    exact ⟨_, fun c hc => hwhite c ((List.takeWhile_sublist _).subset hc), rfl⟩

/-- The field of a line is that of the line without the white space at its end. -/
theorem fieldOf_token_rstrip (line : List UInt8) :
    fieldOf (token (rstrip line)) = fieldOf (token line) := (token_rstrip line).fieldOf

theorem strip_ownText_rstrip (line : List UInt8) :
    strip (ownText line) =
      if (rstrip line).any isBlank then strip (ownText (rstrip line)) else [] := by
  have hline := rstrip_append line
  have hwhite := rtakeWhile_white (t := line)
  cases hb : (rstrip line).any isBlank with
  | true =>
    have := (token_append (v := line.rtakeWhile isspace) hb).2
    rw [hline] at this
    rw [this, strip_append_white hwhite, if_pos rfl]
  | false =>
    have := (token_append_of_not (v := line.rtakeWhile isspace) hb).2
    rw [hline] at this
    rw [this, if_neg Bool.false_ne_true]
    exact strip_eq_nil fun c hc => hwhite c (ownText_subset hc)

/-- A line of white space has no directive. -/
theorem fieldOf_token_white {line : List UInt8} (h : ∀ c ∈ line, isspace c = true) :
    fieldOf (token line) = none := by
  rw [← fieldOf_token_rstrip, rstrip_eq_nil.2 h]
  rfl

/-! ## Lines of a text -/

theorem unlines_cons {line : List UInt8} {ls : List (List UInt8)} (h : ls ≠ []) :
    unlines (line :: ls) = line ++ 0x0a :: unlines ls := by
  rw [unlines, List.intercalate_cons_of_ne_nil h, List.append_assoc]
  rfl

theorem unlines_map_slash (ls : List (List UInt8)) :
    unlines (ls.map (·.map slash)) = (unlines ls).map slash := by
  induction ls with
  | nil => rfl
  | cons line ls ih =>
    by_cases h : ls = []
    · subst h
      simp [unlines]
    · rw [List.map_cons, unlines_cons (by simpa using h), unlines_cons h, ih, List.map_append,
        List.map_cons]
      rfl

theorem subset_unlines {line : List UInt8} {ls : List (List UInt8)} (h : line ∈ ls) :
    ∀ c ∈ line, c ∈ unlines ls := by
  induction ls with
  | nil => cases h
  | cons l ls ih =>
    intro c hc
    by_cases hnil : ls = []
    · subst hnil
      rw [List.mem_singleton.1 h] at hc
      simpa [unlines] using hc
    · rw [unlines_cons hnil, List.mem_append, List.mem_cons]
      rcases List.mem_cons.1 h with rfl | h
      · exact Or.inl hc
      · exact Or.inr (Or.inr (ih h c hc))

/-- What is true of the lines stays true when backslashes are turned. -/
theorem nextLines_mem {line : List UInt8} {ls : List (List UInt8)} {l : List UInt8}
    (h : l ∈ nextLines line ls) : l ∈ ls ∨ ∃ l' ∈ ls, l = l'.map slash := by
  unfold nextLines at h
  split at h
  · obtain ⟨l', hl', rfl⟩ := List.mem_map.1 h
    exact Or.inr ⟨l', hl', rfl⟩
  · exact Or.inl h

theorem nextLines_white {line : List UInt8} {ls : List (List UInt8)}
    (h : ∀ l ∈ ls, ∀ c ∈ l, isspace c = true) : nextLines line ls = ls := by
  unfold nextLines
  split
  · have hsame : ∀ l ∈ ls, l.map slash = id l := fun l hl => map_slash_white (h l hl)
    rw [List.map_congr_left hsame, List.map_id]
  · rfl

/-- White lines have no directives. -/
theorem lineDirectives_white {behind : List UInt8} {ls : List (List UInt8)}
    (h : ∀ l ∈ ls, ∀ c ∈ l, isspace c = true) : ∀ d ∈ lineDirectives behind ls, d.1 = none := by
  induction ls generalizing behind with
  | nil =>
    rw [lineDirectives]
    simp
  | cons line ls ih =>
    have hrest : ∀ l ∈ ls, ∀ c ∈ l, isspace c = true := fun l hl => h l (List.mem_cons_of_mem line hl)
    rw [lineDirectives, nextLines_white hrest]
    intro d hmem
    rcases List.mem_cons.1 hmem with rfl | hmem
    · exact fieldOf_token_white (h line List.mem_cons_self)
    · exact ih hrest d hmem

theorem zero_notMem_strip {t : List UInt8} (h : 0 ∉ t) : 0 ∉ strip t := fun h0 =>
  h ((List.rdropWhile_prefix isspace t).subset ((List.dropWhile_sublist isspace).subset h0))

theorem zero_notMem_slash {t : List UInt8} (h : 0 ∉ t) : 0 ∉ t.map slash := by
  intro hmem
  obtain ⟨c, hc, h0⟩ := List.mem_map.1 hmem
  rw [slash_eq_zero] at h0
  exact h (h0 ▸ hc)

theorem unlines_nextLines (line : List UInt8) (ls : List (List UInt8)) :
    unlines (nextLines line ls) = unlines ls ∨ unlines (nextLines line ls) = (unlines ls).map slash := by
  unfold nextLines
  split
  · exact Or.inr (unlines_map_slash ls)
  · exact Or.inl rfl

/-- A value holds no NUL. -/
theorem lineDirectives_nonzero {behind : List UInt8} {ls : List (List UInt8)} (hb : 0 ∉ behind)
    (hls : 0 ∉ unlines ls) : ∀ d ∈ lineDirectives behind ls, 0 ∉ d.2 := by
  induction hn : ls.length generalizing behind ls with
  | zero =>
    rw [List.length_eq_zero_iff.1 hn, lineDirectives]
    simp
  | succ n ih =>
    obtain ⟨line, ls, rfl⟩ := List.exists_cons_of_length_eq_add_one hn
    have hline : 0 ∉ line := fun h => hls (subset_unlines List.mem_cons_self 0 h)
    have hrest : 0 ∉ unlines ls := by
      by_cases hnil : ls = []
      · subst hnil
        simp [unlines]
      · rw [unlines_cons hnil] at hls
        exact fun h => hls (List.mem_append_right line (List.mem_cons_of_mem _ h))
    rw [lineDirectives]
    intro d hmem
    rcases List.mem_cons.1 hmem with rfl | hmem
    · show 0 ∉ lineValue behind line ls
      unfold lineValue
      split
      · exact zero_notMem_strip fun h => hline (ownText_subset h)
      · split
        · exact zero_notMem_strip hb
        · exact zero_notMem_strip hrest
    · apply ih _ _ _ d hmem
      · unfold nextBehind
        split
        · simp
        · exact hb
      · rcases unlines_nextLines line ls with h | h
        · rwa [h]
        · rw [h]
          exact zero_notMem_slash hrest
      · rw [length_nextLines]
        simpa using hn

/-! ## One directive -/

section
variable {b : Buffer} {a : Nat}

/-- Stores that do not touch a string leave it there. -/
theorem StrAt.write {t l : List UInt8} {i : Nat} (h : StrAt b a t)
    (hi : i + l.length ≤ a ∨ a + t.length < i) : StrAt ⟨b.fileLen, Cells.write b.bytes i l⟩ a t := by
  refine ⟨?_, ?_, h.nonzero, h.inside⟩
  · rw [Cells.read_write_of_outside _ _ _ _ _ (by omega)]
    exact h.chars
  · show Cells.write b.bytes i l (a + t.length) = 0
    rw [Cells.write_of_outside _ _ _ _ (by omega)]
    exact h.nul

theorem StrAt.overwrite {t l : List UInt8} (h : StrAt b a t) (hl : l.length = t.length) (h0 : 0 ∉ l) :
    StrAt ⟨b.fileLen, Cells.write b.bytes a l⟩ a l := by
  have hin := h.inside
  refine ⟨Cells.read_write _ _ _, ?_, h0, by rw [hl]; exact hin⟩
  show Cells.write b.bytes a l (a + l.length) = 0
  rw [Cells.write_of_outside _ _ _ _ (by omega), hl]
  exact h.nul

/-- The value behind `p`, after the white space behind it was cut off. -/
theorem value_strAt {p : Nat} {r : List UInt8} (h : StrAt b p r) :
    StrAt (b.cut (p + (rstrip r).length)) (p + (r.takeWhile isspace).length) (strip r) := by
  by_cases hnil : rstrip r = []
  · have hwhite := rstrip_eq_nil.1 hnil
    have htake : r.takeWhile isspace = r := List.takeWhile_eq_self_iff.2 hwhite
    rw [strip_eq_nil hwhite, htake]
    exact strAt_nil.2 ⟨b.cut_of_zero h.nul, h.inside⟩
  · have hsplit := rstrip_append r
    have hfront : StrAt (b.cut (p + (rstrip r).length)) p (rstrip r) := by
      rw [← hsplit] at h
      exact h.cut_left
    rw [← takeWhile_append_strip hnil] at hfront
    have hback := (strAt_append.1 hfront).2.2
    rw [takeWhile_append_strip hnil] at hback
    exact hback

end

/-- The buffer after a directive. -/
def slashed (f : Option Field) (b : Buffer) (paramdata : Nat) (value : List UInt8) : Buffer :=
  if turns f then ⟨b.fileLen, Cells.write b.bytes paramdata (value.map slash)⟩ else b

/-- A directive stores its value as `storeDirective` has it. -/
theorem directive_store {s : Parse} {param paramdata : Nat} {p v : List UInt8}
    (hp : StrAt s.buf param p) (hv : StrAt s.buf paramdata v) (szPath : Option (List UInt8)) :
    ∃ s', directive szPath s param paramdata = .ok s' ∧
      s'.entries = (storeDirective szPath s (fieldOf p, v)).entries ∧
      s'.currentEntry = (storeDirective szPath s (fieldOf p, v)).currentEntry ∧
      s'.buf = slashed (fieldOf p) s.buf paramdata v := by
  have hslash : StrAt ⟨s.buf.fileLen, Cells.write s.buf.bytes paramdata (v.map slash)⟩ paramdata
      (v.map slash) := hv.overwrite (List.length_map _) (zero_notMem_slash hv.nonzero)
  have hreplace : chrreplace s.buf paramdata 0x5c 0x2f =
      .ok ⟨s.buf.fileLen, Cells.write s.buf.bytes paramdata (v.map slash)⟩ := by
    unfold chrreplace
    rw [string_strAt hv]
    rfl
  simp only [directive, strncmpEq_strAt hp (chars ['t', 'i', 't', 'l', 'e']) (by decide),
    strncmpEq_strAt hp (chars ['k', 'e', 'r', 'n', 'e', 'l']) (by decide),
    strncmpEq_strAt hp (chars ['i', 'n', 'i', 't', 'r', 'd']) (by decide),
    strncmpEq_strAt hp (chars ['a', 'p', 'p', 'e', 'n', 'd']) (by decide),
    strncmpEq_strAt hp (chars ['d', 'e', 'f', 'a', 'u', 'l', 't']) (by decide),
    hreplace, string_strAt hv, bind, Except.bind, pure, Except.pure,
    strncmpEq_strAt hslash (chars ['n', 'o']) (by decide), string_strAt hslash]
  by_cases h1 : (chars ['t', 'i', 't', 'l', 'e']).isPrefixOf p = true
  · have hf : fieldOf p = some .title := if_pos h1
    rw [if_pos h1, hf]
    exact ⟨_, rfl, rfl, rfl, (setTitle_keeps s v).1⟩
  by_cases h2 : (chars ['k', 'e', 'r', 'n', 'e', 'l']).isPrefixOf p = true
  · have hf : fieldOf p = some .kernel := by rw [fieldOf, if_neg h1, if_pos h2]
    rw [if_neg h1, if_pos h2, hf]
    exact ⟨_, rfl, rfl, rfl, rfl⟩
  by_cases h3 : (chars ['i', 'n', 'i', 't', 'r', 'd']).isPrefixOf p = true
  · have hf : fieldOf p = some .initrd := by rw [fieldOf, if_neg h1, if_neg h2, if_pos h3]
    rw [if_neg h1, if_neg h2, if_pos h3, hf]
    by_cases hno : (chars ['n', 'o']).isPrefixOf (v.map slash) = true
    · have hstore : storeDirective szPath s (some .initrd, v) = s := by
        simp [storeDirective, storeField, stored, hno]
      rw [if_pos hno, hstore]
      exact ⟨_, rfl, rfl, rfl, rfl⟩
    · have hstore : storeDirective szPath s (some .initrd, v) =
          s.modify (·.sprintf offsetInitrd (withPath szPath (v.map slash))) := by
        simp [storeDirective, storeField, stored, hno]
      rw [if_neg hno, hstore]
      exact ⟨_, rfl, rfl, rfl, rfl⟩
  by_cases h4 : (chars ['a', 'p', 'p', 'e', 'n', 'd']).isPrefixOf p = true
  · have hf : fieldOf p = some .append := by rw [fieldOf, if_neg h1, if_neg h2, if_neg h3, if_pos h4]
    rw [if_neg h1, if_neg h2, if_neg h3, if_pos h4, hf]
    exact ⟨_, rfl, rfl, rfl, rfl⟩
  have hf : fieldOf p = none := by rw [fieldOf, if_neg h1, if_neg h2, if_neg h3, if_neg h4]
  rw [if_neg h1, if_neg h2, if_neg h3, if_neg h4, hf]
  by_cases h5 : (chars ['d', 'e', 'f', 'a', 'u', 'l', 't']).isPrefixOf p = true
  · rw [if_pos h5]
    exact ⟨_, rfl, rfl, rfl, rfl⟩
  · rw [if_neg h5]
    exact ⟨_, rfl, rfl, rfl, rfl⟩

/-- A directive looks at nothing but the entries. -/
theorem storeDirective_congr (szPath : Option (List UInt8)) {s s' : Parse}
    (d : Option Field × List UInt8) (hentries : s'.entries = s.entries)
    (hcurrent : s'.currentEntry = s.currentEntry) :
    (storeDirective szPath s' d).entries = (storeDirective szPath s d).entries ∧
      (storeDirective szPath s' d).currentEntry = (storeDirective szPath s d).currentEntry := by
  obtain ⟨buf, entries, current, defaultTitle⟩ := s
  obtain ⟨buf', entries', current', defaultTitle'⟩ := s'
  obtain rfl : entries' = entries := hentries
  obtain rfl : current' = current := hcurrent
  obtain ⟨_ | f, v⟩ := d
  · exact ⟨rfl, rfl⟩
  cases f with
  | title =>
    show (setTitle _ v).entries = (setTitle _ v).entries ∧
      (setTitle _ v).currentEntry = (setTitle _ v).currentEntry
    unfold setTitle
    by_cases h : (entries'.getD current' default).bytes offsetTitle = 0
    · rw [if_pos h, if_pos h]
      exact ⟨rfl, rfl⟩
    · rw [if_neg h, if_neg h]
      exact ⟨rfl, rfl⟩
  | kernel => exact ⟨rfl, rfl⟩
  | append => exact ⟨rfl, rfl⟩
  | initrd =>
    by_cases h : (chars ['n', 'o']).isPrefixOf (v.map slash) = true <;>
      simp [storeDirective, storeField, stored, h, Parse.modify]

/-! ## One turn -/

/-- A turn of the loop, over a line with this first token and this value. -/
def Turn (szPath : Option (List UInt8)) (c : Parse × Option Nat) (t : List UInt8 × List UInt8)
    (c' : Parse × Option Nat) : Prop :=
  ∃ linePtr buf param paramdata buf', strsep c.1.buf c.2 [0x0a] = .ok (some linePtr, c'.2, buf) ∧
    tokens buf linePtr = .ok (param, paramdata, buf') ∧ string buf' param = .ok t.1 ∧
    string buf' paramdata = .ok t.2 ∧
    directive szPath { c.1 with buf := buf' } param paramdata = .ok c'.1

theorem Turn.unique {szPath : Option (List UInt8)} {c c' c'' : Parse × Option Nat}
    {t u : List UInt8 × List UInt8} (h : Turn szPath c t c') (h' : Turn szPath c u c'') :
    t = u ∧ c' = c'' := by
  obtain ⟨linePtr, buf, param, paramdata, buf', h1, h2, h3, h4, h5⟩ := h
  obtain ⟨linePtr', buf2, param', paramdata', buf2', h1', h2', h3', h4', h5'⟩ := h'
  simp only [h1, Except.ok.injEq, Prod.mk.injEq, Option.some.injEq] at h1'
  obtain ⟨rfl, hpos, rfl⟩ := h1'
  simp only [h2, Except.ok.injEq, Prod.mk.injEq] at h2'
  obtain ⟨rfl, rfl, rfl⟩ := h2'
  simp only [h3, Except.ok.injEq] at h3'
  simp only [h4, Except.ok.injEq] at h4'
  simp only [h5, Except.ok.injEq] at h5'
  exact ⟨Prod.ext h3' h4', Prod.ext h5' hpos⟩

/-- Behind the last line there is no turn. -/
theorem not_turn_none {szPath : Option (List UInt8)} {s : Parse} (t : List UInt8 × List UInt8)
    (c' : Parse × Option Nat) : ¬ Turn szPath (s, none) t c' := by
  rintro ⟨linePtr, buf, param, paramdata, buf', h1, -⟩
  cases h1

theorem Turn.parseLoop {szPath : Option (List UInt8)} {s s' : Parse} {pos pos' : Option Nat}
    {t : List UInt8 × List UInt8} (h : Turn szPath (s, pos) t (s', pos')) (fuel : Nat) :
    parseLoop szPath (fuel + 1) s pos = parseLoop szPath fuel s' pos' := by
  obtain ⟨linePtr, buf, param, paramdata, buf', h1, h2, -, -, h5⟩ := h
  have hline : parseLine szPath { s with buf := buf } linePtr = .ok s' := by
    unfold parseLine
    rw [h2]
    exact h5
  rw [Config.parseLoop, h1]
  show (parseLine szPath { s with buf := buf } linePtr >>= _) = _
  rw [hline]
  rfl

/-- What a turn makes of the entries. -/
def Stores (szPath : Option (List UInt8)) (s s' : Parse) (d : Option Field × List UInt8) : Prop :=
  s'.entries = (storeDirective szPath s d).entries ∧
    s'.currentEntry = (storeDirective szPath s d).currentEntry

section
variable {s : Parse} {a : Nat} (szPath : Option (List UInt8))

theorem turn_of_tokens {pos' : Option Nat} {buf buf' : Buffer} {paramdata : Nat} {p v : List UInt8}
    (hsep : strsep s.buf (some a) [0x0a] = .ok (some a, pos', buf))
    (htok : tokens buf a = .ok (a, paramdata, buf')) (hp : StrAt buf' a p)
    (hv : StrAt buf' paramdata v) :
    ∃ s', Turn szPath (s, some a) (p, v) (s', pos') ∧ Stores szPath s s' (fieldOf p, v) ∧
      s'.buf = slashed (fieldOf p) buf' paramdata v := by
  let t : Parse := { s with buf := buf' }
  have hentries' : t.entries = s.entries := rfl
  have hcurrent' : t.currentEntry = s.currentEntry := rfl
  obtain ⟨s', hs', hentries, hcurrent, hbuf⟩ := directive_store (s := t) hp hv szPath
  obtain ⟨h1, h2⟩ := storeDirective_congr szPath (fieldOf p, v) hentries' hcurrent'
  exact ⟨s', ⟨a, buf, a, paramdata, buf', hsep, htok, string_strAt hp, string_strAt hv, hs'⟩,
    ⟨hentries.trans h1, hcurrent.trans h2⟩, hbuf⟩

/-- The string at a place that a directive does not touch. -/
theorem StrAt.slashed {b : Buffer} {i paramdata : Nat} {u v : List UInt8} (h : StrAt b i u)
    (f : Option Field) (hi : paramdata + v.length ≤ i) : StrAt (slashed f b paramdata v) i u := by
  unfold Config.slashed
  split
  · exact h.write (Or.inl (by rwa [List.length_map]))
  · exact h

theorem not_newline {t : List UInt8} (h : 0x0a ∉ t) : ∀ c ∈ t, c ∉ [(0x0a : UInt8)] := by
  intro c hc heq
  rw [List.mem_singleton.1 heq] at hc
  exact h hc

theorem slashed_fileLen (f : Option Field) (b : Buffer) (i : Nat) (v : List UInt8) :
    (slashed f b i v).fileLen = b.fileLen := by
  unfold slashed
  split <;> rfl

theorem slashed_nil (f : Option Field) (b : Buffer) (i : Nat) : slashed f b i [] = b := by
  unfold slashed
  split
  · rw [List.map_nil, Cells.write_nil]
  · rfl

/-- The text a value was taken from, with its white space in front. -/
theorem StrAt.slashed_text {b : Buffer} {i : Nat} {r : List UInt8} (h : StrAt b i (rstrip r))
    (f : Option Field) :
    StrAt (Config.slashed f b (i + (r.takeWhile isspace).length) (strip r)) i
      (if turns f then (rstrip r).map slash else rstrip r) := by
  by_cases hnil : rstrip r = []
  · rw [strip, hnil, List.dropWhile_nil, slashed_nil, List.map_nil, ite_self, ← hnil]
    exact h
  have hsplit := takeWhile_append_strip hnil
  unfold Config.slashed
  by_cases hf : turns f = true
  · rw [if_pos hf, if_pos hf, ← hsplit, List.map_append]
    rw [← hsplit] at h
    obtain ⟨hlead, h0, hvalue⟩ := strAt_append.1 h
    have hkeep : (r.takeWhile isspace).map slash = r.takeWhile isspace :=
      map_slash_white fun c hc => List.mem_takeWhile_imp hc
    rw [hkeep]
    refine strAt_append.2 ⟨?_, h0, hvalue.overwrite (List.length_map _) (zero_notMem_slash hvalue.nonzero)⟩
    rw [Cells.read_write_of_outside _ _ _ _ _ (Or.inl (le_refl _)), hlead]
  · rw [if_neg hf, if_neg hf]
    exact h

/-- A line with a blank that is not the last. -/
theorem turn_line_blank {line rest : List UInt8} (h : StrAt s.buf a (line ++ 0x0a :: rest))
    (hline : 0x0a ∉ line) (hb : line.any isBlank = true) :
    ∃ s', Turn szPath (s, some a) (token line, strip (ownText line)) (s', some (a + line.length + 1)) ∧
      Stores szPath s s' (fieldOf (token line), strip (ownText line)) ∧
      s'.buf.fileLen = s.buf.fileLen ∧
      ∀ i u, a + line.length < i → StrAt s.buf i u → StrAt s'.buf i u := by
  have hsep := strsep_some h (not_newline hline) (show (0x0a : UInt8) ∈ [0x0a] by simp)
  obtain ⟨w, c, r, rfl, hw, hc⟩ := exists_split hb
  obtain ⟨htok, hown⟩ := token_split (r := r) hw hc
  have hfront := h.cut_left
  have hlen : (w ++ c :: r).length = w.length + 1 + r.length := by simp; omega
  have hstrip : (rstrip r).length ≤ r.length := (List.rdropWhile_prefix isspace r).length_le
  have hvalue := length_strip r
  have hp := (hfront.cut_left).cut (i := a + w.length + 1 + (rstrip r).length) (Or.inr (by omega))
  have hv := value_strAt hfront.cut_right
  obtain ⟨s', hturn, hstores, hbuf⟩ := turn_of_tokens szPath hsep (tokens_blank hfront hw hc) hp hv
  rw [htok, hown]
  refine ⟨s', hturn, hstores, by rw [hbuf, slashed_fileLen]; rfl, ?_⟩
  intro i u hi hu
  rw [hbuf]
  apply StrAt.slashed
  · exact ((hu.cut (Or.inl (by omega))).cut (Or.inl (by omega))).cut (Or.inl (by omega))
  · omega

/-- A line without a blank that is not the last: its value is the text behind. -/
theorem turn_line_not {line rest : List UInt8} (h : StrAt s.buf a (line ++ 0x0a :: rest))
    (hline : 0x0a ∉ line) (hb : line.any isBlank = false) :
    ∃ s', Turn szPath (s, some a) (line, strip rest) (s', some (a + line.length + 1)) ∧
      Stores szPath s s' (fieldOf line, strip rest) ∧ s'.buf.fileLen = s.buf.fileLen ∧
      StrAt s'.buf (a + line.length + 1)
        (if turns (fieldOf line) then (rstrip rest).map slash else rstrip rest) ∧
      (endsInSpace rest = true → ∃ w, StrAt s'.buf (a + line.length + 1 + (rstrip rest).length + 1) w ∧
        ∀ c ∈ w, isspace c = true) ∧
      ∀ i u, a + line.length + 1 + rest.length < i → StrAt s.buf i u → StrAt s'.buf i u := by
  have hsep := strsep_some h (not_newline hline) (show (0x0a : UInt8) ∈ [0x0a] by simp)
  have hrest := h.cut_right
  have hstrip : (rstrip rest).length ≤ rest.length := (List.rdropWhile_prefix isspace rest).length_le
  have hvalue := length_strip rest
  have hp := h.cut_left.cut (i := a + line.length + 1 + (rstrip rest).length) (Or.inr (by omega))
  have hv := value_strAt hrest
  obtain ⟨s', hturn, hstores, hbuf⟩ :=
    turn_of_tokens szPath hsep (tokens_no_blank h.cut_left hb hrest) hp hv
  have hsplit := rstrip_append rest
  refine ⟨s', hturn, hstores, by rw [hbuf, slashed_fileLen]; rfl, ?_, ?_, ?_⟩
  · rw [hbuf]
    apply StrAt.slashed_text
    rw [← hsplit] at hrest
    exact hrest.cut_left
  · intro hend
    obtain ⟨c, w, hcw⟩ : ∃ c w, rest.rtakeWhile isspace = c :: w := by
      cases hr : rest.rtakeWhile isspace with
      | nil =>
        rw [hr, List.append_nil] at hsplit
        have hlt := length_rstrip_lt hend
        rw [hsplit] at hlt
        exact absurd hlt (Nat.lt_irrefl _)
      | cons c w => exact ⟨c, w, rfl⟩
    rw [hcw] at hsplit
    rw [← hsplit] at hrest
    refine ⟨w, ?_, fun d hd => rtakeWhile_white d (by rw [hcw]; exact List.mem_cons_of_mem c hd)⟩
    rw [hbuf]
    by_cases hnil : rstrip rest = []
    · rw [strip, hnil, List.dropWhile_nil, slashed_nil, ← hnil]
      exact hrest.cut_right
    · apply hrest.cut_right.slashed
      have hsum := congrArg List.length (takeWhile_append_strip hnil)
      rw [List.length_append] at hsum
      omega
  · intro i u hi hu
    rw [hbuf]
    apply StrAt.slashed
    · exact (hu.cut (Or.inl (by omega))).cut (Or.inl (by omega))
    · omega

/-- The last line; without a blank its value is the string behind the NUL. -/
theorem turn_last {line w : List UInt8} (h : StrAt s.buf a line) (hline : 0x0a ∉ line)
    (hw : line.any isBlank = true ∨ StrAt s.buf (a + line.length + 1) w) :
    ∃ s', Turn szPath (s, some a)
        (token line, if line.any isBlank then strip (ownText line) else strip w) (s', none) ∧
      Stores szPath s s' (fieldOf (token line),
        if line.any isBlank then strip (ownText line) else strip w) := by
  have hsep := strsep_none h (not_newline hline)
  cases hb : line.any isBlank with
  | true =>
    obtain ⟨u, c, r, rfl, hu, hc⟩ := exists_split hb
    obtain ⟨htok, hown⟩ := token_split (r := r) hu hc
    have hp := h.cut_left.cut (i := a + u.length + 1 + (rstrip r).length) (Or.inr (by omega))
    obtain ⟨s', hturn, hstores, -⟩ :=
      turn_of_tokens szPath hsep (tokens_blank h hu hc) hp (value_strAt h.cut_right)
    rw [htok, hown]
    exact ⟨s', hturn, hstores⟩
  | false =>
    have hbehind : StrAt s.buf (a + line.length + 1) w := hw.resolve_left (by simp [hb])
    have hp := h.cut (i := a + line.length + 1 + (rstrip w).length) (Or.inr (by omega))
    obtain ⟨s', hturn, hstores, -⟩ :=
      turn_of_tokens szPath hsep (tokens_no_blank h hb hbehind) hp (value_strAt hbehind)
    rw [token_of_not hb]
    exact ⟨s', hturn, hstores⟩

end

/-! ## The lines that are left -/

/-- The text at `a` are these lines, perhaps without the white space they end
in; then, and in a buffer that goes on, a string follows the NUL. -/
def AtLines (b : Buffer) (a : Nat) (behind : List UInt8) (ls : List (List UInt8)) : Prop :=
  ∃ t w, StrAt b a t ∧ (a + t.length = b.fileLen ∨ StrAt b (a + t.length + 1) w) ∧
    strip w = strip behind ∧
    (t = unlines ls ∨ t = rstrip (unlines ls) ∧ a + t.length ≠ b.fileLen ∧ behind = [])

/-- What is left after the turn over the first of these lines. -/
def Left (s : Parse) (pos : Option Nat) (behind : List UInt8)
    (ls : List (List UInt8)) : Prop :=
  (∀ l ∈ ls, 0x0a ∉ l) ∧
    match pos with
    | none => ∀ d ∈ lineDirectives behind ls, d.1 = none
    | some a => ls ≠ [] ∧ AtLines s.buf a behind ls

/-- Where the loop goes on: behind the line, or, with nothing but white space left
behind it, nowhere. -/
def Next (a : Nat) (line : List UInt8) (ls : List (List UInt8)) (param : List UInt8) :
    Option Nat → Prop
  | some a' => a' = a + line.length + 1 ∧ param = token line
  | none => ∀ l ∈ ls, ∀ c ∈ l, isspace c = true

section
variable {s r : Parse} {a fuel : Nat} {szPath : Option (List UInt8)} {line behind : List UInt8}
  {ls : List (List UInt8)}

/-- A line without a blank at the end of the buffer is not parsed. -/
theorem line_inside {t w : List UInt8} (ht : StrAt s.buf a t) (hline : 0x0a ∉ t)
    (hw : a + t.length = s.buf.fileLen ∨ StrAt s.buf (a + t.length + 1) w)
    (hok : parseLoop szPath fuel s (some a) = .ok r) :
    t.any isBlank = true ∨ StrAt s.buf (a + t.length + 1) w := by
  cases hb : t.any isBlank with
  | true => exact Or.inl rfl
  | false =>
    refine Or.inr (hw.resolve_left fun hend => ?_)
    have hline' : parseLine szPath s a = .error .outside := by
      unfold parseLine
      rw [tokens_outside ht hb hend]
      rfl
    cases fuel with
    | zero => cases hok
    | succ fuel =>
      rw [parseLoop, strsep_none ht (not_newline hline)] at hok
      have hloop : (parseLine szPath s a >>= fun s => parseLoop szPath fuel s none) = .ok r := hok
      rw [hline'] at hloop
      cases hloop

/-- The text is the first line, whole or all that is left of the lines. -/
theorem turn_spec_last {t w : List UInt8} (ht : StrAt s.buf a t) (hline : 0x0a ∉ t)
    (hw : a + t.length = s.buf.fileLen ∨ StrAt s.buf (a + t.length + 1) w)
    (hbehind : strip w = strip behind) (hok : parseLoop szPath fuel s (some a) = .ok r)
    (hcase : t = line ∧ ls = [] ∨ t = rstrip line ∧ behind = [] ∧ rstrip (unlines ls) = []) :
    ∃ param s', Turn szPath (s, some a) (param, lineValue behind line ls) (s', none) ∧
      SameWord param (token line) ∧
      Stores szPath s s' (fieldOf (token line), lineValue behind line ls) := by
  obtain ⟨s', hturn, hstores⟩ := turn_last szPath ht hline (line_inside ht hline hw hok)
  have hword : SameWord (token t) (token line) := by
    rcases hcase with ⟨rfl, -⟩ | ⟨rfl, -⟩
    · exact .refl _
    · exact token_rstrip line
  have hvalue : (if t.any isBlank then strip (ownText t) else strip w) = lineValue behind line ls := by
    unfold lineValue
    rcases hcase with ⟨rfl, rfl⟩ | ⟨rfl, rfl, hwhite⟩
    · rw [hbehind, if_pos rfl]
    · have hrest : strip (if ls = [] then [] else unlines ls) = [] := by
        split
        · rfl
        · exact strip_eq_nil (rstrip_eq_nil.1 hwhite)
      have hown := strip_ownText_rstrip line
      rw [hrest, hbehind]
      cases hb : (rstrip line).any isBlank with
      | true =>
        have hblank : line.any isBlank = true := by
          obtain ⟨c, hc, hblank⟩ := List.any_eq_true.1 hb
          exact List.any_eq_true.2 ⟨c, (List.rdropWhile_prefix isspace line).subset hc, hblank⟩
        rw [hb, if_pos rfl] at hown
        rw [hblank, if_pos rfl, if_pos rfl, hown]
      | false =>
        rw [hb, if_neg Bool.false_ne_true] at hown
        rw [hown, if_neg Bool.false_ne_true, ite_self]
        rfl
  rw [hvalue] at hturn hstores
  rw [hword.fieldOf] at hstores
  exact ⟨token t, s', hturn, hword, hstores⟩

/-- The text with its backslashes turned, or as it is, is that of the lines. -/
theorem unlines_turned (f : Option Field) (ls : List (List UInt8)) :
    (if turns f = true then (unlines ls).map slash else unlines ls) =
      unlines (if turns f = true then ls.map (·.map slash) else ls) := by
  by_cases hf : turns f = true
  · rw [if_pos hf, if_pos hf, unlines_map_slash]
  · rw [if_neg hf, if_neg hf]

theorem rstrip_turned (f : Option Field) (ls : List (List UInt8)) :
    (if turns f = true then (rstrip (unlines ls)).map slash else rstrip (unlines ls)) =
      rstrip (unlines (if turns f = true then ls.map (·.map slash) else ls)) := by
  by_cases hf : turns f = true
  · rw [if_pos hf, if_pos hf, unlines_map_slash, rstrip_map_slash]
  · rw [if_neg hf, if_neg hf]

theorem length_turned (f : Option Field) (t : List UInt8) :
    (if turns f = true then t.map slash else t).length = t.length := by
  by_cases hf : turns f = true
  · rw [if_pos hf, List.length_map]
  · rw [if_neg hf]

section
variable {rest w : List UInt8} (ht : StrAt s.buf a (line ++ 0x0a :: rest)) (hline : 0x0a ∉ line)
  (hls : ls ≠ []) (hw : a + line.length + 1 + rest.length = s.buf.fileLen ∨
    StrAt s.buf (a + line.length + 1 + rest.length + 1) w) (hbehind : strip w = strip behind)
  (hcase : rest = unlines ls ∨ rest = rstrip (unlines ls) ∧
    a + line.length + 1 + rest.length ≠ s.buf.fileLen ∧ behind = [])
include ht hline hw hbehind hcase

/-- The first line has a blank, and is followed by another. -/
theorem turn_spec_blank (hb : line.any isBlank = true) :
    ∃ s', Turn szPath (s, some a) (token line, lineValue behind line ls)
        (s', some (a + line.length + 1)) ∧
      Stores szPath s s' (fieldOf (token line), lineValue behind line ls) ∧
      AtLines s'.buf (a + line.length + 1) (nextBehind behind line ls) (nextLines line ls) := by
  have hrest : StrAt s.buf (a + line.length + 1) rest :=
    (strAt_cons.1 (strAt_append.1 ht).2.2).2.2
  obtain ⟨s', hturn, hstores, hsize, hkeep⟩ := turn_line_blank szPath ht hline hb
  have hvalue : lineValue behind line ls = strip (ownText line) := if_pos hb
  rw [hvalue]
  refine ⟨s', hturn, hstores, ?_⟩
  rw [nextBehind, nextLines, if_neg (by simp [hb]), if_neg (by simp [hb])]
  refine ⟨rest, w, hkeep _ _ (Nat.lt_succ_self _) hrest, ?_, hbehind, ?_⟩
  · rw [hsize]
    exact hw.imp id fun h => hkeep _ _ (by omega) h
  · rw [hsize]
    exact hcase

include hls

/-- The first line has none, and takes its value from the text behind. -/
theorem turn_spec_not (hb : line.any isBlank = false) :
    ∃ s', Turn szPath (s, some a) (token line, lineValue behind line ls)
        (s', some (a + line.length + 1)) ∧
      Stores szPath s s' (fieldOf (token line), lineValue behind line ls) ∧
      AtLines s'.buf (a + line.length + 1) (nextBehind behind line ls) (nextLines line ls) := by
  obtain ⟨s', hturn, hstores, hsize, htext, hend, hkeep⟩ := turn_line_not szPath ht hline hb
  have hstrip : rstrip rest = rstrip (unlines ls) := by
    rcases hcase with rfl | ⟨rfl, -⟩
    · rfl
    · exact List.rdropWhile_idempotent isspace _
  have hvalue : lineValue behind line ls = strip rest := by
    rw [lineValue, hb, if_neg Bool.false_ne_true, if_neg hls, ← strip_rstrip, ← hstrip, strip_rstrip]
  rw [hvalue, nextBehind, nextLines, token_of_not hb]
  refine ⟨s', hturn, hstores, ?_⟩
  simp only [hb, true_and]
  -- the text that is left, and the lines it is made of
  have hleft := rstrip_turned (fieldOf line) ls
  rw [← hstrip] at hleft
  have hlength := length_turned (fieldOf line) (rstrip rest)
  have hbehind' : a + line.length + 1 + rest.length = s'.buf.fileLen ∨
      StrAt s'.buf (a + line.length + 1 + rest.length + 1) w := by
    rw [hsize]
    exact hw.imp id fun h => hkeep _ _ (by omega) h
  cases hspace : endsInSpace (unlines ls) with
  | true =>
    rw [if_pos rfl]
    rcases hcase with rfl | ⟨rfl, hne, rfl⟩
    · obtain ⟨w', hw', hwhite⟩ := hend hspace
      have hin := hw'.le
      refine ⟨_, w', htext, Or.inr (by rwa [hlength]), strip_eq_nil hwhite, Or.inr ⟨hleft, ?_, rfl⟩⟩
      rw [hlength]
      omega
    · rw [← hstrip] at hbehind' hne
      exact ⟨_, w, htext, by rwa [hlength], hbehind, Or.inr ⟨hleft, by rwa [hlength, hsize], rfl⟩⟩
  | false =>
    have hself : rstrip rest = rest := by
      rcases hcase with rfl | ⟨rfl, -⟩
      · exact rstrip_eq_self hspace
      · exact List.rdropWhile_idempotent isspace _
    rw [if_neg Bool.false_ne_true]
    refine ⟨_, w, htext, by rwa [hlength, hself], hbehind, Or.inl ?_⟩
    rw [hstrip, rstrip_eq_self hspace]
    exact unlines_turned (fieldOf line) ls

end

/-- The first line is followed by another. -/
theorem turn_spec_line {rest w : List UInt8} (ht : StrAt s.buf a (line ++ 0x0a :: rest))
    (hline : 0x0a ∉ line) (hls : ls ≠ [])
    (hw : a + (line ++ 0x0a :: rest).length = s.buf.fileLen ∨
      StrAt s.buf (a + (line ++ 0x0a :: rest).length + 1) w)
    (hbehind : strip w = strip behind)
    (hcase : rest = unlines ls ∨ rest = rstrip (unlines ls) ∧
      a + (line ++ 0x0a :: rest).length ≠ s.buf.fileLen ∧ behind = []) :
    ∃ s', Turn szPath (s, some a) (token line, lineValue behind line ls)
        (s', some (a + line.length + 1)) ∧
      Stores szPath s s' (fieldOf (token line), lineValue behind line ls) ∧
      AtLines s'.buf (a + line.length + 1) (nextBehind behind line ls) (nextLines line ls) := by
  have hlen : a + (line ++ 0x0a :: rest).length = a + line.length + 1 + rest.length := by
    rw [List.length_append, List.length_cons]
    omega
  rw [hlen] at hw hcase
  cases hb : line.any isBlank with
  | true => exact turn_spec_blank ht hline hw hbehind hcase hb
  | false => exact turn_spec_not ht hline hls hw hbehind hcase hb

/-- The turn that begins at `a` is over the first of these lines: it stores what the
line says, and leaves the others. -/
def TurnOver (szPath : Option (List UInt8)) (s : Parse) (a : Nat) (behind line : List UInt8)
    (ls : List (List UInt8)) : Prop :=
  ∃ param s' pos', SameWord param (token line) ∧
    Turn szPath (s, some a) (param, lineValue behind line ls) (s', pos') ∧
    Stores szPath s s' (fieldOf (token line), lineValue behind line ls) ∧
    Left s' pos' (nextBehind behind line ls) (nextLines line ls) ∧
    Next a line ls param pos'

theorem nextLines_newline (hlines : ∀ l ∈ line :: ls, 0x0a ∉ l) : ∀ l ∈ nextLines line ls, 0x0a ∉ l := by
  have hkeep : ∀ l ∈ ls, 0x0a ∉ l := fun l hl => hlines l (List.mem_cons_of_mem line hl)
  intro l hl
  rcases nextLines_mem hl with hl | ⟨l', hl', rfl⟩
  · exact hkeep l hl
  · intro hmem
    obtain ⟨c, hc, hslash⟩ := List.mem_map.1 hmem
    rw [(slash_keeps c).1] at hslash
    exact hkeep l' hl' (hslash ▸ hc)

/-- With no text behind the first line the loop ends. -/
theorem turnOver_last {t w : List UInt8} (hlines : ∀ l ∈ line :: ls, 0x0a ∉ l) (ht : StrAt s.buf a t)
    (hw : a + t.length = s.buf.fileLen ∨ StrAt s.buf (a + t.length + 1) w)
    (hbehind : strip w = strip behind) (hok : parseLoop szPath fuel s (some a) = .ok r)
    (hcase : t = line ∧ ls = [] ∨ t = rstrip line ∧ behind = [] ∧ rstrip (unlines ls) = []) :
    TurnOver szPath s a behind line ls := by
  have hline := hlines line List.mem_cons_self
  have hin : 0x0a ∉ t := by
    rcases hcase with ⟨rfl, -⟩ | ⟨rfl, -⟩
    · exact hline
    · exact fun hmem => hline ((List.rdropWhile_prefix isspace line).subset hmem)
  have hrest : ∀ c ∈ unlines ls, isspace c = true := by
    rcases hcase with ⟨-, rfl⟩ | ⟨-, -, h⟩
    · intro c hc
      cases hc
    · exact rstrip_eq_nil.1 h
  have hwhite : ∀ l ∈ ls, ∀ c ∈ l, isspace c = true := fun l hl c hc =>
    hrest c (subset_unlines hl c hc)
  obtain ⟨param, s', hturn, hword, hstores⟩ := turn_spec_last ht hin hw hbehind hok hcase
  refine ⟨param, s', none, hword, hturn, hstores, ⟨nextLines_newline hlines, ?_⟩, hwhite⟩
  rw [nextLines_white hwhite]
  exact lineDirectives_white hwhite

/-- Otherwise it goes on behind the newline. -/
theorem turnOver_next {rest w : List UInt8} (hlines : ∀ l ∈ line :: ls, 0x0a ∉ l)
    (ht : StrAt s.buf a (line ++ 0x0a :: rest)) (hls : ls ≠ [])
    (hw : a + (line ++ 0x0a :: rest).length = s.buf.fileLen ∨
      StrAt s.buf (a + (line ++ 0x0a :: rest).length + 1) w)
    (hbehind : strip w = strip behind)
    (hcase : rest = unlines ls ∨ rest = rstrip (unlines ls) ∧
      a + (line ++ 0x0a :: rest).length ≠ s.buf.fileLen ∧ behind = []) :
    TurnOver szPath s a behind line ls := by
  have hline := hlines line List.mem_cons_self
  obtain ⟨s', hturn, hstores, hat⟩ := turn_spec_line ht hline hls hw hbehind hcase
  refine ⟨_, s', _, .refl _, hturn, hstores, ⟨nextLines_newline hlines, ?_, hat⟩, rfl, rfl⟩
  intro hnil
  have hlength := length_nextLines line ls
  rw [hnil] at hlength
  exact hls (List.length_eq_zero_iff.1 hlength.symm)

/-- **One turn of the loop** is one line of the text: the next of the directives
is stored. -/
theorem turn_spec (hlines : ∀ l ∈ line :: ls, 0x0a ∉ l) (h : AtLines s.buf a behind (line :: ls))
    (hok : parseLoop szPath fuel s (some a) = .ok r) : TurnOver szPath s a behind line ls := by
  obtain ⟨t, w, ht, hw, hbehind, hcase⟩ := h
  by_cases hls : ls = []
  · apply turnOver_last hlines ht hw hbehind hok
    subst hls
    rw [show unlines [line] = line from List.intercalate_singleton] at hcase
    rcases hcase with h | ⟨h, -, hnil⟩
    · exact Or.inl ⟨h, rfl⟩
    · exact Or.inr ⟨h, hnil, rfl⟩
  rw [unlines_cons hls] at hcase
  rcases hcase with rfl | ⟨hcut, hne, hnil⟩
  · exact turnOver_next hlines ht hls hw hbehind (Or.inl rfl)
  by_cases hwhite : rstrip (unlines ls) = []
  · apply turnOver_last hlines ht hw hbehind hok
    refine Or.inr ⟨?_, hnil, hwhite⟩
    rw [hcut, rstrip_append_white]
    intro c hc
    rcases List.mem_cons.1 hc with rfl | hc
    · rfl
    · exact rstrip_eq_nil.1 hwhite c hc
  · have hnewline : rstrip (0x0a :: unlines ls) = 0x0a :: rstrip (unlines ls) :=
      rstrip_append_of_ne (t := [0x0a]) hwhite
    rw [rstrip_append_of_ne (by rw [hnewline]; simp), hnewline] at hcut
    subst hcut
    exact turnOver_next hlines ht hls hw hbehind (Or.inr ⟨rfl, hne, hnil⟩)

end

/-! ## The text in the buffer -/

/-- The lines that are parsed: those before the first NUL. -/
def textLines (contents : List UInt8) : List (List UInt8) := (cstr contents).splitOn 0x0a

/-- The string behind the first NUL. -/
def textBehind (contents : List UInt8) : List UInt8 :=
  cstr (contents.drop ((cstr contents).length + 1))

/-- All directives of a text. -/
def directives (contents : List UInt8) : List (Option Field × List UInt8) :=
  lineDirectives (textBehind contents) (textLines contents)

theorem newline_notMem_splitOn (t : List UInt8) : ∀ l ∈ t.splitOn 0x0a, 0x0a ∉ l := by
  induction t with
  | nil =>
    intro l hl
    rw [List.mem_singleton.1 hl]
    simp
  | cons c t ih =>
    rw [List.splitOn_cons_eq_if_modifyHead]
    split
    · intro l hl
      rcases List.mem_cons.1 hl with rfl | hl
      · simp
      · exact ih l hl
    · rename_i hc
      obtain ⟨line, ls, hls⟩ := List.exists_cons_of_ne_nil (List.splitOn_ne_nil (0x0a : UInt8) t)
      rw [hls] at ih ⊢
      intro l hl
      rcases List.mem_cons.1 hl with rfl | hl
      · rw [List.mem_cons, not_or]
        exact ⟨fun h => hc (by simp [← h]), ih line List.mem_cons_self⟩
      · exact ih l (List.mem_cons_of_mem line hl)

/-- Every part of the contents up to a NUL is a string in the buffer. -/
theorem loaded_strAt_drop (mem : Nat → UInt8) (contents : List UInt8) {i : Nat}
    (hi : i ≤ contents.length) : StrAt (loaded mem contents) i (cstr (contents.drop i)) := by
  induction hn : contents.length - i generalizing i with
  | zero =>
    obtain rfl : i = contents.length := by omega
    rw [List.drop_length]
    exact strAt_nil.2 ⟨Buffer.cut_self _ _, le_refl _⟩
  | succ n ih =>
    have hlt : i < contents.length := by omega
    have hbyte : (loaded mem contents).bytes i = contents[i] := by
      have h := Cells.getElem?_read (loaded mem contents).bytes 0 contents.length i hlt
      rw [loaded_read, List.getElem?_eq_getElem hlt, Nat.zero_add] at h
      exact (Option.some.inj h).symm
    rw [List.drop_eq_getElem_cons hlt, cstr, List.takeWhile_cons]
    by_cases h0 : contents[i] = 0
    · rw [if_neg (by simp [h0])]
      exact strAt_nil.2 ⟨hbyte.trans h0, hi⟩
    · rw [if_pos (by simp [h0])]
      exact strAt_cons.2 ⟨hbyte, h0, ih (by omega) (by omega)⟩

/-- The loop starts at the lines of the text. -/
theorem loaded_left (mem : Nat → UInt8) (contents : List UInt8) :
    Left ⟨loaded mem contents, [default], 0, none⟩ (some 0) (textBehind contents)
      (textLines contents) := by
  refine ⟨newline_notMem_splitOn _, List.splitOn_ne_nil _ _, cstr contents, textBehind contents,
    loaded_strAt_drop mem contents (Nat.zero_le _), ?_, rfl, Or.inl ?_⟩
  · have hle : (cstr contents).length ≤ contents.length := (List.takeWhile_sublist _).length_le
    rw [Nat.zero_add]
    rcases Nat.lt_or_eq_of_le hle with hlt | heq
    · exact Or.inr (loaded_strAt_drop mem contents hlt)
    · exact Or.inl heq
  · exact (List.intercalate_splitOn (0x0a : UInt8)).symm

end Gentoox.Config
