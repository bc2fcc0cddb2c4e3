import GentooxLoader.Config.Linked

/-!
# What the default points to (lib/misc/BootParser.c)

`defaultTitle` is a pointer to the value of the last default line.  In a line with a
blank that is the text behind it.  In a line without one it is all the text that
follows, into which the loop goes on to put its NULs: what is left is the first token
there, or the rest of its line if the blank that ends the token stands in front.

    turn_default       what a turn does to the pointer, and to the string it leads to
    turn_ranOn         what it does to a text that the value ran on into
    left_points        where the pointer leads after the loop
-/

namespace Gentoox.Config

open Lib

/-! ## The default line -/

/-- The keyword. -/
def defaultWord (param : List UInt8) : Bool :=
  (chars ['d', 'e', 'f', 'a', 'u', 'l', 't']).isPrefixOf param

/-- The lines as the loop meets them: a value that ran on has turned the
backslashes behind it. -/
def metLines : List (List UInt8) → List (List UInt8)
  | [] => []
  | line :: ls => line :: metLines (nextLines line ls)
termination_by ls => ls.length
decreasing_by
  rw [length_nextLines]
  exact Nat.lt_succ_self _

/-- The last default line. -/
def defaultLine (ls : List (List UInt8)) : Option (List UInt8) :=
  ((metLines ls).filter fun line => defaultWord (token line)).getLast?

/-- What the loop leaves of a line for a pointer past the white space in front. -/
def firstWord (line : List UInt8) : List UInt8 :=
  if (line.takeWhile isspace).any isBlank then strip line else token (line.dropWhile isspace)

/-- And of a text for a pointer past the white space in front, when the white space at
its end is cut off. -/
def ranOn (text : List UInt8) : List UInt8 :=
  match ((rstrip text).splitOn 0x0a).find? (!·.all isspace) with
  | some line => firstWord line
  | none => []

/-- What the pointer of a default line leads to after the loop, with these lines behind. -/
def pointed (behind line : List UInt8) (ls : List (List UInt8)) : List UInt8 :=
  if line.any isBlank then ownValue line else if ls = [] then strip behind else ranOn (unlines ls)

/-- That of the last default line. -/
def lastPointed (behind : List UInt8) : List (List UInt8) → Option (List UInt8)
  | [] => none
  | line :: ls =>
    (lastPointed (nextBehind behind line ls) (nextLines line ls)).or
      (if defaultWord (token line) then some (pointed behind line ls) else none)
termination_by ls => ls.length
decreasing_by
  rw [length_nextLines]
  exact Nat.lt_succ_self _

/-- The string that the titles are compared with. -/
def comparedTitle (contents : List UInt8) : List UInt8 :=
  (lastPointed (textBehind contents) (textLines contents)).getD []

/-! ## The first word -/

section
variable {l t : List UInt8}

theorem ranOn_rstrip (t : List UInt8) : ranOn (rstrip t) = ranOn t := by
  unfold ranOn
  rw [rstrip, rstrip, List.rdropWhile_idempotent]

theorem ranOn_nil (h : rstrip t = []) : ranOn t = [] := by
  unfold ranOn
  rw [h]
  rfl

/-- What is behind a line of a text that does not end in white space. -/
theorem rstrip_behind (h : rstrip (l ++ 0x0a :: t) = l ++ 0x0a :: t) : rstrip t = t ∧ t ≠ [] := by
  have hne : rstrip t ≠ [] := by
    intro hnil
    have hwhite : ∀ c ∈ 0x0a :: t, isspace c = true :=
      List.forall_mem_cons.2 ⟨rfl, rstrip_eq_nil.1 hnil⟩
    rw [rstrip_append_white hwhite] at h
    have hlen := congrArg List.length h
    have hle := (List.rdropWhile_prefix isspace l).length_le
    rw [List.length_append, List.length_cons] at hlen
    unfold rstrip at hlen
    omega
  have hline : l ++ 0x0a :: t = (l ++ [0x0a]) ++ t := by simp
  rw [hline, rstrip_append_of_ne hne] at h
  have hself := List.append_cancel_left h
  exact ⟨hself, hself ▸ hne⟩

/-- A white line is passed over. -/
theorem ranOn_white (hl : 0x0a ∉ l) (hw : ∀ c ∈ l, isspace c = true)
    (h : rstrip (l ++ 0x0a :: t) = l ++ 0x0a :: t) : ranOn (l ++ 0x0a :: t) = ranOn t := by
  have hall : (!l.all isspace) = false := by simpa using hw
  unfold ranOn
  rw [h, (rstrip_behind h).1, List.splitOn_append_cons_self_of_not_mem hl, List.find?_cons, hall]

/-- Another one is the first word's. -/
theorem ranOn_line (hl : 0x0a ∉ l) (hw : ¬ ∀ c ∈ l, isspace c = true) {text : List UInt8}
    (htext : text = l ∨ ∃ t, text = l ++ 0x0a :: t) (h : rstrip text = text) :
    ranOn text = firstWord l := by
  have hall : (!l.all isspace) = true := by simpa using hw
  unfold ranOn
  rw [h]
  rcases htext with rfl | ⟨t, rfl⟩
  · rw [List.splitOn_eq_singleton hl, List.find?_cons, hall]
  · rw [List.splitOn_append_cons_self_of_not_mem hl, List.find?_cons, hall]

/-- White space in front of a text is no part of what is stripped. -/
theorem strip_white_append {u r : List UInt8} (hu : ∀ c ∈ u, isspace c = true) :
    strip (u ++ r) = strip r := by
  by_cases hr : rstrip r = []
  · have hwhite := rstrip_eq_nil.1 hr
    rw [strip_append_white hwhite, strip_eq_nil hu, strip_eq_nil hwhite]
  · rw [strip, rstrip_append_of_ne hr, List.dropWhile_append_of_pos hu, strip]

theorem fieldOf_white {w : List UInt8} (h : ∀ c ∈ w, isspace c = true) : fieldOf w = none :=
  (List.nil_append w).symm ▸ fieldOf_append_white (u := []) h

theorem isspace_of_isBlank {c : UInt8} (h : isBlank c = true) : isspace c = true := by
  have hcase : c = 0x20 ∨ c = 0x09 := by simpa [isBlank] using h
  rcases hcase with rfl | rfl <;> rfl

/-- With a blank in the white space in front, all of the line is the first word. -/
theorem firstWord_blank {w r : List UInt8} {c : UInt8} (hw : ∀ c ∈ w, isspace c = true)
    (hc : isBlank c = true) :
    (w ++ c :: r).takeWhile isspace = w ++ c :: r.takeWhile isspace ∧
      firstWord (w ++ c :: r) = strip r := by
  have htake : (w ++ c :: r).takeWhile isspace = w ++ c :: r.takeWhile isspace := by
    rw [List.takeWhile_append_of_pos hw, List.takeWhile_cons_of_pos (isspace_of_isBlank hc)]
  refine ⟨htake, ?_⟩
  unfold firstWord
  rw [htake, if_pos (by simp [hc]), strip_white_append hw]
  exact strip_white_append (u := [c])
    (List.forall_mem_singleton.2 (isspace_of_isBlank hc))

theorem length_firstWord (l : List UInt8) :
    (l.takeWhile isspace).length + (firstWord l).length ≤ l.length := by
  unfold firstWord
  split
  · exact length_strip l
  · have hsum := congrArg List.length (List.takeWhile_append_dropWhile (p := isspace) (l := l))
    have hle : (token (l.dropWhile isspace)).length ≤ (l.dropWhile isspace).length :=
      (List.takeWhile_sublist _).length_le
    rw [List.length_append] at hsum
    omega

theorem takeWhile_of_not {u v : List UInt8} (h : ¬ ∀ c ∈ u, isspace c = true) :
    (u ++ v).takeWhile isspace = u.takeWhile isspace ∧
      (u ++ v).dropWhile isspace = u.dropWhile isspace ++ v := by
  have hlen : (u.takeWhile isspace).length ≠ u.length := fun hlen =>
    h (List.takeWhile_eq_self_iff.1 ((List.takeWhile_prefix isspace).eq_of_length hlen))
  have hdrop : u.dropWhile isspace ≠ [] := fun hnil => h (List.dropWhile_eq_nil_iff.1 hnil)
  refine ⟨?_, ?_⟩
  · rw [List.takeWhile_append, if_neg hlen]
  · rw [List.dropWhile_append, if_neg (by simpa using hdrop)]

/-- A token that is not white begins with the first word. -/
theorem firstWord_token (h : ¬ ∀ c ∈ token l, isspace c = true) :
    l.takeWhile isspace = (token l).takeWhile isspace ∧ firstWord l = (token l).dropWhile isspace := by
  have hl : token l ++ l.dropWhile (!isBlank ·) = l := List.takeWhile_append_dropWhile
  have hnone : (token l).any isBlank = false := by
    rw [← Bool.not_eq_true, List.any_eq_true]
    rintro ⟨c, hc, hblank⟩
    have hnot := List.mem_takeWhile_imp hc
    rw [hblank] at hnot
    cases hnot
  have hempty : token (l.dropWhile (!isBlank ·)) = [] := by
    have hhead := List.head?_dropWhile_not (!isBlank ·) l
    unfold token
    cases hdrop : l.dropWhile (!isBlank ·) with
    | nil => rfl
    | cons c r =>
      rw [hdrop] at hhead
      exact List.takeWhile_cons_of_neg (Bool.not_eq_true _ ▸ hhead)
  obtain ⟨htake, hdrop⟩ := takeWhile_of_not (v := l.dropWhile (!isBlank ·)) h
  rw [hl] at htake hdrop
  refine ⟨htake, ?_⟩
  unfold firstWord
  have hsub : ∀ u, List.Sublist u (token l) → u.any isBlank = false := by
    intro u hu
    rw [← Bool.not_eq_true, List.any_eq_true] at hnone ⊢
    rintro ⟨c, hc, hblank⟩
    exact hnone ⟨c, hu.subset hc, hblank⟩
  rw [htake, hsub _ (List.takeWhile_sublist _), if_neg Bool.false_ne_true, hdrop,
    (token_append_of_not (hsub _ (List.dropWhile_sublist _))).1, hempty, List.append_nil]

end

/-! ## The pointer -/

/-- No keyword but this one begins with its letter. -/
theorem not_defaultWord {c : UInt8} {kw p : List UInt8} (hne : c ≠ 0x64)
    (h : (c :: kw).isPrefixOf p = true) : defaultWord p = false := by
  cases p with
  | nil => rfl
  | cons e p =>
    rw [List.isPrefixOf_cons_cons, Bool.and_eq_true, beq_iff_eq] at h
    have hd : (0x64 == e) = false := by
      rw [← h.1]
      exact beq_eq_false_iff_ne.2 hne.symm
    show (0x64 == e && _) = false
    rw [hd]
    rfl

/-- A default directive sets the pointer, and no other does. -/
theorem directive_default {szPath : Option (List UInt8)} {s s' : Parse} {param paramdata : Nat}
    {p v : List UInt8} (hp : StrAt s.buf param p) (hv : StrAt s.buf paramdata v)
    (h : directive szPath s param paramdata = .ok s') :
    s'.defaultTitle = if defaultWord p then some paramdata else s.defaultTitle := by
  have hslash : StrAt ⟨s.buf.fileLen, Cells.write s.buf.bytes paramdata (v.map slash)⟩ paramdata
      (v.map slash) := hv.overwrite (List.length_map _) (zero_notMem_slash hv.nonzero)
  have hreplace : chrreplace s.buf paramdata 0x5c 0x2f =
      .ok ⟨s.buf.fileLen, Cells.write s.buf.bytes paramdata (v.map slash)⟩ := by
    unfold chrreplace
    rw [string_strAt hv]
    rfl
  simp only [directive, strncmpEq_strAt hp (chars ['t', 'i', 't', 'l', 'e']) (by decide),
    strncmpEq_strAt hp (chars ['k', 'e', 'r', 'n', 'e', 'l']) (by decide),
    strncmpEq_strAt hp (chars ['i', 'n', 'i', 't', 'r', 'd']) (by decide),
    strncmpEq_strAt hp (chars ['a', 'p', 'p', 'e', 'n', 'd']) (by decide),
    strncmpEq_strAt hp (chars ['d', 'e', 'f', 'a', 'u', 'l', 't']) (by decide),
    hreplace, string_strAt hv, bind, Except.bind, pure, Except.pure,
    strncmpEq_strAt hslash (chars ['n', 'o']) (by decide), string_strAt hslash] at h
  split_ifs at h with h1 h2 h3 hno h4 h5
  · obtain rfl := Except.ok.inj h
    rw [not_defaultWord (by decide) h1]
    exact (setTitle_keeps s v).2
  · obtain rfl := Except.ok.inj h
    rw [not_defaultWord (by decide) h2]
    rfl
  · obtain rfl := Except.ok.inj h
    rw [not_defaultWord (by decide) h3]
    rfl
  · obtain rfl := Except.ok.inj h
    rw [not_defaultWord (by decide) h3]
    rfl
  · obtain rfl := Except.ok.inj h
    rw [not_defaultWord (by decide) h4]
    rfl
  · obtain rfl := Except.ok.inj h
    rw [show defaultWord p = true from h5]
    rfl
  · obtain rfl := Except.ok.inj h
    rw [show defaultWord p = false from Bool.not_eq_true _ ▸ h5]
    rfl

theorem fieldOf_default {p : List UInt8} (h : defaultWord p = true) : fieldOf p = none := by
  cases p with
  | nil => rfl
  | cons c p =>
    have hc : 0x64 = c := beq_iff_eq.1 (Bool.and_eq_true_iff.1 h).1
    rw [← hc]
    rfl

/-- What the loop does to the buffer from `a` on: before it nothing changes, and
what is NUL stays NUL. -/
structure Behind (a : Nat) (b b' : Buffer) : Prop where
  size : b'.fileLen = b.fileLen
  before : ∀ i < a, b'.bytes i = b.bytes i
  zeros : ∀ i, b.bytes i = 0 → b'.bytes i = 0

section
variable {a i : Nat} {b b' b'' : Buffer} {t v : List UInt8}

theorem Behind.refl (a : Nat) (b : Buffer) : Behind a b b := ⟨rfl, fun _ _ => rfl, fun _ h => h⟩

theorem Behind.trans (h : Behind a b b') (h' : Behind a b' b'') : Behind a b b'' :=
  ⟨h'.size.trans h.size, fun i hi => (h'.before i hi).trans (h.before i hi),
    fun i hi => h'.zeros i (h.zeros i hi)⟩

theorem behind_cut (b : Buffer) (hi : a ≤ i) : Behind a b (b.cut i) :=
  ⟨rfl, fun j hj => b.cut_of_ne (by omega), fun _ h => b.cut_of_zero h⟩

theorem behind_slashed (f : Option Field) (hv : StrAt b i v) (hi : a ≤ i) :
    Behind a b (slashed f b i v) := by
  unfold slashed
  split
  swap
  · exact .refl a b
  refine ⟨rfl, fun j hj => Cells.write_of_lt _ _ _ _ (by omega), fun j hj => ?_⟩
  show Cells.write b.bytes i (v.map slash) j = 0
  rw [Cells.write_of_outside _ _ _ _ ?_, hj]
  rw [List.length_map]
  by_contra hin
  obtain ⟨k, rfl⟩ : ∃ k, j = i + k := ⟨j - i, by omega⟩
  rw [hv.getElem k (by omega)] at hj
  exact hv.nonzero (hj ▸ List.getElem_mem _)

/-- A string in front is not touched. -/
theorem Behind.strAt (h : Behind a b b') (ht : StrAt b i t) (hi : i + t.length < a) :
    StrAt b' i t := by
  refine ⟨?_, (h.before _ hi).trans ht.nul, ht.nonzero, by rw [h.size]; exact ht.inside⟩
  rw [Cells.read_congr fun j _ hj => h.before j (by omega)]
  exact ht.chars

/-- The tokens of the line `t`: with a blank in it the value ends with the line, and with
none the white space at the end of what follows is cut off. -/
theorem tokens_behind {param paramdata : Nat} (ht : StrAt b a t) (hnul : b.bytes b.fileLen = 0)
    (h : tokens b a = .ok (param, paramdata, b')) :
    a = param ∧ StrAt b' a (token t) ∧ a + (token t).length < paramdata ∧ Behind a b b' ∧
      ∃ v, StrAt b' paramdata v ∧ (t.any isBlank = true → paramdata + v.length ≤ a + t.length) ∧
        (t.any isBlank = false → ∃ text, rstrip text = text ∧ StrAt b' (a + t.length + 1) text ∧
          (text ≠ [] → paramdata = a + t.length + 1 + (text.takeWhile isspace).length)) := by
  cases hb : t.any isBlank with
  | true =>
    obtain ⟨w, c, r, rfl, hw, hc⟩ := exists_split hb
    rw [tokens_blank ht hw hc] at h
    obtain ⟨rfl, rfl, rfl⟩ : a = param ∧ _ = paramdata ∧ _ = b' := by
      simpa only [Except.ok.injEq, Prod.mk.injEq] using h
    have hlen := length_strip r
    have hsum : (w ++ c :: r).length = w.length + 1 + r.length := by simp; omega
    rw [(token_split hw hc).1]
    refine ⟨rfl, ht.cut_left.cut (Or.inr (by omega)), by omega, ?_, strip r,
      value_strAt ht.cut_right, fun _ => by omega, fun hnot => absurd hnot (by decide)⟩
    exact (behind_cut b (Nat.le_add_right _ _)).trans (behind_cut _ (by omega))
  | false =>
    have hne : a + t.length ≠ b.fileLen := by
      intro hend
      rw [tokens_outside ht hb hend] at h
      cases h
    have hin := ht.inside
    obtain ⟨r, hr⟩ := exists_strAt b (b.fileLen - (a + t.length + 1)) (a + t.length + 1) (by omega) hnul
    rw [tokens_no_blank ht hb hr] at h
    obtain ⟨rfl, rfl, rfl⟩ : a = param ∧ _ = paramdata ∧ _ = b' := by
      simpa only [Except.ok.injEq, Prod.mk.injEq] using h
    rw [token_of_not hb]
    refine ⟨rfl, ht.cut (Or.inr (by omega)), by omega, behind_cut b (by omega), strip r,
      value_strAt hr, by rintro ⟨⟩, fun _ => ⟨rstrip r, List.rdropWhile_idempotent isspace r, ?_, ?_⟩⟩
    · have hsplit := rstrip_append r
      rw [← hsplit] at hr
      exact hr.cut_left
    · intro hne
      rw [← takeWhile_rstrip hne]

end

section
variable {szPath : Option (List UInt8)} {s s' r : Parse} {a : Nat} {pos' : Option Nat}
  {t : List UInt8 × List UInt8}

/-- The line that begins at `a`. -/
theorem strsep_behind {b buf : Buffer} {linePtr : Nat} (ha : a ≤ b.fileLen)
    (hnul : b.bytes b.fileLen = 0)
    (h : strsep b (some a) [0x0a] = .ok (some linePtr, pos', buf)) :
    ∃ line, a = linePtr ∧ StrAt buf a line ∧ Behind a b buf ∧
      ∀ a', pos' = some a' → a' = a + line.length + 1 := by
  obtain ⟨text, htext⟩ := exists_strAt b (b.fileLen - a) a (by omega) hnul
  cases hnl : text.any (· == 0x0a) with
  | true =>
    obtain ⟨line, c, rest, rfl, hline, hc⟩ := exists_split hnl
    obtain rfl : c = 0x0a := by simpa using hc
    have hmem : ∀ c ∈ line, c ∉ [(0x0a : UInt8)] := by simpa using hline
    rw [strsep_some htext hmem (by simp)] at h
    obtain ⟨rfl, rfl, rfl⟩ : a = linePtr ∧ _ = pos' ∧ _ = buf := by
      simpa only [Except.ok.injEq, Prod.mk.injEq, Option.some.injEq] using h
    exact ⟨line, rfl, htext.cut_left, behind_cut _ (Nat.le_add_right _ _), by rintro a' ⟨⟩; rfl⟩
  | false =>
    have hmem : ∀ c ∈ text, c ∉ [(0x0a : UInt8)] := by simpa using hnl
    rw [strsep_none htext hmem] at h
    obtain ⟨rfl, rfl, rfl⟩ : a = linePtr ∧ none = pos' ∧ _ = buf := by
      simpa only [Except.ok.injEq, Prod.mk.injEq, Option.some.injEq] using h
    exact ⟨text, rfl, htext, .refl a _, by rintro a' ⟨⟩⟩

/-- **One turn** sets the pointer in a default line, and changes nothing in front
of its line. -/
theorem turn_default (hturn : Turn szPath (s, some a) t (s', pos')) (ha : a ≤ s.buf.fileLen)
    (hnul : s.buf.bytes s.buf.fileLen = 0) :
    Behind a s.buf s'.buf ∧ ∃ p, s'.defaultTitle = (if defaultWord t.1 then some p else s.defaultTitle) ∧
      (defaultWord t.1 = true → StrAt s'.buf p t.2) ∧
      ∀ a', pos' = some a' → (a + t.1.length + 1 < a' → p + t.2.length < a') ∧
        (defaultWord t.1 = true → a' = a + t.1.length + 1 → ∃ text, rstrip text = text ∧
          StrAt s'.buf a' text ∧ (text ≠ [] → p = a' + (text.takeWhile isspace).length)) := by
  obtain ⟨linePtr, buf, param, paramdata, buf', h1, h2, h3, h4, h5⟩ := hturn
  obtain ⟨line, rfl, hline, hbuf, hnext⟩ := strsep_behind ha hnul h1
  have hend : buf.bytes buf.fileLen = 0 := by
    rw [hbuf.size]
    exact hbuf.zeros _ hnul
  obtain ⟨rfl, htoken, hle, hbuf', v, hv, hvalue, htext⟩ := tokens_behind hline hend h2
  obtain ⟨word, value⟩ := t
  obtain rfl : token line = word := Except.ok.inj ((string_strAt htoken).symm.trans h3)
  obtain rfl : v = value := Except.ok.inj ((string_strAt hv).symm.trans h4)
  obtain ⟨s'', hs'', -, -, hslashed⟩ := directive_store (s := { s with buf := buf' }) htoken hv szPath
  obtain rfl := Except.ok.inj (hs''.symm.trans h5)
  have hsame : defaultWord (token line) = true → s''.buf = buf' := by
    intro hd
    rw [hslashed, slashed, fieldOf_default hd]
    rfl
  refine ⟨?_, paramdata, directive_default (s := { s with buf := buf' }) htoken hv h5, fun hd => ?_,
    fun a' ha' => ?_⟩
  · rw [hslashed]
    exact (hbuf.trans hbuf').trans (behind_slashed _ hv (by omega))
  · rw [hsame hd]
    exact hv
  · obtain rfl := hnext a' ha'
    refine ⟨fun hlong => ?_, fun hd hshort => ?_⟩
    · have hblank : line.any isBlank = true := by
        rw [← Bool.not_eq_false]
        intro hb
        have hequal : a + (token line).length + 1 < a + line.length + 1 := hlong
        rw [token_of_not hb] at hequal
        exact absurd hequal (Nat.lt_irrefl _)
      exact Nat.lt_succ_of_le (hvalue hblank)
    · have hnot : line.any isBlank = false := by
        rw [← Bool.not_eq_true]
        intro hb
        obtain ⟨w, c, r, rfl, hw, hc⟩ := exists_split hb
        have hequal : a + (w ++ c :: r).length + 1 = a + (token (w ++ c :: r)).length + 1 := hshort
        rw [(token_split hw hc).1, List.length_append, List.length_cons] at hequal
        omega
      rw [hsame hd]
      exact htext hnot

/-- What the tokens of a line that is not white leave for a pointer past the white space
in front. -/
theorem tokens_word {b b' : Buffer} {l : List UInt8} {param paramdata : Nat} (hl : StrAt b a l)
    (hnul : b.bytes b.fileLen = 0) (hw : ¬ ∀ c ∈ l, isspace c = true)
    (h : tokens b a = .ok (param, paramdata, b')) :
    ∃ v, StrAt b' paramdata v ∧ StrAt (slashed (fieldOf (token l)) b' paramdata v)
      (a + (l.takeWhile isspace).length) (firstWord l) := by
  by_cases hword : ∀ c ∈ token l, isspace c = true
  · -- the blank that ends the token is in front of the word
    have hb : l.any isBlank = true := by
      rw [← Bool.not_eq_false]
      intro hb
      rw [token_of_not hb] at hword
      exact hw hword
    obtain ⟨w, c, r, rfl, hnone, hc⟩ := exists_split hb
    rw [(token_split hnone hc).1] at hword ⊢
    rw [tokens_blank hl hnone hc] at h
    obtain ⟨-, rfl, rfl⟩ : a = param ∧ _ = paramdata ∧ _ = b' := by
      simpa only [Except.ok.injEq, Prod.mk.injEq] using h
    obtain ⟨htake, hfirst⟩ := firstWord_blank (r := r) hword hc
    have hplace : a + (w ++ c :: r.takeWhile isspace).length =
        a + w.length + 1 + (r.takeWhile isspace).length := by
      rw [List.length_append, List.length_cons]
      omega
    refine ⟨strip r, value_strAt hl.cut_right, ?_⟩
    rw [fieldOf_white hword, hfirst, htake, hplace]
    exact value_strAt hl.cut_right
  · obtain ⟨rfl, htoken, hlt, -, v, hv, -⟩ := tokens_behind hl hnul h
    obtain ⟨htake, hfirst⟩ := firstWord_token hword
    refine ⟨v, hv, ?_⟩
    rw [htake, hfirst]
    have hsum := congrArg List.length
      (List.takeWhile_append_dropWhile (p := isspace) (l := token l))
    rw [List.length_append] at hsum
    rw [← List.takeWhile_append_dropWhile (p := isspace) (l := token l)] at htoken
    exact (behind_slashed (a := paramdata) _ hv (Nat.le_refl _)).strAt (strAt_append.1 htoken).2.2
      (by omega)

/-- The turn over the first line of a text, when it is not white. -/
theorem turn_word {text l : List UInt8} {buf : Buffer} (hturn : Turn szPath (s, some a) t (s', pos'))
    (hstrip : rstrip text = text) (hl : 0x0a ∉ l) (hw : ¬ ∀ c ∈ l, isspace c = true)
    (htext : text = l ∨ ∃ rest, text = l ++ 0x0a :: rest) (hbuf : StrAt buf a l)
    (hnul : buf.bytes buf.fileLen = 0) {next : Option Nat}
    (hsep : strsep s.buf (some a) [0x0a] = .ok (some a, next, buf))
    (hnext : ∀ a', next = some a' → a' = a + l.length + 1) :
    StrAt s'.buf (a + (text.takeWhile isspace).length) (ranOn text) ∧
      ∀ a', pos' = some a' → a + (text.takeWhile isspace).length + (ranOn text).length < a' := by
  obtain ⟨linePtr, buf2, param, paramdata, buf', h1, h2, h3, h4, h5⟩ := hturn
  obtain ⟨rfl, rfl, rfl⟩ : a = linePtr ∧ next = pos' ∧ buf = buf2 := by
    simpa only [Except.ok.injEq, Prod.mk.injEq, Option.some.injEq] using hsep.symm.trans h1
  obtain ⟨v, hv, hat⟩ := tokens_word hbuf hnul hw h2
  obtain ⟨rfl, htoken, -, -⟩ := tokens_behind hbuf hnul h2
  obtain ⟨s'', hs'', -, -, hslashed⟩ :=
    directive_store (s := { s with buf := buf' }) htoken hv szPath
  obtain rfl := Except.ok.inj (hs''.symm.trans h5)
  have htake : text.takeWhile isspace = l.takeWhile isspace := by
    rcases htext with rfl | ⟨rest, rfl⟩
    · rfl
    · exact (takeWhile_of_not hw).1
  have hlen := length_firstWord l
  rw [ranOn_line hl hw htext hstrip, htake, hslashed]
  refine ⟨hat, fun a' ha' => ?_⟩
  rw [hnext a' ha']
  omega

/-- The turn over a white line: the text is what is behind it. -/
theorem turn_white {l rest : List UInt8} (htext : StrAt s.buf a (l ++ 0x0a :: rest)) (hl : 0x0a ∉ l)
    (hw : ∀ c ∈ l, isspace c = true) (hrest : rstrip rest = rest)
    (hturn : Turn szPath (s, some a) t (s', pos')) :
    pos' = some (a + l.length + 1) ∧ StrAt s'.buf (a + l.length + 1) rest := by
  cases hb : l.any isBlank with
  | true =>
    obtain ⟨u, hu, -, -, hkeep⟩ := turn_line_blank szPath htext hl hb
    obtain ⟨-, hsame⟩ := hturn.unique hu
    obtain ⟨rfl, rfl⟩ := Prod.mk.inj hsame
    refine ⟨rfl, hkeep _ _ (Nat.lt_succ_self _) ?_⟩
    exact (strAt_cons.1 (strAt_append.1 htext).2.2).2.2
  | false =>
    obtain ⟨u, hu, -, -, hat, -⟩ := turn_line_not szPath htext hl hb
    obtain ⟨-, hsame⟩ := hturn.unique hu
    obtain ⟨rfl, rfl⟩ := Prod.mk.inj hsame
    rw [fieldOf_white hw, hrest] at hat
    exact ⟨rfl, hat⟩

/-- **One turn over a text that the value ran on into**: the white line in front is gone,
or the string the pointer leads to is what it stays. -/
theorem turn_ranOn {text : List UInt8} (htext : StrAt s.buf a text) (hstrip : rstrip text = text)
    (hne : text ≠ []) (hnul : s.buf.bytes s.buf.fileLen = 0)
    (hturn : Turn szPath (s, some a) t (s', pos')) :
    (∃ l rest, text = l ++ 0x0a :: rest ∧ 0x0a ∉ l ∧ (∀ c ∈ l, isspace c = true) ∧
        pos' = some (a + l.length + 1) ∧ StrAt s'.buf (a + l.length + 1) rest) ∨
      StrAt s'.buf (a + (text.takeWhile isspace).length) (ranOn text) ∧
        ∀ a', pos' = some a' → a + (text.takeWhile isspace).length + (ranOn text).length < a' := by
  cases hnl : text.any (· == 0x0a) with
  | true =>
    obtain ⟨l, c, rest, rfl, hl, hc⟩ := exists_split hnl
    obtain rfl : c = 0x0a := by simpa using hc
    have hmem : 0x0a ∉ l := fun h => absurd (List.any_eq_false.1 hl _ h) (by decide)
    by_cases hw : ∀ c ∈ l, isspace c = true
    · left
      exact ⟨l, rest, rfl, hmem, hw, turn_white htext hmem hw (rstrip_behind hstrip).1 hturn⟩
    · right
      have hsep := strsep_some htext (not_newline hmem) (show (0x0a : UInt8) ∈ [0x0a] by simp)
      exact turn_word hturn hstrip hmem hw (Or.inr ⟨rest, rfl⟩) htext.cut_left
        (Buffer.cut_of_zero _ hnul) hsep fun a' ha' => (Option.some.inj ha').symm
  | false =>
    right
    have hmem : 0x0a ∉ text := fun h => absurd (List.any_eq_false.1 hnl _ h) (by decide)
    have hw : ¬ ∀ c ∈ text, isspace c = true := fun hw => hne (hstrip ▸ rstrip_eq_nil.2 hw)
    exact turn_word hturn hstrip hmem hw (Or.inl rfl) htext hnul
      (strsep_none htext (not_newline hmem)) (by rintro a' ⟨⟩)

end

/-! ## The loop -/

/-- Where the pointer `p` leads when the loop is at `pos`, and what it will lead to at the
end: a string in front that has been read, nothing, or the text that is still to be read. -/
inductive Leads (s : Parse) (pos : Option Nat) (p : Nat) (c : List UInt8) : Prop
  | read (h : StrAt s.buf p c) (hpos : ∀ a, pos = some a → p + c.length < a)
  | empty (h : StrAt s.buf p []) (hc : c = [])
  | ahead {a : Nat} {text : List UInt8} (hpos : pos = some a) (h : StrAt s.buf a text)
      (hstrip : rstrip text = text) (hne : text ≠ [])
      (hp : p = a + (text.takeWhile isspace).length) (hc : c = ranOn text)

/-- The pointer when `last` is what that of the last default line so far leads to. -/
structure Points (s : Parse) (pos : Option Nat) (last : Option (List UInt8)) : Prop where
  nul : s.buf.bytes s.buf.fileLen = 0
  unset : last = none → s.defaultTitle = none
  set : ∀ c, last = some c → ∃ p, s.defaultTitle = some p ∧ Leads s pos p c

theorem defaultWord_congr {p w : List UInt8} (h : SameWord p w) : defaultWord p = defaultWord w := by
  obtain ⟨v, hv, rfl⟩ := h
  exact (isPrefixOf_append_white (by decide) hv).symm

theorem defaultWord_white {l : List UInt8} (h : ∀ c ∈ l, isspace c = true) :
    defaultWord (token l) = false := by
  rw [← defaultWord_congr ⟨token l, fun c hc => h c ((List.takeWhile_sublist _).subset hc),
    (List.nil_append _).symm⟩]
  rfl

theorem defaultLine_cons (line : List UInt8) (ls : List (List UInt8)) (last : Option (List UInt8)) :
    (defaultLine (line :: ls)).or last =
      (defaultLine (nextLines line ls)).or (if defaultWord (token line) then some line else last) := by
  unfold defaultLine
  rw [metLines, List.filter_cons]
  cases defaultWord (token line) with
  | false => rfl
  | true =>
    rw [if_pos rfl, if_pos rfl, List.getLast?_cons]
    cases ((metLines (nextLines line ls)).filter fun line => defaultWord (token line)).getLast? <;> rfl

theorem lastPointed_cons (behind line : List UInt8) (ls : List (List UInt8))
    (last : Option (List UInt8)) :
    (lastPointed behind (line :: ls)).or last =
      (lastPointed (nextBehind behind line ls) (nextLines line ls)).or
        (if defaultWord (token line) then some (pointed behind line ls) else last) := by
  rw [lastPointed, Option.or_assoc]
  cases defaultWord (token line) <;> rfl

/-- White lines are no default lines. -/
theorem lastPointed_white {behind : List UInt8} {ls : List (List UInt8)}
    (h : ∀ l ∈ ls, ∀ c ∈ l, isspace c = true) : lastPointed behind ls = none := by
  induction ls generalizing behind with
  | nil => rw [lastPointed]
  | cons line ls ih =>
    obtain ⟨hline, hls⟩ := List.forall_mem_cons.1 h
    rw [lastPointed, nextLines_white hls, ih hls, defaultWord_white hline]
    rfl

theorem unlines_white {ls : List (List UInt8)} (h : ∀ l ∈ ls, ∀ c ∈ l, isspace c = true) :
    ∀ c ∈ unlines ls, isspace c = true := by
  induction ls with
  | nil => simp [unlines]
  | cons l ls ih =>
    obtain ⟨hl, hls⟩ := List.forall_mem_cons.1 h
    by_cases hnil : ls = []
    · rw [hnil, show unlines [l] = l from List.intercalate_singleton]
      exact hl
    · rw [unlines_cons hnil]
      intro c hc
      rcases List.mem_append.1 hc with hc | hc
      · exact hl c hc
      · rcases List.mem_cons.1 hc with rfl | hc
        · rfl
        · exact ih hls c hc

theorem lastPointed_of_none {behind : List UInt8} {ls : List (List UInt8)}
    (h : defaultLine ls = none) : lastPointed behind ls = none := by
  induction hn : ls.length generalizing behind ls with
  | zero => rw [List.length_eq_zero_iff.1 hn, lastPointed]
  | succ n ih =>
    obtain ⟨l, ls, rfl⟩ := List.exists_cons_of_length_eq_add_one hn
    have hcons := defaultLine_cons l ls none
    rw [Option.or_none, h, eq_comm, Option.or_eq_none_iff] at hcons
    rw [lastPointed, ih hcons.1 (by simpa [length_nextLines] using hn)]
    cases hd : defaultWord (token l) with
    | false => rfl
    | true =>
      rw [hd] at hcons
      cases hcons.2

/-- The pointer of a default line with a blank leads to its value. -/
theorem lastPointed_of_defaultLine {behind line : List UInt8} {ls : List (List UInt8)}
    (h : defaultLine ls = some line) :
    ∃ c, lastPointed behind ls = some c ∧ (line.any isBlank = true → c = ownValue line) := by
  induction hn : ls.length generalizing behind ls with
  | zero =>
    rw [List.length_eq_zero_iff.1 hn, defaultLine, metLines] at h
    cases h
  | succ n ih =>
    obtain ⟨l, ls, rfl⟩ := List.exists_cons_of_length_eq_add_one hn
    have hcons := defaultLine_cons l ls none
    have hcons' := lastPointed_cons behind l ls none
    rw [Option.or_none, h] at hcons
    rw [Option.or_none] at hcons'
    cases hrest : defaultLine (nextLines l ls) with
    | some line' =>
      rw [hrest] at hcons
      obtain rfl : line = line' := Option.some.inj hcons
      obtain ⟨c, hc, hown⟩ := @ih (nextBehind behind l ls) _ hrest (by simpa [length_nextLines] using hn)
      refine ⟨c, ?_, hown⟩
      rw [hcons', hc]
      rfl
    | none =>
      rw [hrest, Option.none_or] at hcons
      cases hd : defaultWord (token l) with
      | false =>
        rw [hd] at hcons
        cases hcons
      | true =>
        rw [hd] at hcons
        obtain rfl : line = l := Option.some.inj hcons
        rw [lastPointed_of_none hrest, Option.none_or, hd] at hcons'
        refine ⟨_, hcons', fun hblank => if_pos hblank⟩

section
variable {szPath : Option (List UInt8)} {s s' r : Parse} {a p : Nat} {pos' : Option Nat}
  {last : Option (List UInt8)} {line param c behind : List UInt8} {ls : List (List UInt8)}

theorem StrAt.unique {b : Buffer} {t u : List UInt8} (h : StrAt b a t) (h' : StrAt b a u) : t = u :=
  Except.ok.inj ((string_strAt h).symm.trans (string_strAt h'))

/-- A turn keeps what the pointer will lead to. -/
theorem Leads.step {t : List UInt8 × List UInt8} (h : Leads s (some a) p c)
    (hnul : s.buf.bytes s.buf.fileLen = 0) (hturn : Turn szPath (s, some a) t (s', pos'))
    (hbehind : Behind a s.buf s'.buf) (hafter : ∀ a', pos' = some a' → a < a') : Leads s' pos' p c := by
  cases h with
  | read h hpos =>
    have hlt := hpos a rfl
    exact .read (hbehind.strAt h hlt) fun a' ha' => hlt.trans (hafter a' ha')
  | empty h hc =>
    obtain ⟨h0, hin⟩ := strAt_nil.1 h
    exact .empty (strAt_nil.2 ⟨hbehind.zeros p h0, by rw [hbehind.size]; exact hin⟩) hc
  | ahead hpos h hstrip hne hp hc =>
    obtain rfl := Option.some.inj hpos
    subst hp hc
    rcases turn_ranOn h hstrip hne hnul hturn with ⟨l, rest, rfl, hl, hw, hpos', hrest⟩ | ⟨hat, hend⟩
    · obtain ⟨hself, hne'⟩ := rstrip_behind hstrip
      refine .ahead hpos' hrest hself hne' ?_ (ranOn_white hl hw hstrip)
      rw [List.takeWhile_append_of_pos hw, List.takeWhile_cons_of_pos rfl, List.length_append,
        List.length_cons]
      omega
    · exact .read hat hend

/-- The pointer of a default line without a blank. -/
theorem leads_ranOn {a' : Nat} {text : List UInt8} (hb : line.any isBlank = false)
    (hd : defaultWord (token line) = true)
    (hleft : Left s' (some a') (nextBehind behind line ls) (nextLines line ls))
    (hstring : StrAt s'.buf p (lineValue behind line ls)) (hstrip : rstrip text = text)
    (htext : StrAt s'.buf a' text) (hp : text ≠ [] → p = a' + (text.takeWhile isspace).length) :
    Leads s' (some a') p (pointed behind line ls) := by
  have hlines : nextLines line ls = ls := by
    rw [nextLines, fieldOf_default hd]
    exact if_neg (by rintro ⟨-, ⟨⟩⟩)
  rw [hlines] at hleft
  obtain ⟨-, hls, t, w, ht, -, -, hcase⟩ := hleft
  obtain rfl := htext.unique ht
  have hsame : rstrip (unlines ls) = text := by
    rcases hcase with rfl | ⟨rfl, -⟩
    · exact hstrip
    · rfl
  have hran : pointed behind line ls = ranOn text := by
    rw [pointed, hb, if_neg Bool.false_ne_true, if_neg hls, ← hsame, ranOn_rstrip]
  rw [hran]
  by_cases hne : text = []
  · have hvalue : lineValue behind line ls = [] := by
      rw [lineValue, hb, if_neg Bool.false_ne_true, if_neg hls, strip, hsame, hne, List.dropWhile_nil]
    rw [hvalue] at hstring
    refine .empty hstring ?_
    rw [hne]
    rfl
  · exact .ahead rfl htext hstrip hne (hp hne) rfl

/-- One turn. -/
theorem Points.step (h : Points s (some a) last) (ha : a ≤ s.buf.fileLen)
    (hturn : Turn szPath (s, some a) (param, lineValue behind line ls) (s', pos'))
    (hword : SameWord param (token line)) (hnext : Next a line ls param pos')
    (hleft : Left s' pos' (nextBehind behind line ls) (nextLines line ls)) :
    Points s' pos' (if defaultWord (token line) then some (pointed behind line ls) else last) := by
  obtain ⟨hbehind, p, hpointer, hstring, hends⟩ := turn_default hturn ha h.nul
  have hword' : defaultWord param = defaultWord (token line) := defaultWord_congr hword
  simp only [hword'] at hpointer hstring hends
  have hnul : s'.buf.bytes s'.buf.fileLen = 0 := by
    rw [hbehind.size]
    exact hbehind.zeros _ h.nul
  cases hd : defaultWord (token line) with
  | true =>
    -- a default line
    rw [hd] at hpointer hstring hends
    refine ⟨hnul, by rintro ⟨⟩, ?_⟩
    rintro _ ⟨⟩
    refine ⟨p, hpointer, ?_⟩
    cases hb : line.any isBlank with
    | true =>
      have hvalue : lineValue behind line ls = pointed behind line ls := by
        rw [pointed, hb, if_pos rfl]
        exact (lineValue_own_iff behind line ls).2 (Or.inl hb)
      rw [← hvalue]
      refine .read (hstring rfl) fun a' ha' => (hends a' ha').1 ?_
      rw [ha'] at hnext
      obtain ⟨rfl, rfl⟩ := hnext
      obtain ⟨w, c, rest, rfl, hw, hc⟩ := exists_split hb
      show a + (token (w ++ c :: rest)).length + 1 < _
      rw [(token_split hw hc).1, List.length_append, List.length_cons]
      omega
    | false =>
      cases pos' with
      | none =>
        have hvalue : lineValue behind line ls = pointed behind line ls := by
          rw [lineValue, pointed, hb, if_neg Bool.false_ne_true, if_neg Bool.false_ne_true]
          by_cases hls : ls = []
          · rw [if_pos hls, if_pos hls]
          · have hwhite : ∀ c ∈ unlines ls, isspace c = true := unlines_white hnext
            rw [if_neg hls, if_neg hls, strip_eq_nil hwhite, ranOn_nil (rstrip_eq_nil.2 hwhite)]
        rw [← hvalue]
        exact .read (hstring rfl) (by rintro a' ⟨⟩)
      | some a' =>
        obtain ⟨rfl, rfl⟩ := hnext
        have hplace : a + line.length + 1 = a + (token line).length + 1 := by rw [token_of_not hb]
        obtain ⟨text, hstrip, htext, hp⟩ := (hends _ rfl).2 rfl hplace
        exact leads_ranOn hb hd hleft (hstring rfl) hstrip htext hp
  | false =>
    -- another line leaves the pointer
    rw [hd] at hpointer
    refine ⟨hnul, fun hnone => hpointer.trans (h.unset hnone), fun c hc => ?_⟩
    obtain ⟨q, hq, hleads⟩ := h.set c hc
    refine ⟨q, hpointer.trans hq, hleads.step h.nul hturn hbehind fun a' ha' => ?_⟩
    rw [ha'] at hnext
    obtain ⟨rfl, -⟩ := hnext
    omega

/-- **The lines that are left**: where the pointer leads after them. -/
theorem left_points {pos : Option Nat} {fuel : Nat} (hleft : Left s pos behind ls)
    (hwhite : pos = none → ∀ l ∈ ls, ∀ c ∈ l, isspace c = true) (h : Points s pos last)
    (hok : parseLoop szPath fuel s pos = .ok r) : Points r none ((lastPointed behind ls).or last) := by
  induction hn : ls.length generalizing ls behind s pos last fuel with
  | zero =>
    obtain rfl := List.length_eq_zero_iff.1 hn
    cases pos with
    | some a => exact absurd rfl hleft.2.1
    | none =>
      rw [parseLoop_none_ok hok, lastPointed_white (by simp)]
      exact h
  | succ n ih =>
    cases pos with
    | none =>
      rw [parseLoop_none_ok hok, lastPointed_white (hwhite rfl)]
      exact h
    | some a =>
      obtain ⟨line, ls, rfl⟩ := List.exists_cons_of_length_eq_add_one hn
      obtain ⟨param, s', pos', hword, hturn, -, hleft', hnext⟩ := turn_spec hleft.1 hleft.2.2 hok
      obtain ⟨-, -, t, -, ht, -⟩ := hleft
      have hin := ht.inside
      cases fuel with
      | zero => cases hok
      | succ fuel =>
        rw [hturn.parseLoop] at hok
        rw [lastPointed_cons]
        refine ih hleft' (fun hnone => ?_) (h.step (by omega) hturn hword hnext hleft') hok
          (by simpa [length_nextLines] using hn)
        rw [hnone] at hnext
        rw [nextLines_white hnext]
        exact hnext

/-- Where the pointer leads after the loop. -/
theorem parseLoop_points {mem : Nat → UInt8} {contents : List UInt8}
    (hok : parseLoop szPath (contents.length + 2) ⟨loaded mem contents, [default], 0, none⟩ (some 0) =
      .ok s) (hline : defaultLine (textLines contents) = some line) :
    ∃ p, s.defaultTitle = some p ∧ StrAt s.buf p (comparedTitle contents) ∧
      (line.any isBlank = true → comparedTitle contents = ownValue line) := by
  have hstart : Points ⟨loaded mem contents, [default], 0, none⟩ (some 0) none :=
    ⟨Buffer.cut_self _ _, fun _ => rfl, by rintro line ⟨⟩⟩
  have hend := left_points (loaded_left mem contents) (by rintro ⟨⟩) hstart hok
  obtain ⟨c, hc, hown⟩ := @lastPointed_of_defaultLine (textBehind contents) _ _ hline
  rw [Option.or_none] at hend
  obtain ⟨p, hp, hleads⟩ := hend.set c hc
  rw [comparedTitle, hc, Option.getD_some]
  refine ⟨p, hp, ?_, hown⟩
  cases hleads with
  | read h _ => exact h
  | empty h hc =>
    rw [hc]
    exact h
  | ahead hpos => cases hpos

end

end Gentoox.Config
