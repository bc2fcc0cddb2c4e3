import GentooxLoader.Lib.Strings

/-!
# The URL and path editors (menu/actions/URLMenuActions.c and its three copies)

An editor is a menu whose caption is the text.  Each of its actions copies the
caption to a global, changes the copy at `position` and prints it back into the
caption.  The four files have the same text but for the names of their own
variables, so one definition stands for an action of all four.

`IsPath` is the kind of text the editors are for; `Shows t e` says that `t` is in
the caption and in the copy and that the position is its last letter.

    load_shows     what every action begins with
    editAt_shows   an action that changes the last letter
    run_shows      every action shows a path again
    run_kept       any actions on the four editors in any order
    editors_keep   from the captions the menus are set up with
-/

namespace Gentoox.Editors

open Lib

/-! ## Algorithm -/

/-- `strcpy` from one array to another; it must find a NUL and have room for it. -/
def strcpy (dest src : List UInt8) : Option (List UInt8) :=
  let s := cstr src
  if s.length < src.length ∧ s.length < dest.length then
    some (s ++ 0 :: dest.drop (s.length + 1))
  else none

/-- `sprintf(buf, "%s", arg)` -/
def sprintfS (buf arg : List UInt8) : Option (List UInt8) := strcpy buf arg

/-- `a[i]` -/
def getAt (a : List UInt8) (i : Int) : Option UInt8 := if i < 0 then none else a[i.toNat]?

/-- `a[i] = c` -/
def setAt (a : List UInt8) (i : Int) (c : UInt8) : Option (List UInt8) :=
  if 0 ≤ i ∧ i.toNat < a.length then some (a.set i.toNat c) else none

/-- The static variables of one editor and the caption of its menu. -/
structure Edit where
  position : Int
  copy : List UInt8
  szCaption : List UInt8

def fixPosition (position len : Int) : Int := if position < 0 then len - 1 else position

/-- `memset`, `strcpy` and `fixPosition`, with which every action begins. -/
def Edit.load (e : Edit) : Option Edit :=
  (strcpy (List.replicate 200 0) e.szCaption).map fun copy =>
    { e with copy := copy, position := fixPosition e.position (cstr copy).length }

/-- The `sprintf` at the end of an action. -/
def Edit.print (e : Edit) : Option Edit :=
  (sprintfS e.szCaption e.copy).map fun caption => { e with szCaption := caption }

/-- The actions that change the letter at the position. -/
def Edit.editAt (f : UInt8 → UInt8) (e : Edit) : Option Edit := do
  let e ← e.load
  let c ← getAt e.copy e.position
  let copy ← setAt e.copy e.position (f c)
  { e with copy := copy }.print

def incrementAlphabet : Edit → Option Edit :=
  Edit.editAt fun c => if charInt c < 126 then c + 1 else c

def decrementAlphabet : Edit → Option Edit :=
  Edit.editAt fun c => if charInt c > 33 then c - 1 else c

def nextLetter (e : Edit) : Option Edit := do
  let e ← e.load
  if e.position < 119 then
    let position := e.position + 1
    let c ← getAt e.copy position
    let copy ←
      if charInt c < 32 ∨ charInt c > 126 then
        (getAt e.copy (position - 1)).bind fun last => setAt e.copy position last
      else some e.copy
    { e with position := position, copy := copy }.print
  else some e

/-- The leading slash cannot be deleted. -/
def deleteLetter (e : Edit) : Option Edit := do
  let e ← e.load
  if e.position > 1 then
    let copy ← setAt e.copy e.position 0
    { e with copy := copy, position := e.position - 1 }.print
  else some e

def setNum : Edit → Option Edit := Edit.editAt fun _ => 0x30

def setLC : Edit → Option Edit :=
  Edit.editAt fun c =>
    if 65 ≤ c ∧ c ≤ 90 then c + 32
    else if 97 ≤ c ∧ c ≤ 122 then c
    else 0x61

def setUC : Edit → Option Edit :=
  Edit.editAt fun c =>
    if 97 ≤ c ∧ c ≤ 122 then c - 32
    else if 65 ≤ c ∧ c ≤ 90 then c
    else 0x41

def setFullStop : Edit → Option Edit := Edit.editAt fun _ => 0x2e
def setFSlash : Edit → Option Edit := Edit.editAt fun _ => 0x2f
def setDash : Edit → Option Edit := Edit.editAt fun _ => 0x2d
def setUScore : Edit → Option Edit := Edit.editAt fun _ => 0x5f

inductive Action where
  | incrementAlphabet | decrementAlphabet | nextLetter | deleteLetter | setNum | setLC | setUC
  | setFullStop | setFSlash | setDash | setUScore
deriving DecidableEq

def Action.run : Action → Edit → Option Edit
  | .incrementAlphabet => Editors.incrementAlphabet
  | .decrementAlphabet => Editors.decrementAlphabet
  | .nextLetter => Editors.nextLetter
  | .deleteLetter => Editors.deleteLetter
  | .setNum => Editors.setNum
  | .setLC => Editors.setLC
  | .setUC => Editors.setUC
  | .setFullStop => Editors.setFullStop
  | .setFSlash => Editors.setFSlash
  | .setDash => Editors.setDash
  | .setUScore => Editors.setUScore

/-- The four copies of the file. -/
inductive Editor where
  | url | kernelPath | initrdPath | appendPath
deriving DecidableEq

/-- An action of one editor; the variables of the others are its own file's. -/
def step (es : Editor → Edit) (a : Editor × Action) : Option (Editor → Edit) :=
  (a.2.run (es a.1)).map fun e => Function.update es a.1 e

def run (es : Editor → Edit) (as : List (Editor × Action)) : Option (Editor → Edit) :=
  as.foldlM step es

/-! ## Texts -/

def Printable (c : UInt8) : Prop := 33 ≤ c ∧ c ≤ 126

instance (c : UInt8) : Decidable (Printable c) := inferInstanceAs (Decidable (_ ∧ _))

instance (t : List UInt8) : Decidable (∀ c ∈ t, Printable c) := List.decidableBAll Printable t

/-- A text the editors are for: a slash and at least one character more, up to
the 120 characters `nextLetter` stops at. -/
structure IsPath (t : List UInt8) : Prop where
  slash : t.head? = some 0x2f
  longer : 2 ≤ t.length
  fits : t.length ≤ 120
  printable : ∀ c ∈ t, Printable c

/-- The text has room to grow: what `IsPath` asks of all but the last letter. -/
structure Stem (s : List UInt8) : Prop where
  slash : s.head? = some 0x2f
  nonempty : 1 ≤ s.length
  fits : s.length ≤ 119
  printable : ∀ c ∈ s, Printable c

/-- The menu initialiser: the caption is a literal, the copy is made from it. -/
def menuInit (literal : List UInt8) : Option Edit := do
  let szCaption ← strcpy (List.replicate 201 0) (literal ++ [0])
  let copy ← strcpy (List.replicate 200 0) szCaption
  some ⟨-1, copy, szCaption⟩

def Editor.caption : Editor → List UInt8
  | .url => chars ['/', 'g', 'e', 'n', 't', 'o', 'o', 'x']
  | .kernelPath => chars ['/', 'v', 'm', 'l', 'i', 'n', 'u', 'z']
  | .initrdPath => chars ['/', 'i', 'n', 'i', 't', 'r', 'd', '.', 'g', 'z']
  | .appendPath => chars ['/', 'a', 'p', 'p', 'e', 'n', 'd', '.', 't', 'x', 't']

/-- The caption and its copy are one terminated string of printable letters
behind a slash, and the position is its last letter. -/
structure Edited (e : Edit) : Prop where
  equal : cstr e.szCaption = cstr e.copy
  captionEnds : (cstr e.szCaption).length < e.szCaption.length
  copyEnds : (cstr e.copy).length < e.copy.length
  slash : (cstr e.copy).head? = some 0x2f
  printable : ∀ c ∈ cstr e.copy, Printable c
  last : e.position = (cstr e.copy).length - 1
  bounds : 1 ≤ e.position ∧ e.position ≤ 119

/-! ## Lemmas -/

theorem Printable.ne_zero {c : UInt8} (h : Printable c) : c ≠ 0 := by
  rintro rfl
  exact absurd h (by decide)

/-- Every literal the menus start with is such a text. -/
theorem caption_isPath (ed : Editor) : IsPath ed.caption := by
  cases ed <;> exact ⟨by decide, by decide, by decide, by decide⟩

theorem IsPath.ne_zero {t : List UInt8} (h : IsPath t) : ∀ c ∈ t, c ≠ 0 :=
  fun c hc => (h.printable c hc).ne_zero

/-- A text by its last letter. -/
theorem IsPath.snoc {t : List UInt8} (h : IsPath t) : ∃ s c, t = s ++ [c] ∧ Stem s ∧ Printable c := by
  have hne : t ≠ [] := by
    rintro rfl
    exact absurd h.longer (by decide)
  obtain ⟨s, c, rfl⟩ := (List.eq_nil_or_concat' t).resolve_left hne
  have hlonger := h.longer
  have hfits := h.fits
  rw [List.length_append, List.length_singleton] at hlonger hfits
  refine ⟨s, c, rfl, ⟨?_, by omega, by omega, ?_⟩, h.printable c (by simp)⟩
  · have hslash := h.slash
    rwa [List.head?_append_of_ne_nil _ (List.length_pos_iff.1 (by omega))] at hslash
  · intro d hd
    exact h.printable d (List.mem_append_left _ hd)

theorem Stem.isPath {s : List UInt8} (h : Stem s) {c : UInt8} (hc : Printable c) : IsPath (s ++ [c]) where
  slash := by
    rw [List.head?_append_of_ne_nil _ (List.length_pos_iff.1 h.nonempty)]
    exact h.slash
  longer := by
    have := h.nonempty
    rw [List.length_append, List.length_singleton]
    omega
  fits := by
    have := h.fits
    rw [List.length_append, List.length_singleton]
    omega
  printable d hd := by
    rcases List.mem_append.1 hd with hd | hd
    · exact h.printable d hd
    · rw [List.mem_singleton.1 hd]
      exact hc

theorem cstr_text {t : List UInt8} (h : ∀ c ∈ t, c ≠ 0) (rest : List UInt8) :
    cstr (t ++ 0 :: rest) = t := by
  unfold cstr
  rw [List.takeWhile_append_of_pos (fun c hc => decide_eq_true (h c hc)), List.takeWhile_cons_of_neg]
  · rw [List.append_nil]
  · simp

theorem strcpy_text {t dest : List UInt8} (h : ∀ c ∈ t, c ≠ 0) (rest : List UInt8)
    (hdest : t.length < dest.length) :
    strcpy dest (t ++ 0 :: rest) = some (t ++ 0 :: dest.drop (t.length + 1)) := by
  unfold strcpy
  rw [cstr_text h, if_pos]
  rw [List.length_append, List.length_cons]
  exact ⟨by omega, hdest⟩

/-- A string at the start of an array that is 0 behind it. -/
def padded (n : Nat) (t : List UInt8) : List UInt8 := t ++ List.replicate (n - t.length) 0

theorem padded_eq {n : Nat} {t : List UInt8} (h : t.length < n) :
    padded n t = t ++ 0 :: List.replicate (n - (t.length + 1)) 0 := by
  unfold padded
  rw [show n - t.length = n - (t.length + 1) + 1 by omega, List.replicate_succ]

theorem length_padded {n : Nat} {t : List UInt8} (h : t.length ≤ n) : (padded n t).length = n := by
  unfold padded
  rw [List.length_append, List.length_replicate]
  omega

theorem strcpy_padded {t : List UInt8} (h : ∀ c ∈ t, c ≠ 0) (rest : List UInt8) {n : Nat}
    (hn : t.length < n) : strcpy (List.replicate n 0) (t ++ 0 :: rest) = some (padded n t) := by
  rw [strcpy_text h rest (by rwa [List.length_replicate]), List.drop_replicate, ← padded_eq hn]

theorem padded_snoc (n : Nat) (s : List UInt8) (c : UInt8) :
    padded n (s ++ [c]) = s ++ c :: List.replicate (n - (s.length + 1)) 0 := by
  unfold padded
  rw [List.length_append, List.length_singleton, List.append_assoc]
  rfl

theorem getAt_last (s : List UInt8) (c : UInt8) (rest : List UInt8) :
    getAt (s ++ c :: rest) s.length = some c := by
  unfold getAt
  rw [if_neg (by omega), Int.toNat_natCast, List.getElem?_append_right (Nat.le_refl _), Nat.sub_self]
  rfl

theorem setAt_last (s : List UInt8) (c d : UInt8) (rest : List UInt8) :
    setAt (s ++ c :: rest) s.length d = some (s ++ d :: rest) := by
  unfold setAt
  rw [Int.toNat_natCast, if_pos]
  · rw [List.set_append_right _ _ (Nat.le_refl _), Nat.sub_self]
    rfl
  · rw [List.length_append, List.length_cons]
    omega

/-! ## One action -/

/-- The text in the caption; the copy is free. -/
structure Captioned (t : List UInt8) (e : Edit) : Prop where
  caption : ∃ rest, e.szCaption = t ++ 0 :: rest
  size : e.szCaption.length = 201

/-- `t` is in the caption and in the copy, and the position is its last letter. -/
structure Shows (t : List UInt8) (e : Edit) : Prop extends Captioned t e where
  copied : e.copy = padded 200 t
  atEnd : e.position = t.length - 1

/-- Before the first action the position is not set yet. -/
structure Fresh (t : List UInt8) (e : Edit) : Prop extends Captioned t e where
  position : e.position = -1

theorem Shows.edited {t : List UInt8} {e : Edit} (h : Shows t e) (ht : IsPath t) : Edited e := by
  obtain ⟨rest, hrest⟩ := h.caption
  have hlonger := ht.longer
  have hfits := ht.fits
  have hcaption : cstr e.szCaption = t := by rw [hrest, cstr_text ht.ne_zero]
  have hcopy : cstr e.copy = t := by
    rw [h.copied, padded_eq (by omega), cstr_text ht.ne_zero]
  refine ⟨hcaption.trans hcopy.symm, ?_, ?_, ?_, ?_, ?_, ?_⟩
  · rw [hcaption, h.size]
    omega
  · rw [hcopy, h.copied, length_padded (by omega)]
    omega
  · rw [hcopy]
    exact ht.slash
  · rw [hcopy]
    exact ht.printable
  · rw [hcopy]
    exact h.atEnd
  · rw [h.atEnd]
    omega

/-- Where an action can begin: the caption shows the text, the cursor is unset or at its end. -/
def Ready (t : List UInt8) (e : Edit) : Prop :=
  Captioned t e ∧ (e.position = -1 ∨ e.position = t.length - 1)

theorem load_shows {t : List UInt8} {e : Edit} (ht : IsPath t) (h : Ready t e) :
    ∃ e', e.load = some e' ∧ Shows t e' := by
  obtain ⟨⟨⟨rest, hrest⟩, hsize⟩, hpos⟩ := h
  have hlonger := ht.longer
  have hfits := ht.fits
  unfold Edit.load
  rw [hrest, strcpy_padded ht.ne_zero rest (by omega)]
  refine ⟨_, rfl, ⟨⟨⟨rest, rfl⟩, ?_⟩, rfl, ?_⟩⟩
  · rw [← hrest]
    exact hsize
  · show fixPosition e.position _ = _
    rw [padded_eq (by omega), cstr_text ht.ne_zero]
    unfold fixPosition
    rcases hpos with hpos | hpos
    · rw [hpos, if_pos (by decide)]
    · rw [hpos, if_neg (by omega)]

/-- The `sprintf` at the end carries the copy over to the caption. -/
theorem print_shows {t t' : List UInt8} {e : Edit} (ht : IsPath t) (h : Captioned t' e)
    (hcopy : e.copy = padded 200 t) (hpos : e.position = t.length - 1) :
    ∃ e', e.print = some e' ∧ Shows t e' := by
  have hfits := ht.fits
  have hsize := h.size
  have hprint : sprintfS e.szCaption e.copy = some (t ++ 0 :: e.szCaption.drop (t.length + 1)) := by
    unfold sprintfS
    rw [hcopy, padded_eq (by omega), strcpy_text ht.ne_zero _ (by omega)]
  unfold Edit.print
  rw [hprint]
  refine ⟨_, rfl, ⟨⟨⟨_, rfl⟩, ?_⟩, hcopy, hpos⟩⟩
  show (t ++ 0 :: e.szCaption.drop (t.length + 1)).length = 201
  rw [List.length_append, List.length_cons, List.length_drop]
  omega

theorem editAt_shows {t : List UInt8} {e : Edit} (ht : IsPath t) (h : Ready t e)
    {f : UInt8 → UInt8} (hf : ∀ c, Printable c → Printable (f c)) :
    ∃ t' e', e.editAt f = some e' ∧ IsPath t' ∧ Shows t' e' := by
  obtain ⟨e1, hload, h1⟩ := load_shows ht h
  obtain ⟨s, c, rfl, hs, hc⟩ := ht.snoc
  have hfits := hs.fits
  have hpos : e1.position = s.length := by
    have := h1.atEnd
    rw [List.length_append, List.length_singleton] at this
    omega
  have hcopy : e1.copy = s ++ c :: List.replicate (200 - (s.length + 1)) 0 := by
    rw [h1.copied, padded_snoc]
  have hpath := hs.isPath (hf c hc)
  obtain ⟨e2, hshow, h2⟩ := print_shows
    (e := { e1 with copy := s ++ f c :: List.replicate (200 - (s.length + 1)) 0 }) hpath
    ⟨h1.caption, h1.size⟩ (padded_snoc 200 s (f c)).symm
    (by rw [List.length_append, List.length_singleton]; show e1.position = _; omega)
  refine ⟨_, e2, ?_, hpath, h2⟩
  unfold Edit.editAt
  rw [hload]
  show (getAt e1.copy e1.position).bind _ = some e2
  rw [hcopy, hpos, getAt_last]
  show (setAt (s ++ c :: _) s.length (f c)).bind _ = some e2
  rw [setAt_last, ← hpos]
  exact hshow

theorem nextLetter_shows {t : List UInt8} {e : Edit} (ht : IsPath t) (h : Ready t e) :
    ∃ t' e', nextLetter e = some e' ∧ IsPath t' ∧ Shows t' e' := by
  obtain ⟨e1, hload, h1⟩ := load_shows ht h
  obtain ⟨s, c, rfl, hs, hc⟩ := ht.snoc
  have hpos : e1.position = s.length := by
    have := h1.atEnd
    rw [List.length_append, List.length_singleton] at this
    omega
  unfold nextLetter
  rw [hload]
  show ∃ t' e', (if e1.position < 119 then _ else _) = some e' ∧ _
  split
  · rename_i hlt
    -- behind the last letter the copy is still 0, so that the letter is taken over
    have hcopy : e1.copy = (s ++ [c]) ++ 0 :: List.replicate (200 - (s.length + 2)) 0 := by
      rw [h1.copied, padded_eq (by rw [List.length_append, List.length_singleton]; omega),
        List.length_append, List.length_singleton]
    have hnext : e1.position + 1 = ((s ++ [c]).length : Int) := by
      rw [hpos, List.length_append, List.length_singleton]
      rfl
    have hstem : Stem (s ++ [c]) := by
      have hpath := hs.isPath hc
      refine ⟨hpath.slash, ?_, ?_, hpath.printable⟩
      · rw [List.length_append, List.length_singleton]
        omega
      · rw [List.length_append, List.length_singleton]
        omega
    have hpath := hstem.isPath hc
    obtain ⟨e2, hshow, h2⟩ := print_shows
      (e := { e1 with
        position := e1.position + 1
        copy := (s ++ [c]) ++ c :: List.replicate (200 - (s.length + 2)) 0 }) hpath
      ⟨h1.caption, h1.size⟩
      (by rw [padded_snoc, List.length_append, List.length_singleton])
      (by rw [List.length_append, List.length_singleton]; show e1.position + 1 = _; omega)
    refine ⟨_, e2, ?_, hpath, h2⟩
    have hlast : getAt e1.copy (e1.position + 1 - 1) = some c := by
      rw [Int.add_sub_cancel, hpos, hcopy, List.append_assoc]
      exact getAt_last s c _
    have hzero : getAt e1.copy (e1.position + 1) = some 0 := by
      rw [hnext, hcopy]
      exact getAt_last (s ++ [c]) 0 _
    rw [hzero]
    show (if charInt 0 < 32 ∨ charInt 0 > 126 then
      (getAt e1.copy (e1.position + 1 - 1)).bind fun last => setAt e1.copy (e1.position + 1) last
      else some e1.copy).bind _ = some e2
    rw [if_pos (by decide), hlast]
    show (setAt e1.copy (e1.position + 1) c).bind _ = some e2
    rw [hcopy, hnext, setAt_last, ← hnext]
    exact hshow
  · exact ⟨_, e1, rfl, ht, h1⟩

theorem deleteLetter_shows {t : List UInt8} {e : Edit} (ht : IsPath t) (h : Ready t e) :
    ∃ t' e', deleteLetter e = some e' ∧ IsPath t' ∧ Shows t' e' := by
  obtain ⟨e1, hload, h1⟩ := load_shows ht h
  obtain ⟨s, c, rfl, hs, hc⟩ := ht.snoc
  have hpos : e1.position = s.length := by
    have := h1.atEnd
    rw [List.length_append, List.length_singleton] at this
    omega
  unfold deleteLetter
  rw [hload]
  show ∃ t' e', (if e1.position > 1 then _ else _) = some e' ∧ _
  split
  · rename_i hgt
    have hcopy : e1.copy = s ++ c :: List.replicate (200 - (s.length + 1)) 0 := by
      rw [h1.copied, padded_snoc]
    have hfits := hs.fits
    have hpath : IsPath s := ⟨hs.slash, by omega, by omega, hs.printable⟩
    obtain ⟨e2, hshow, h2⟩ := print_shows
      (e := { e1 with
        copy := s ++ 0 :: List.replicate (200 - (s.length + 1)) 0
        position := e1.position - 1 }) hpath ⟨h1.caption, h1.size⟩
      (padded_eq (by omega)).symm (by show e1.position - 1 = _; omega)
    refine ⟨s, e2, ?_, hpath, h2⟩
    rw [hcopy, hpos, setAt_last, ← hpos]
    exact hshow
  · exact ⟨_, e1, rfl, ht, h1⟩

theorem Shows.ready {t : List UInt8} {e : Edit} (h : Shows t e) : Ready t e :=
  ⟨h.toCaptioned, .inr h.atEnd⟩

/-- Each change of a letter leaves a printable one printable. -/
theorem printable_change :
    (∀ c, Printable c → Printable (if charInt c < 126 then c + 1 else c)) ∧
      (∀ c, Printable c → Printable (if charInt c > 33 then c - 1 else c)) ∧
      (∀ c, Printable c → Printable (if 65 ≤ c ∧ c ≤ 90 then c + 32
        else if 97 ≤ c ∧ c ≤ 122 then c else 0x61)) ∧
      ∀ c, Printable c → Printable (if 97 ≤ c ∧ c ≤ 122 then c - 32
        else if 65 ≤ c ∧ c ≤ 90 then c else 0x41) := by
  refine ⟨?_, ?_, ?_, ?_⟩ <;> rintro ⟨x⟩ <;> revert x <;> decide +kernel

/-- Every action finds a path and leaves one, shown in both places. -/
theorem run_shows (a : Action) {t : List UInt8} {e : Edit} (ht : IsPath t) (h : Ready t e) :
    ∃ t' e', a.run e = some e' ∧ IsPath t' ∧ Shows t' e' := by
  obtain ⟨hinc, hdec, hlower, hupper⟩ := printable_change
  cases a with
  | incrementAlphabet => exact editAt_shows ht h hinc
  | decrementAlphabet => exact editAt_shows ht h hdec
  | nextLetter => exact nextLetter_shows ht h
  | deleteLetter => exact deleteLetter_shows ht h
  | setNum => exact editAt_shows ht h fun _ _ => by decide
  | setLC => exact editAt_shows ht h hlower
  | setUC => exact editAt_shows ht h hupper
  | setFullStop => exact editAt_shows ht h fun _ _ => by decide
  | setFSlash => exact editAt_shows ht h fun _ _ => by decide
  | setDash => exact editAt_shows ht h fun _ _ => by decide
  | setUScore => exact editAt_shows ht h fun _ _ => by decide

theorem menuInit_ready {t : List UInt8} (ht : IsPath t) :
    ∃ e, menuInit t = some e ∧ Ready t e := by
  have hfits := ht.fits
  unfold menuInit
  rw [strcpy_padded ht.ne_zero [] (by omega)]
  show ∃ e, (strcpy _ (padded 201 t)).bind _ = some e ∧ _
  rw [padded_eq (by omega), strcpy_padded ht.ne_zero _ (by omega)]
  refine ⟨_, rfl, ⟨⟨_, rfl⟩, ?_⟩, .inl rfl⟩
  show (t ++ 0 :: _).length = 201
  rw [← padded_eq (by omega), length_padded (by omega)]

/-! ## Runs -/

/-- Every editor has a path in its caption; those in `seen` show it everywhere. -/
def Kept (seen : List Editor) (es : Editor → Edit) : Prop :=
  ∀ ed, ∃ t, IsPath t ∧ Ready t (es ed) ∧ (ed ∈ seen → Shows t (es ed))

theorem step_kept {seen : List Editor} {es : Editor → Edit} (h : Kept seen es)
    (a : Editor × Action) :
    ∃ es', step es a = some es' ∧ Kept (a.1 :: seen) es' ∧ ∀ ed, ed ≠ a.1 → es' ed = es ed := by
  obtain ⟨t, ht, hready, -⟩ := h a.1
  obtain ⟨t', e', hrun, ht', hshows⟩ := run_shows a.2 ht hready
  refine ⟨Function.update es a.1 e', ?_, ?_, fun ed hed => Function.update_of_ne hed ..⟩
  · unfold step
    rw [hrun]
    rfl
  · intro ed
    by_cases hed : ed = a.1
    · rw [hed, Function.update_self]
      exact ⟨t', ht', hshows.ready, fun _ => hshows⟩
    · obtain ⟨s, hs, hsready, hseen⟩ := h ed
      rw [Function.update_of_ne hed]
      refine ⟨s, hs, hsready, fun hmem => hseen ?_⟩
      exact (List.mem_cons.1 hmem).resolve_left hed

theorem run_kept (as : List (Editor × Action)) {seen : List Editor} {es : Editor → Edit}
    (h : Kept seen es) :
    ∃ es', run es as = some es' ∧ (∀ ed, ed ∈ as.map Prod.fst → Edited (es' ed)) ∧
      (∀ ed, ed ∈ seen → Edited (es' ed)) ∧ ∀ ed, ed ∉ as.map Prod.fst → es' ed = es ed := by
  induction as generalizing seen es with
  | nil =>
    refine ⟨es, rfl, fun ed hed => absurd hed (List.not_mem_nil), fun ed hed => ?_, fun _ _ => rfl⟩
    obtain ⟨t, ht, -, hshows⟩ := h ed
    exact (hshows hed).edited ht
  | cons a as ih =>
    obtain ⟨es1, hstep, hkept, hframe⟩ := step_kept h a
    obtain ⟨es', hrun, hacted, hseen, hrest⟩ := ih hkept
    refine ⟨es', ?_, fun ed hed => ?_, fun ed hed => ?_, fun ed hed => ?_⟩
    · show (step es a).bind _ = some es'
      rw [hstep]
      exact hrun
    · rcases List.mem_cons.1 hed with hed | hed
      · exact hseen ed (List.mem_cons.2 (.inl hed))
      · exact hacted ed hed
    · exact hseen ed (List.mem_cons_of_mem _ hed)
    · rw [List.map_cons, List.mem_cons, not_or] at hed
      rw [hrest ed hed.2, hframe ed hed.1]

/-! ## Top theorem -/

/-- **The editors.** Started with any paths for captions, the four editors take
every sequence of actions, and after it each one that was used has its caption
and its copy equal, with the cursor on the last letter; the others are as they
were set up. -/
theorem editors_keep (captions : Editor → { t : List UInt8 // IsPath t })
    (as : List (Editor × Action)) :
    ∃ es es', (∀ ed, menuInit (captions ed).val = some (es ed)) ∧ run es as = some es' ∧
      (∀ ed, ed ∈ as.map Prod.fst → Edited (es' ed)) ∧
      ∀ ed, ed ∉ as.map Prod.fst → es' ed = es ed := by
  have hinit : ∀ ed, ∃ e, menuInit (captions ed).val = some e ∧ Ready (captions ed).val e :=
    fun ed => menuInit_ready (captions ed).property
  choose es hes hready using hinit
  have hkept : Kept [] es := fun ed =>
    ⟨_, (captions ed).property, hready ed, fun hmem => absurd hmem (List.not_mem_nil)⟩
  obtain ⟨es', hrun, hacted, -, hrest⟩ := run_kept as hkept
  exact ⟨es, es', hes, hrun, hacted, hrest⟩

end Gentoox.Editors
