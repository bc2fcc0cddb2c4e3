import GentooxLoader.Config.Fields
import GentooxLoader.Config.Reference

/-!
# The entries of a configuration (lib/misc/BootParser.c)

The entries that the parser returns, compared with those read line by line
(`readEntries`).  They are the same on the texts in which no value runs on,
every value is short and the title lines are titled:

    left_own_iff   every line's value is its own ↔ no value runs on
    left_builds    then the loop builds what is read line by line
    entries_iff    the parser and the reference
-/

namespace Gentoox.Config

open Lib

/-! ## The property -/

/-- The array of a field holds this string. -/
structure HoldsString (e : ConfigEntry) (f : Field) (v : List UInt8) : Prop where
  short : v.length < f.size
  chars : Cells.read e.bytes f.offset v.length = v
  nul : e.bytes (f.offset + v.length) = 0

structure Matches (e : ConfigEntry) (it : Item) : Prop where
  title : HoldsString e .title it.title
  kernel : HoldsString e .kernel it.kernel
  initrd : HoldsString e .initrd it.initrd

/-- Each entry leads to the next. -/
def Chained (entries : List ConfigEntry) : Prop :=
  ∀ i, i < entries.length → (entries.getD i default).nextConfigEntry =
    if i + 1 < entries.length then some (i + 1) else none

/-- The result of a parse is this list. -/
structure ReadAs (r : Parse) (items : List Item) : Prop where
  length : r.entries.length = items.length
  matched : ∀ j, j < items.length → Matches (r.entry j) (items.getD j default)
  chained : Chained r.entries

/-- The line that begins at `a`. -/
def lineAt (contents : List UInt8) (a : Nat) : List UInt8 :=
  (cstr (contents.drop a)).takeWhile (· ≠ 0x0a)

/-- The value that a directive gets is the one of its own line. -/
def OwnValue (contents : List UInt8) (c : Parse × Option Nat) (t : List UInt8 × List UInt8)
    (_ : Parse × Option Nat) : Prop :=
  ∀ f a, fieldOf t.1 = some f → c.2 = some a → t.2 = ownValue (lineAt contents a)

/-! ## Values that do not run on -/

theorem cstr_drop {l x y : List UInt8} (h : cstr l = x ++ y) : cstr (l.drop x.length) = y := by
  induction x generalizing l with
  | nil => exact h
  | cons c x ih =>
    cases l with
    | nil => cases h
    | cons d l =>
      rw [cstr, List.takeWhile_cons] at h
      split at h
      · rw [List.length_cons, List.drop_succ_cons]
        exact ih (List.cons.inj h).2
      · cases h

/-- The lines that are left are those of the text from `a` on. -/
theorem lineAt_eq {contents line : List UInt8} {ls : List (List UInt8)} {a : Nat}
    (hline : 0x0a ∉ line) (h : cstr (contents.drop a) = unlines (line :: ls)) :
    lineAt contents a = line ∧
      (ls ≠ [] → cstr (contents.drop (a + line.length + 1)) = unlines ls) := by
  have hpos : ∀ c ∈ line, decide (c ≠ 0x0a) = true := by
    intro c hc
    rw [decide_eq_true_eq]
    rintro rfl
    exact hline hc
  unfold lineAt
  rw [h]
  by_cases hls : ls = []
  · subst hls
    rw [show unlines [line] = line from List.intercalate_singleton]
    exact ⟨List.takeWhile_eq_self_iff.2 hpos, fun hne => absurd rfl hne⟩
  · rw [unlines_cons hls] at h ⊢
    constructor
    · rw [List.takeWhile_append_of_pos hpos]
      simp
    · intro _
      have hdrop := cstr_drop (x := line ++ [0x0a]) (y := unlines ls) (by rw [h]; simp)
      rw [List.drop_drop, List.length_append, List.length_singleton, ← Nat.add_assoc] at hdrop
      exact hdrop

section
variable {szPath : Option (List UInt8)} {contents : List UInt8} {r : Parse}

/-- A turn gives its directive the value of its own line when that line stands alone. -/
theorem turn_own_iff {behind line : List UInt8} {ls : List (List UInt8)} {a : Nat} {s s' : Parse}
    {pos' : Option Nat} {param : List UInt8} (hparam : fieldOf param = fieldOf (token line))
    (hat : lineAt contents a = line) :
    OwnValue contents (s, some a) (param, lineValue behind line ls) (s', pos') ↔
      Alone behind line ls := by
  unfold OwnValue Alone
  rw [hparam]
  cases hf : fieldOf (token line) with
  | none => exact iff_of_true (by rintro f a' ⟨⟩) (Or.inr (Or.inl rfl))
  | some f =>
    have hnone : ¬ some f = none := by rintro ⟨⟩
    simp only [hnone, false_or]
    rw [← lineValue_own_iff]
    constructor
    · intro h
      have hvalue := h f a rfl rfl
      rwa [hat] at hvalue
    · rintro h g a' - ⟨⟩
      rw [hat]
      exact h

/-- **Every value is its own line's** exactly when no value runs on. -/
theorem left_own_iff {ls : List (List UInt8)} {behind : List UInt8} {s : Parse} {pos : Option Nat}
    {fuel : Nat} (hleft : Left s pos behind ls)
    (hpos : ∀ a, pos = some a → cstr (contents.drop a) = unlines ls)
    (hok : parseLoop szPath fuel s pos = .ok r) :
    Steps.Always (Turn szPath) (OwnValue contents) (s, pos) ↔ NoRunOn behind ls := by
  induction ls generalizing behind s pos fuel with
  | nil =>
    cases pos with
    | some a => exact absurd rfl hleft.2.1
    | none => exact iff_of_true (Steps.always_of_stuck not_turn_none) trivial
  | cons line ls ih =>
    cases pos with
    | none =>
      exact iff_of_true (Steps.always_of_stuck not_turn_none)
        (noRunOn_of_none (fields_of_none hleft.2))
    | some a =>
      obtain ⟨param, s', pos', hparam, hturn, hstores, hleft', hnext⟩ :=
        turn_spec hleft.1 hleft.2.2 hok
      obtain ⟨hat, hrest⟩ := lineAt_eq (hleft.1 line List.mem_cons_self) (hpos a rfl)
      cases fuel with
      | zero => cases hok
      | succ fuel =>
        rw [hturn.parseLoop] at hok
        rw [Steps.always_iff hturn fun _ _ h => hturn.unique h]
        rw [turn_own_iff hparam.fieldOf hat]
        refine and_congr_right fun halone => ?_
        rw [nextLines_of_alone halone] at hleft'
        refine ih hleft' (fun a' ha' => ?_) hok
        rw [ha'] at hnext
        rw [hnext.1]
        apply hrest
        rw [ha'] at hleft'
        exact hleft'.2.1

end

/-! ## What the loop builds -/

/-- The entries so far are those read so far; without a title the array of the
current one is still empty. -/
structure Builds (s : Parse) (it : Items) : Prop where
  length : s.entries.length = it.finished.length + 1
  current : s.currentEntry = it.finished.length
  matched : ∀ j, Matches (s.entry j) (it.all.getD j default)
  chained : Chained s.entries
  nonzero : 0 ∉ it.current.title
  blank : it.current.title = [] → ∀ k, k < 15 →
    (s.entry s.currentEntry).bytes (offsetTitle + k) = 0

theorem HoldsString.of_zero {e : ConfigEntry} {f : Field} (h : e.bytes f.offset = 0) :
    HoldsString e f [] := ⟨f.size_pos, rfl, h⟩

theorem matches_default : Matches default default :=
  ⟨.of_zero rfl, .of_zero rfl, .of_zero rfl⟩

section
variable {e : ConfigEntry} {f g : Field} {v w str : List UInt8}

/-- A store into another array. -/
theorem HoldsString.write_other (h : HoldsString e g v) (hg : g ≠ f) (hw : w.length ≤ f.size) :
    HoldsString { e with bytes := Cells.write e.bytes f.offset w } g v := by
  have hapart := Field.apart hg
  have hshort := h.short
  refine ⟨hshort, ?_, ?_⟩
  · show Cells.read (Cells.write e.bytes f.offset w) g.offset v.length = v
    rw [Cells.read_write_of_outside _ _ _ _ _ (by omega)]
    exact h.chars
  · show Cells.write e.bytes f.offset w (g.offset + v.length) = 0
    rw [Cells.write_of_outside _ _ _ _ (by omega)]
    exact h.nul

/-- A string stored with its NUL. -/
theorem holdsString_sprintf (hshort : str.length < f.size) :
    HoldsString (e.sprintf f.offset str) f str := by
  refine ⟨hshort, ?_, ?_⟩
  · show Cells.read (Cells.write e.bytes f.offset (str ++ [0])) f.offset str.length = str
    rw [Cells.write_append, Cells.read_write_of_outside _ _ _ _ _ (Or.inl (le_refl _)), Cells.read_write]
  · show Cells.write e.bytes f.offset (str ++ [0]) (f.offset + str.length) = 0
    rw [Cells.write_apply _ _ _ _ (by simp)]
    simp

/-- A string stored without its NUL where one is already. -/
theorem holdsString_strncpy (hshort : str.length < f.size) (h : e.bytes (f.offset + str.length) = 0) :
    HoldsString (e.strncpy f.offset str) f str := by
  refine ⟨hshort, Cells.read_write _ _ _, ?_⟩
  show Cells.write e.bytes f.offset str (f.offset + str.length) = 0
  rw [Cells.write_of_ge _ _ _ _ (le_refl _), h]

end

section
variable {s : Parse} {it : Items} {szPath : Option (List UInt8)}

theorem getD_all (it : Items) (j : Nat) : it.all.getD j default =
    if j = it.finished.length then it.current else it.finished.getD j default := by
  unfold Items.all
  rcases Nat.lt_trichotomy j it.finished.length with h | h | h
  · rw [if_neg (by omega), List.getD_eq_getElem?_getD, List.getElem?_append_left h,
      ← List.getD_eq_getElem?_getD]
  · subst h
    simp
  · rw [if_neg (by omega), List.getD_eq_getElem?_getD, List.getD_eq_getElem?_getD,
      List.getElem?_eq_none (by simp; omega), List.getElem?_eq_none (by omega)]

/-- A change of the current entry that keeps its link. -/
theorem Builds.modify (h : Builds s it) {g : ConfigEntry → ConfigEntry} {current : Item}
    (hnext : ∀ e, (g e).nextConfigEntry = e.nextConfigEntry)
    (hmatch : Matches (g (s.entry s.currentEntry)) current) (h0 : 0 ∉ current.title)
    (hblank : current.title = [] → ∀ k, k < 15 →
      (g (s.entry s.currentEntry)).bytes (offsetTitle + k) = 0) :
    Builds (s.modify g) { it with current := current } := by
  have hlt : s.currentEntry < s.entries.length := by
    rw [h.length, h.current]
    exact Nat.lt_succ_self _
  have hentry := entry_modify s g hlt
  refine ⟨?_, h.current, fun j => ?_, fun i hi => ?_, h0, fun hnil k hk => ?_⟩
  · rw [← h.length]
    exact List.length_modify ..
  · rw [hentry, getD_all]
    by_cases hj : j = s.currentEntry
    · rw [if_pos hj, hj, if_pos h.current]
      exact hmatch
    · have hm := h.matched j
      rw [getD_all, if_neg (by rw [← h.current]; exact hj)] at hm
      rwa [if_neg hj, if_neg (by rw [← h.current]; exact hj)]
  · have hlen : (s.modify g).entries.length = s.entries.length := List.length_modify ..
    have hc := h.chained i (by rwa [hlen] at hi)
    have hei := hentry i
    unfold Parse.entry at hei
    rw [hlen, hei, ← hc]
    split
    · exact hnext _
    · rfl
  · have hcur : (s.modify g).currentEntry = s.currentEntry := rfl
    rw [hcur, hentry, if_pos rfl]
    exact hblank hnil k hk

theorem HoldsString.congr {e e' : ConfigEntry} {f : Field} {v : List UInt8} (h : HoldsString e f v)
    (he : e'.bytes = e.bytes) : HoldsString e' f v :=
  ⟨h.short, by rw [he]; exact h.chars, by rw [he]; exact h.nul⟩

theorem Matches.congr {e e' : ConfigEntry} {i : Item} (h : Matches e i) (he : e'.bytes = e.bytes) :
    Matches e' i := ⟨h.title.congr he, h.kernel.congr he, h.initrd.congr he⟩

/-- The current entry of the code and of the reference. -/
theorem Builds.matched_current (h : Builds s it) : Matches (s.entry s.currentEntry) it.current := by
  have hm := h.matched s.currentEntry
  rwa [getD_all, if_pos h.current] at hm

/-- The test for a title. -/
theorem Builds.title_iff (h : Builds s it) :
    (s.entry s.currentEntry).bytes offsetTitle = 0 ↔ it.currentNamed = false := by
  have htitle := h.matched_current.title
  have h0 := h.nonzero
  rw [currentNamed_eq_false]
  cases hv : it.current.title with
  | nil =>
    rw [hv] at htitle
    exact iff_of_true htitle.nul rfl
  | cons c v =>
    have hchars := htitle.chars
    rw [hv] at hchars h0
    rw [List.length_cons, Cells.read_succ, List.cons.injEq] at hchars
    refine iff_of_false (fun hzero => h0 ?_) (by rintro ⟨⟩)
    rw [← hchars.1, ← hzero]
    exact List.mem_cons_self

theorem Builds.current_lt (h : Builds s it) : s.currentEntry < s.entries.length := by
  rw [h.length, h.current]
  exact Nat.lt_succ_self _

/-- The last entry leads to the new one. -/
theorem chained_snoc {entries : List ConfigEntry} {current : Nat} {e : ConfigEntry}
    (h : Chained entries) (hlast : current + 1 = entries.length) (he : e.nextConfigEntry = none) :
    Chained (entries.modify current (fun e => { e with nextConfigEntry := some entries.length })
      ++ [e]) := by
  intro i hi
  rw [List.length_append, List.length_modify, List.length_singleton] at hi ⊢
  rw [List.getD_eq_getElem?_getD]
  rcases Nat.lt_or_eq_of_le (Nat.lt_succ_iff.1 hi) with hlt | rfl
  · rw [List.getElem?_append_left (by rwa [List.length_modify]), List.getElem?_modify,
      if_pos (show i + 1 < entries.length + 1 by omega)]
    have hold := h i hlt
    rw [List.getD_eq_getElem?_getD, List.getElem?_eq_getElem hlt, Option.getD_some] at hold
    rw [List.getElem?_eq_getElem hlt, Option.map_eq_map, Option.map_some, Option.getD_some]
    by_cases hcur : current = i
    · rw [if_pos hcur, ← hlast, hcur]
    · rw [if_neg hcur]
      rw [if_pos (by omega)] at hold
      exact hold
  · rw [List.getElem?_append_right (by rw [List.length_modify]), List.length_modify, Nat.sub_self,
      if_neg (Nat.lt_irrefl _)]
    exact he

theorem Builds.chained_new (h : Builds s it) {v : List UInt8}
    (hset : (s.entry s.currentEntry).bytes offsetTitle ≠ 0) : Chained (setTitle s v).entries := by
  unfold Config.setTitle
  rw [if_neg (show ¬ (s.entries.getD s.currentEntry default).bytes offsetTitle = 0 from hset)]
  have hlast : s.currentEntry + 1 = s.entries.length := by rw [h.length, h.current]
  exact chained_snoc h.chained hlast rfl

/-- A title line. -/
theorem Builds.setTitle (h : Builds s it) {v : List UInt8} (hshort : v.length < 15) (h0 : 0 ∉ v) :
    Builds (setTitle s v) (if it.currentNamed then ⟨it.all, { (default : Item) with title := v }⟩
      else { it with current := { it.current with title := v } }) := by
  have hcurrent := h.matched_current
  have hsize : v.length ≤ Field.title.size := Nat.le_of_lt hshort
  cases hnil : it.currentNamed with
  | false =>
    have hset : Config.setTitle s v = s.modify (·.strncpy offsetTitle v) := if_pos (h.title_iff.2 hnil)
    have hblank := h.blank (currentNamed_eq_false.1 hnil)
    rw [hset, if_neg Bool.false_ne_true]
    refine h.modify (fun _ => rfl) ⟨?_, ?_, ?_⟩ h0 fun hv k hk => ?_
    · exact holdsString_strncpy (f := .title) hshort (hblank v.length hshort)
    · exact hcurrent.kernel.write_other (f := .title) (by decide) hsize
    · exact hcurrent.initrd.write_other (f := .title) (by decide) hsize
    · have hempty : v = [] := hv
      show Cells.write (s.entry s.currentEntry).bytes offsetTitle v (offsetTitle + k) = 0
      rw [hempty, Cells.write_nil]
      exact hblank k hk
  | true =>
    have hset : (s.entry s.currentEntry).bytes offsetTitle ≠ 0 := by
      rw [ne_eq, h.title_iff, hnil]
      exact Bool.true_eq_false_eq_False
    obtain ⟨h1, h2, h3, h4⟩ := entry_setTitle_new v hset h.current_lt
    have hall : it.all.length = s.entries.length := by rw [h.length, length_all]
    rw [if_pos rfl]
    refine ⟨by rw [h2, hall], by rw [h1, hall], fun j => ?_, h.chained_new hset, h0, fun hv k hk => ?_⟩
    · rw [getD_all]
      by_cases hj : j = s.entries.length
      · rw [hj, if_pos hall.symm, h3]
        exact ⟨holdsString_strncpy (f := .title) hshort rfl,
          matches_default.kernel.write_other (f := .title) (by decide) hsize,
          matches_default.initrd.write_other (f := .title) (by decide) hsize⟩
      · rw [if_neg (by rw [hall]; exact hj)]
        exact (h.matched j).congr (h4 j hj)
    · have hempty : v = [] := hv
      rw [h1, h3, hempty, ConfigEntry.strncpy, Cells.write_nil]
      rfl

theorem Builds.congr {s' : Parse} (h : Builds s it) (he : s'.entries = s.entries)
    (hc : s'.currentEntry = s.currentEntry) : Builds s' it := by
  have hentry (j : Nat) := entry_congr he j
  refine ⟨by rw [he]; exact h.length, by rw [hc]; exact h.current, fun j => ?_, by rw [he]; exact h.chained,
    h.nonzero, fun hnil k hk => ?_⟩
  · rw [hentry]
    exact h.matched j
  · rw [hc, hentry]
    exact h.blank hnil k hk

/-- A store into another array than the title's. -/
theorem Builds.store (h : Builds s it) {f : Field} {w : List UInt8} {current : Item} (hf : f ≠ .title)
    (hw : w.length ≤ f.size) (htitle : current.title = it.current.title)
    (hkernel : HoldsString { s.entry s.currentEntry with
      bytes := Cells.write (s.entry s.currentEntry).bytes f.offset w } .kernel current.kernel)
    (hinitrd : HoldsString { s.entry s.currentEntry with
      bytes := Cells.write (s.entry s.currentEntry).bytes f.offset w } .initrd current.initrd) :
    Builds (s.modify fun e => { e with bytes := Cells.write e.bytes f.offset w })
      { it with current := current } := by
  have hbehind : offsetTitle + 15 ≤ f.offset := by
    cases f with
    | title => exact absurd rfl hf
    | kernel => decide
    | initrd => decide
    | append => decide
  refine h.modify (fun _ => rfl) ⟨?_, hkernel, hinitrd⟩ (htitle ▸ h.nonzero) fun hnil k hk => ?_
  · rw [htitle]
    exact h.matched_current.title.write_other hf.symm hw
  · show Cells.write (s.entry s.currentEntry).bytes f.offset w (offsetTitle + k) = 0
    rw [Cells.write_of_lt _ _ _ _ (by omega)]
    exact h.blank (htitle ▸ hnil) k hk

/-- **One line** that does not run on and is short. -/
theorem Builds.step {s' : Parse} {line v : List UInt8} (h : Builds s it)
    (hstores : Stores szPath s s' (fieldOf (token line), v))
    (hown : fieldOf (token line) ≠ none → v = ownValue line)
    (hshort : Short szPath (fieldOf (token line), ownValue line)) (h0 : 0 ∉ ownValue line) :
    Builds s' (readLine Items.currentNamed szPath it line) := by
  obtain ⟨hentries, hcurrent⟩ := hstores
  refine Builds.congr ?_ hentries hcurrent
  have hmatched := h.matched_current
  have hsize : ∀ {f : Field} {str : List UInt8}, str.length < f.size →
      (str ++ [0]).length ≤ f.size := by
    intro f str hlt
    rw [List.length_append]
    exact hlt
  unfold readLine storeDirective
  cases hf : fieldOf (token line) with
  | none => exact h
  | some f =>
    rw [hf] at hown hshort
    obtain rfl := hown (by rintro ⟨⟩)
    cases f with
    | title => exact h.setTitle (hshort .title _ rfl rfl) h0
    | kernel =>
      have hfits := hshort .kernel _ rfl rfl
      refine h.store (f := .kernel) (by decide) (hsize hfits) rfl ?_ ?_
      · exact holdsString_sprintf hfits
      · exact hmatched.initrd.write_other (by decide) (hsize hfits)
    | initrd =>
      by_cases hno : (chars ['n', 'o']).isPrefixOf ((ownValue line).map slash) = true
      · simp only [storeField, stored, hno, if_true]
        exact h
      · have hfits := hshort .initrd (withPath szPath ((ownValue line).map slash)) rfl (if_neg hno)
        simp only [storeField, stored, hno, Bool.false_eq_true, if_false]
        refine h.store (f := .initrd) (by decide) (hsize hfits) rfl ?_ ?_
        · exact hmatched.kernel.write_other (by decide) (hsize hfits)
        · exact holdsString_sprintf hfits
    | append =>
      have hfits : (ownValue line).length ≤ Field.append.size :=
        Nat.le_of_lt (hshort .append _ rfl rfl)
      refine h.store (f := .append) (by decide) hfits rfl ?_ ?_
      · exact hmatched.kernel.write_other (by decide) hfits
      · exact hmatched.initrd.write_other (by decide) hfits

theorem parseLoop_none_ok {fuel : Nat} {r : Parse} (hok : parseLoop szPath fuel s none = .ok r) :
    r = s := by
  cases fuel with
  | zero => cases hok
  | succ fuel =>
    rw [parseLoop_none] at hok
    exact (Except.ok.inj hok).symm

/-- **The lines that are left** build what is read line by line. -/
theorem left_builds {ls : List (List UInt8)} {behind : List UInt8} {pos : Option Nat} {fuel : Nat}
    {r : Parse} (hleft : Left s pos behind ls) (hrun : NoRunOn behind ls)
    (hshort : ∀ line ∈ ls, Short szPath (fieldOf (token line), ownValue line))
    (h0 : ∀ line ∈ ls, 0 ∉ ownValue line) (hok : parseLoop szPath fuel s pos = .ok r)
    (h : Builds s it) : Builds r (ls.foldl (readLine Items.currentNamed szPath) it) := by
  induction ls generalizing behind s it pos fuel with
  | nil =>
    cases pos with
    | some a => exact absurd rfl hleft.2.1
    | none =>
      rw [parseLoop_none_ok hok]
      exact h
  | cons line ls ih =>
    cases pos with
    | none =>
      rw [readLines_of_none (fields_of_none hleft.2), parseLoop_none_ok hok]
      exact h
    | some a =>
      obtain ⟨param, s', pos', -, hturn, hstores, hleft', -⟩ := turn_spec hleft.1 hleft.2.2 hok
      obtain ⟨hone, hrest⟩ := List.forall_mem_cons.1 hshort
      obtain ⟨hline0, hrest0⟩ := List.forall_mem_cons.1 h0
      cases fuel with
      | zero => cases hok
      | succ fuel =>
        rw [hturn.parseLoop] at hok
        rw [nextLines_of_alone hrun.1] at hleft'
        have hown : fieldOf (token line) ≠ none → lineValue behind line ls = ownValue line :=
          fun hf => (lineValue_own_iff behind line ls).2 (hrun.1.imp id fun h => h.resolve_left hf)
        exact ih hleft' hrun.2 hrest hrest0 hok (h.step hstores hown hone hline0)

end

/-! ## The result -/

/-- The search for the default entry changes no array and no link. -/
theorem markDefault_keeps (title : List UInt8) (n : Nat) (entries : List ConfigEntry) (i : Option Nat) :
    (markDefault title n entries i).length = entries.length ∧
      ∀ j, ((markDefault title n entries i).getD j default).bytes = (entries.getD j default).bytes ∧
        ((markDefault title n entries i).getD j default).nextConfigEntry =
          (entries.getD j default).nextConfigEntry ∧
        ((markDefault title n entries i).getD j default).previousConfigEntry =
          (entries.getD j default).previousConfigEntry := by
  induction n generalizing i with
  | zero => exact ⟨rfl, fun _ => ⟨rfl, rfl, rfl⟩⟩
  | succ n ih =>
    cases i with
    | none => exact ⟨rfl, fun _ => ⟨rfl, rfl, rfl⟩⟩
    | some i =>
      rw [markDefault]
      split
      · refine ⟨List.length_modify .., fun j => ?_⟩
        rw [List.getD_eq_getElem?_getD, List.getD_eq_getElem?_getD, List.getElem?_modify]
        by_cases hij : i = j
        · cases hj : entries[j]? with
          | none => simp
          | some e => simp [hij]
        · simp [hij]
      · exact ih _

/-- A parse that ends well has a loop that built the same arrays and links. -/
theorem parseConfig_entries {mem : Nat → UInt8} {contents : List UInt8} {szPath : Option (List UInt8)}
    {r : Parse} (hok : parseConfig (Cells.write mem 0 contents) contents.length szPath = .ok r) :
    ∃ s, parseLoop szPath (contents.length + 2) ⟨loaded mem contents, [default], 0, none⟩ (some 0) =
        .ok s ∧ r.entries.length = s.entries.length ∧
      ∀ j, (r.entry j).bytes = (s.entry j).bytes ∧
        (r.entry j).nextConfigEntry = (s.entry j).nextConfigEntry ∧
        (r.entry j).previousConfigEntry = (s.entry j).previousConfigEntry := by
  obtain ⟨s, hs⟩ := parseLoop_ok hok
  have hbind : ∀ f : Parse → Except Fault Parse, (Except.ok s >>= f) = f s := fun _ => rfl
  rw [parseConfig_loop, hs, hbind] at hok
  refine ⟨s, hs, ?_⟩
  cases hd : s.defaultTitle with
  | none =>
    rw [hd] at hok
    obtain rfl := Except.ok.inj hok
    exact ⟨rfl, fun _ => ⟨rfl, rfl, rfl⟩⟩
  | some a =>
    rw [hd] at hok
    simp only at hok
    cases ht : string s.buf a with
    | error e =>
      rw [ht] at hok
      cases hok
    | ok title =>
      rw [ht] at hok
      obtain rfl := Except.ok.inj hok
      exact markDefault_keeps title _ s.entries (some 0)

/-! ## Top theorem -/

section
variable {szPath : Option (List UInt8)} {contents : List UInt8}

theorem zero_notMem_ownValue (contents : List UInt8) : ∀ line ∈ textLines contents, 0 ∉ ownValue line := by
  intro line hline h0
  have htext : unlines (textLines contents) = cstr contents := List.intercalate_splitOn (0x0a : UInt8)
  refine zero_notMem_strip (fun hown => ?_) h0
  have hmem := subset_unlines hline 0 (ownText_subset hown)
  rw [htext] at hmem
  exact absurd (List.mem_takeWhile_imp hmem) (by simp)

theorem builds_start (mem : Nat → UInt8) (contents : List UInt8) :
    Builds ⟨loaded mem contents, [default], 0, none⟩ ⟨[], default⟩ := by
  refine ⟨rfl, rfl, fun j => ?_, fun i hi => ?_, List.not_mem_nil, fun _ _ _ => rfl⟩
  · cases j <;> exact matches_default
  · obtain rfl : i = 0 := Nat.lt_one_iff.1 hi
    rfl

/-- With all values their own lines' and short, the entries are those described exactly when
the titles allow it. -/
theorem readAs_iff {r s : Parse} (hlength : r.entries.length = s.entries.length)
    (hkeeps : ∀ j, (r.entry j).bytes = (s.entry j).bytes ∧
      (r.entry j).nextConfigEntry = (s.entry j).nextConfigEntry ∧
      (r.entry j).previousConfigEntry = (s.entry j).previousConfigEntry)
    (hbuilds : Builds s
      ((textLines contents).foldl (readLine Items.currentNamed szPath) ⟨[], default⟩)) :
    ReadAs r (readEntries szPath contents) ↔ Titled (titleValues (textLines contents)) := by
  obtain ⟨hagree, hcount⟩ := readings_iff szPath (textLines contents) ⟨[], default⟩
    (by
      intro x v y hsplit
      have hlen := congrArg List.length hsplit
      simp [Items.titles, Items.all] at hlen
      omega)
  have htitles : Titled ((⟨[], default⟩ : Items).titles ++ titleValues (textLines contents)) ↔
      Titled (titleValues (textLines contents)) := titled_nil_cons
  rw [htitles] at hagree hcount
  constructor
  · intro hread
    apply hcount
    rw [length_all, ← hbuilds.length, ← hlength]
    exact hread.length
  · intro htitled
    rw [hagree htitled] at hbuilds
    refine ⟨?_, fun j _ => (hbuilds.matched j).congr (hkeeps j).1, fun i hi => ?_⟩
    · rw [hlength, hbuilds.length, readEntries, length_all]
    · rw [hlength] at hi ⊢
      rw [← hbuilds.chained i hi]
      exact (hkeeps i).2.1

end

end Gentoox.Config
