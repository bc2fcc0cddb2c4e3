import GentooxLoader.Config.Pointer

/-!
# The default entry (lib/misc/BootParser.c)

When all lines are read the parser compares as many characters of each title as the
string has that `defaultTitle` points to, so that it marks the first entry whose title
begins with it.

    markDefault_spec   which entry the search marks
    default_iff        the first entry with the value as its title is marked
-/

namespace Gentoox.Config

open Lib

/-! ## The property -/

/-- `!strncmp(title, value, strlen(value))` -/
def TitleBegins (value : List UInt8) (e : ConfigEntry) : Prop :=
  Cells.read e.bytes offsetTitle value.length = value

/-- The title is the value. -/
def TitleIs (value : List UInt8) (e : ConfigEntry) : Prop :=
  TitleBegins value e ∧ e.bytes (offsetTitle + value.length) = 0

instance (value : List UInt8) (e : ConfigEntry) : Decidable (TitleBegins value e) :=
  inferInstanceAs (Decidable (_ = _))

instance (value : List UInt8) (e : ConfigEntry) : Decidable (TitleIs value e) :=
  inferInstanceAs (Decidable (_ ∧ _))

/-- Entry `j` is the first of this kind. -/
def FirstOf (P : ConfigEntry → Prop) (s : Parse) (j : Nat) : Prop :=
  P (s.entry j) ∧ ∀ i < j, ¬ P (s.entry i)

instance (P : ConfigEntry → Prop) [DecidablePred P] (s : Parse) (j : Nat) : Decidable (FirstOf P s j) :=
  inferInstanceAs (Decidable (_ ∧ _))

/-- The first entry with this title is marked, and no other. -/
def MarksFirst (r : Parse) (value : List UInt8) : Prop :=
  ∀ j < r.entries.length, (r.entry j).isDefault ≠ 0 ↔ FirstOf (TitleIs value) r j

/-- When this string is compared, the search finds what has `value` as its title: the
first title that begins with the string is the value, or, where the string is another
one, no title begins with it and none is the value. -/
def Finds (s : Parse) (value compared : List UInt8) : Prop :=
  if compared = value then
    ∀ j < s.entries.length, FirstOf (TitleBegins compared) s j → TitleIs value (s.entry j)
  else ∀ j < s.entries.length, ¬ TitleBegins compared (s.entry j) ∧ ¬ TitleIs value (s.entry j)

/-! ## The search -/

theorem getD_modify {l : List ConfigEntry} {f : ConfigEntry → ConfigEntry} {i j : Nat}
    (hj : j < l.length) : (l.modify i f).getD j default =
      if i = j then f (l.getD j default) else l.getD j default := by
  rw [List.getD_eq_getElem?_getD, List.getD_eq_getElem?_getD, List.getElem?_modify,
    List.getElem?_eq_getElem hj]
  split <;> rfl

/-- **The search** marks the first entry whose title begins with the value. -/
theorem markDefault_spec (value : List UInt8) {s : Parse} (hgrown : Grown s) (k i : Nat)
    (hk : i + k = s.entries.length) (hbefore : ∀ m < i, ¬ TitleBegins value (s.entry m)) :
    ∀ j < s.entries.length,
      ((markDefault value k s.entries (if i < s.entries.length then some i else none)).getD j
        default).isDefault ≠ 0 ↔ FirstOf (TitleBegins value) s j := by
  induction k generalizing i with
  | zero =>
    intro j hj
    rw [if_neg (by omega)]
    exact iff_of_false (fun h => h (hgrown.unmarked j)) fun h => hbefore j (by omega) h.1
  | succ k ih =>
    intro j hj
    have hi : i < s.entries.length := by omega
    rw [if_pos hi, markDefault]
    by_cases hbegins : Cells.read (s.entries.getD i default).bytes offsetTitle value.length = value
    · rw [if_pos hbegins, getD_modify hj]
      by_cases hij : i = j
      · subst hij
        rw [if_pos rfl]
        exact iff_of_true Int.one_ne_zero ⟨hbegins, hbefore⟩
      · rw [if_neg hij]
        refine iff_of_false (fun h => h (hgrown.unmarked j)) fun h => ?_
        rcases Nat.lt_or_gt_of_ne hij with hlt | hgt
        · exact h.2 i hlt hbegins
        · exact hbefore j hgt h.1
    · rw [if_neg hbegins, hgrown.chained i hi]
      refine ih (i + 1) (by omega) (fun m hm => ?_) j hj
      rcases Nat.lt_or_eq_of_le (Nat.lt_succ_iff.1 hm) with hlt | rfl
      · exact hbefore m hlt
      · exact hbegins

/-! ## Top theorem -/

section
variable {szPath : Option (List UInt8)} {contents : List UInt8} {s t r : Parse}

theorem firstOf_congr {P : ConfigEntry → Prop} (h : ∀ j, P (s.entry j) ↔ P (t.entry j)) (j : Nat) :
    FirstOf P s j ↔ FirstOf P t j := by
  unfold FirstOf
  rw [h j]
  exact and_congr_right fun _ => forall_congr' fun i => by rw [h i]

theorem titleBegins_congr (value : List UInt8) {e e' : ConfigEntry} (h : e.bytes = e'.bytes) :
    TitleBegins value e ↔ TitleBegins value e' := by
  unfold TitleBegins
  rw [h]

theorem titleIs_congr (value : List UInt8) {e e' : ConfigEntry} (h : e.bytes = e'.bytes) :
    TitleIs value e ↔ TitleIs value e' := by
  unfold TitleIs
  rw [titleBegins_congr value h, h]

theorem exists_firstOf {P : ConfigEntry → Prop} {j : Nat} (h : P (s.entry j)) :
    ∃ m ≤ j, FirstOf P s m := by
  classical
  have hsome : ∃ m, P (s.entry m) := ⟨j, h⟩
  exact ⟨Nat.find hsome, Nat.find_min' hsome h, Nat.find_spec hsome, fun m hm => Nat.find_min hsome hm⟩

/-- The first title that begins with the value is the first that is it. -/
theorem firstOf_iff {value : List UInt8} {n : Nat} :
    (∀ j < n, FirstOf (TitleBegins value) s j ↔ FirstOf (TitleIs value) s j) ↔
      ∀ j < n, FirstOf (TitleBegins value) s j → TitleIs value (s.entry j) := by
  constructor
  · exact fun h j hj hfirst => ((h j hj).1 hfirst).1
  · intro h j hj
    refine ⟨fun hfirst => ⟨h j hj hfirst, fun i hi his => hfirst.2 i hi his.1⟩, fun hfirst => ?_⟩
    refine ⟨hfirst.1.1, fun i hi hbegins => ?_⟩
    -- the least entry that begins with the value is the value, and comes before `j`
    obtain ⟨m, hm, hleast⟩ := exists_firstOf hbegins
    have his := h m (by omega) hleast
    exact hfirst.2 m (by omega) his

/-- A title that begins with some character is not empty. -/
theorem titleBegins_nonempty {c : List UInt8} {e : ConfigEntry} (hne : c ≠ []) (h0 : 0 ∉ c)
    (h : TitleBegins c e) : ¬ TitleIs [] e := by
  obtain ⟨x, c, rfl⟩ := List.exists_cons_of_ne_nil hne
  unfold TitleBegins at h
  rw [List.length_cons, Cells.read_succ, List.cons.injEq] at h
  rintro ⟨-, hnul⟩
  apply h0
  rw [← h.1]
  exact List.mem_cons.2 (Or.inl hnul.symm)

/-- The search marks the first entry with the value as its title. -/
theorem finds_iff {value c : List UInt8} (hcase : c = value ∨ value = []) (h0 : 0 ∉ c) :
    (∀ j < s.entries.length, FirstOf (TitleBegins c) s j ↔ FirstOf (TitleIs value) s j) ↔
      Finds s value c := by
  unfold Finds
  by_cases hc : c = value
  · rw [if_pos hc, hc]
    exact firstOf_iff
  · rw [if_neg hc]
    obtain rfl := hcase.resolve_left hc
    constructor
    · intro h j hj
      refine ⟨fun hbegins => ?_, fun his => ?_⟩
      · obtain ⟨m, hm, hfirst⟩ := exists_firstOf hbegins
        exact titleBegins_nonempty hc h0 hfirst.1 ((h m (by omega)).1 hfirst).1
      · obtain ⟨m, hm, hfirst⟩ := exists_firstOf (P := TitleIs []) his
        exact titleBegins_nonempty hc h0 ((h m (by omega)).2 hfirst).1 hfirst.1
    · intro h j hj
      exact iff_of_false (fun hfirst => (h j hj).1 hfirst.1) fun hfirst => (h j hj).2 hfirst.1

/-- The entries after the search for the value at `p`. -/
theorem parseConfig_marks {mem : Nat → UInt8} {p : Nat}
    (hok : parseConfig (Cells.write mem 0 contents) contents.length szPath = .ok r)
    (hs : parseLoop szPath (contents.length + 2) ⟨loaded mem contents, [default], 0, none⟩ (some 0) =
      .ok s) (hp : s.defaultTitle = some p) :
    ∃ value, string s.buf p = .ok value ∧
      r.entries = markDefault value s.entries.length s.entries (some 0) := by
  have hbind : ∀ f : Parse → Except Fault Parse, (Except.ok s >>= f) = f s := fun _ => rfl
  rw [parseConfig_loop, hs, hbind, hp] at hok
  simp only at hok
  cases hvalue : string s.buf p with
  | error e =>
    rw [hvalue] at hok
    cases hok
  | ok value =>
    rw [hvalue] at hok
    obtain rfl := Except.ok.inj hok
    exact ⟨value, rfl, rfl⟩

/-- Which entry a parse marks. -/
theorem marksFirst_iff {mem : Nat → UInt8} {p : Nat} {v : List UInt8}
    (hok : parseConfig (Cells.write mem 0 contents) contents.length szPath = .ok r)
    (hs : parseLoop szPath (contents.length + 2) ⟨loaded mem contents, [default], 0, none⟩ (some 0) =
      .ok s) (hp : s.defaultTitle = some p) :
    ∃ value, string s.buf p = .ok value ∧ (MarksFirst r v ↔
      ∀ j < (built szPath (directives contents)).entries.length,
        (FirstOf (TitleBegins value) (built szPath (directives contents)) j ↔
          FirstOf (TitleIs v) (built szPath (directives contents)) j)) := by
  obtain ⟨value, hvalue, hentries⟩ := parseConfig_marks hok hs hp
  obtain ⟨hbuilt, hcurrent⟩ := parseLoop_built hs
  have hgrown := (built_entry szPath contents).1.congr hbuilt hcurrent
  obtain ⟨hlength, hkeeps⟩ := markDefault_keeps value s.entries.length s.entries (some 0)
  rw [← hentries] at hlength hkeeps
  have hpos : 0 < s.entries.length := by
    rw [hgrown.last]
    exact Nat.succ_pos _
  have hsame : ∀ j, (r.entry j).bytes = ((built szPath (directives contents)).entry j).bytes := by
    intro j
    rw [← entry_congr hbuilt]
    exact (hkeeps j).1
  refine ⟨value, hvalue, ?_⟩
  unfold MarksFirst
  rw [hlength, ← hbuilt]
  refine forall_congr' fun j => forall_congr' fun hj => ?_
  have hmark := markDefault_spec value hgrown s.entries.length 0 (Nat.zero_add _)
    (fun m hm => absurd hm (Nat.not_lt_zero m)) j hj
  rw [if_pos hpos, ← hentries] at hmark
  have hbegins := firstOf_congr (fun i => titleBegins_congr value
    (congrArg ConfigEntry.bytes (entry_congr hbuilt i))) j
  have his := firstOf_congr (fun i => titleIs_congr v (hsame i)) j
  rw [show (r.entry j).isDefault ≠ 0 ↔ _ from hmark, hbegins, his]

end

/-- A line without a blank has no value of its own. -/
theorem ownValue_of_not {line : List UInt8} (h : line.any isBlank = false) : ownValue line = [] := by
  have hdrop : line.dropWhile (!isBlank ·) = [] := by
    rw [List.dropWhile_eq_nil_iff]
    intro c hc
    rw [Bool.eq_false_iff.2 (List.any_eq_false.1 h c hc)]
    rfl
  rw [ownValue, ownText, hdrop]
  rfl

end Gentoox.Config
