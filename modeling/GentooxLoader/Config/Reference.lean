import GentooxLoader.Config.Lines

/-!
# Reading a configuration line by line

`readEntries` says what a configuration means: each directive has the value of
its own line, the first title with a value names the first entry, every later
title line opens an entry, and in an entry the last line of a kind counts.

The parser looks at the title of the current entry alone, so that a title line
without a value is overtaken by the next one.  Read that way the entries are the
same exactly when the title lines are `Titled`:

    readings_iff      the two readings agree, and only then are they of one length

The value of a directive is its own line's when it does not run on (`NoRunOn`).
-/

namespace Gentoox.Config

open Lib

/-! ## The reference -/

/-- What is read into an entry. -/
structure Item where
  title : List UInt8
  kernel : List UInt8
  initrd : List UInt8
  deriving DecidableEq

instance : Inhabited Item := ⟨⟨[], [], []⟩⟩

/-- The entries that are complete, and the current one. -/
structure Items where
  finished : List Item
  current : Item

def Items.all (it : Items) : List Item := it.finished ++ [it.current]

def Items.titles (it : Items) : List (List UInt8) := it.all.map Item.title

/-- Some title has a value. -/
def Items.named (it : Items) : Bool := it.titles.any (· != [])

/-- The title of the current entry has a value. -/
def Items.currentNamed (it : Items) : Bool := it.current.title != []

/-- The value that stands in a line. -/
def ownValue (line : List UInt8) : List UInt8 := strip (ownText line)

/-- A line; `opens` says whether a title line opens an entry. -/
def readLine (opens : Items → Bool) (szPath : Option (List UInt8)) (it : Items) (line : List UInt8) :
    Items :=
  let value := ownValue line
  match fieldOf (token line) with
  | some .title =>
    if opens it then ⟨it.all, { (default : Item) with title := value }⟩
    else { it with current := { it.current with title := value } }
  | some .kernel =>
    { it with current := { it.current with kernel := withPath szPath (value.map slash) } }
  | some .initrd =>
    if (chars ['n', 'o']).isPrefixOf (value.map slash) then it
    else { it with current := { it.current with initrd := withPath szPath (value.map slash) } }
  | _ => it

/-- The entries of a text. -/
def readEntries (szPath : Option (List UInt8)) (contents : List UInt8) : List Item :=
  ((textLines contents).foldl (readLine Items.named szPath) ⟨[], default⟩).all

/-! ## Title lines without a value -/

/-- The values of the title lines. -/
def titleValues (ls : List (List UInt8)) : List (List UInt8) :=
  (ls.filter fun line => fieldOf (token line) == some .title).map ownValue

/-- A title without a value is the last, or none before it has one. -/
def Titled (titles : List (List UInt8)) : Prop :=
  ∀ x v y, titles = x ++ [] :: v :: y → ∀ t ∈ x, t = []

theorem titled_nil_cons {titles : List (List UInt8)} : Titled ([] :: titles) ↔ Titled titles := by
  constructor
  · intro h x v y hsplit t ht
    exact h ([] :: x) v y (by rw [hsplit, List.cons_append]) t (List.mem_cons_of_mem _ ht)
  · intro h x v y hsplit
    cases x with
    | nil =>
      intro t ht
      cases ht
    | cons u x =>
      obtain ⟨rfl, hrest⟩ := List.cons.inj hsplit
      exact List.forall_mem_cons.2 ⟨rfl, h x v y hrest⟩

theorem titled_append {blank titles : List (List UInt8)} (hblank : ∀ t ∈ blank, t = []) :
    Titled (blank ++ titles) ↔ Titled titles := by
  induction blank with
  | nil => rfl
  | cons u blank ih =>
    obtain ⟨rfl, hrest⟩ := List.forall_mem_cons.1 hblank
    rw [List.cons_append, titled_nil_cons, ih hrest]

/-- A title behind one that has a value. -/
theorem titled_concat {titles : List (List UInt8)} {t v : List UInt8} (h : Titled (titles ++ [t]))
    (ht : t ≠ []) : Titled (titles ++ [t] ++ [v]) := by
  intro x w y hsplit
  rcases List.eq_nil_or_concat y with rfl | ⟨y, z, rfl⟩
  · have hback := congrArg List.reverse hsplit
    simp at hback
    exact absurd hback.2.1 ht
  · have hback := congrArg List.dropLast hsplit
    rw [List.dropLast_concat, show x ++ [] :: w :: y.concat z = (x ++ [] :: w :: y) ++ [z] by simp,
      List.dropLast_concat] at hback
    exact h x w y hback

theorem titled_of_ne {titles : List (List UInt8)} (h : ∀ t ∈ titles, t ≠ []) : Titled titles := by
  rintro x v y rfl
  exact absurd rfl (h [] (by simp))

section
variable {opens : Items → Bool} {szPath : Option (List UInt8)} {it : Items} {line : List UInt8}

/-- The entries after a title that opens one. -/
def Items.opened (it : Items) (title : List UInt8) : Items :=
  ⟨it.all, { (default : Item) with title := title }⟩

/-- The entries after a title for the current one. -/
def Items.renamed (it : Items) (title : List UInt8) : Items :=
  { it with current := { it.current with title := title } }

theorem readLine_title (h : fieldOf (token line) = some .title) : readLine opens szPath it line =
    if opens it then it.opened (ownValue line) else it.renamed (ownValue line) := by
  unfold readLine
  rw [h]
  rfl

/-- Another line changes the current entry, and not its title. -/
theorem readLine_other (szPath : Option (List UInt8)) (it : Items)
    (h : fieldOf (token line) ≠ some .title) :
    ∃ current : Item, current.title = it.current.title ∧
      ∀ opens, readLine opens szPath it line = { it with current := current } := by
  unfold readLine
  cases hf : fieldOf (token line) with
  | none => exact ⟨it.current, rfl, fun _ => rfl⟩
  | some f =>
    cases f with
    | title => exact absurd hf h
    | kernel =>
      exact ⟨{ it.current with kernel := withPath szPath ((ownValue line).map slash) }, rfl, fun _ => rfl⟩
    | append => exact ⟨it.current, rfl, fun _ => rfl⟩
    | initrd =>
      by_cases hno : (chars ['n', 'o']).isPrefixOf ((ownValue line).map slash) = true
      · exact ⟨it.current, rfl, fun _ => by simp only [hno, if_true]⟩
      · exact ⟨{ it.current with initrd := withPath szPath ((ownValue line).map slash) }, rfl,
          fun _ => by simp only [hno, Bool.false_eq_true, if_false]⟩

theorem titles_eq (it : Items) : it.titles = it.finished.map Item.title ++ [it.current.title] := by
  simp [Items.titles, Items.all]

theorem length_all (it : Items) : it.all.length = it.finished.length + 1 := by
  simp [Items.all]

theorem length_opened (it : Items) (title : List UInt8) :
    (it.opened title).all.length = it.all.length + 1 := by
  simp [Items.opened, Items.all]

theorem length_renamed (it : Items) (title : List UInt8) :
    (it.renamed title).all.length = it.all.length := by
  simp [Items.renamed, Items.all]

theorem named_eq_false : it.named = false ↔ ∀ t ∈ it.titles, t = [] := by
  simp [Items.named]

theorem currentNamed_eq_false : it.currentNamed = false ↔ it.current.title = [] := by
  simp [Items.currentNamed]

theorem named_of_current (h : it.currentNamed = true) : it.named = true := by
  rw [Items.named, titles_eq, List.any_append]
  simp only [List.any_cons, List.any_nil, Bool.or_false]
  rw [show (it.current.title != []) = true from h, Bool.or_true]

variable (szPath) in
/-- The reading that looks at the current entry alone has no more entries. -/
theorem length_readLine_le (ls : List (List UInt8)) {m t : Items} {k : Nat}
    (hnamed : m.currentNamed = true → t.named = true) (hle : m.all.length + k ≤ t.all.length) :
    (ls.foldl (readLine Items.currentNamed szPath) m).all.length + k ≤
      (ls.foldl (readLine Items.named szPath) t).all.length := by
  induction ls generalizing m t with
  | nil => exact hle
  | cons line ls ih =>
    rw [List.foldl_cons, List.foldl_cons]
    by_cases hf : fieldOf (token line) = some .title
    · have hvalue : ∀ i j : Items, i.current.title = j.current.title → i.currentNamed = true →
          j.named = true := fun i j h hi => named_of_current (by rw [Items.currentNamed, ← h]; exact hi)
      rw [readLine_title hf, readLine_title hf]
      cases hm : m.currentNamed with
      | true =>
        rw [hnamed hm, if_pos rfl, if_pos rfl]
        exact ih (hvalue _ _ rfl) (by rw [length_opened, length_opened]; omega)
      | false =>
        rw [if_neg Bool.false_ne_true]
        cases ht : t.named with
        | true =>
          rw [if_pos rfl]
          exact ih (hvalue _ _ rfl) (by rw [length_renamed, length_opened]; omega)
        | false =>
          rw [if_neg Bool.false_ne_true]
          exact ih (hvalue _ _ rfl) (by rw [length_renamed, length_renamed]; omega)
    · obtain ⟨c, hc, hm⟩ := readLine_other szPath m hf
      obtain ⟨d, hd, ht⟩ := readLine_other szPath t hf
      rw [hm, ht]
      refine ih (fun h => ?_) (by simpa [Items.all] using hle)
      have hkeep : ({ t with current := d } : Items).titles = t.titles := by
        rw [titles_eq, titles_eq, hd]
      rw [Items.named, hkeep]
      apply hnamed
      rwa [Items.currentNamed, hc] at h

theorem titles_opened (it : Items) (title : List UInt8) :
    (it.opened title).titles = it.titles ++ [title] := by
  simp [Items.opened, Items.titles, Items.all]

/-- A title that only the current entry lacked, as all before it. -/
theorem titled_renamed (hn : it.named = false) (title : List UInt8) (rest : List (List UInt8)) :
    Titled ((it.renamed title).titles ++ rest) ↔ Titled (it.titles ++ title :: rest) := by
  have hblank := named_eq_false.1 hn
  have hfinished : ∀ t ∈ it.finished.map Item.title, t = [] := fun t ht =>
    hblank t (by rw [titles_eq]; exact List.mem_append_left _ ht)
  rw [titled_append hblank, titles_eq, List.append_assoc, Items.renamed, titled_append hfinished]
  rfl

/-- One title behind blank ones is titled. -/
theorem titled_renamed_self (hn : it.named = false) (title : List UInt8) :
    Titled (it.renamed title).titles := by
  rw [← List.append_nil (it.renamed title).titles, titled_renamed hn,
    titled_append (named_eq_false.1 hn)]
  intro x v y hsplit
  have hlen := congrArg List.length hsplit
  simp at hlen
  omega

/-- A title for a blank entry that is behind one with a title. -/
theorem not_titled_of_named (hc : it.currentNamed = false) (hn : it.named = true)
    (title : List UInt8) (rest : List (List UInt8)) : ¬ Titled (it.titles ++ title :: rest) := by
  intro htitled
  have hempty := currentNamed_eq_false.1 hc
  rw [titles_eq, List.append_assoc, List.singleton_append, hempty] at htitled
  have hblank : it.named = false := by
    rw [named_eq_false, titles_eq, hempty]
    intro t ht
    rcases List.mem_append.1 ht with ht | ht
    · exact htitled _ _ _ rfl t ht
    · exact List.mem_singleton.1 ht
  rw [hblank] at hn
  cases hn

variable (szPath) in
/-- **The two readings** agree on lines that are titled, and have different
numbers of entries on others. -/
theorem readings_iff (ls : List (List UInt8)) (it : Items) (h : Titled it.titles) :
    (Titled (it.titles ++ titleValues ls) → ls.foldl (readLine Items.currentNamed szPath) it =
      ls.foldl (readLine Items.named szPath) it) ∧
    ((ls.foldl (readLine Items.currentNamed szPath) it).all.length =
      (ls.foldl (readLine Items.named szPath) it).all.length → Titled (it.titles ++ titleValues ls)) := by
  induction ls generalizing it with
  | nil =>
    refine ⟨fun _ => rfl, fun _ => ?_⟩
    rwa [titleValues, List.filter_nil, List.map_nil, List.append_nil]
  | cons line ls ih =>
    rw [List.foldl_cons, List.foldl_cons]
    by_cases hf : fieldOf (token line) = some .title
    · have hvalues : titleValues (line :: ls) = ownValue line :: titleValues ls := by
        simp [titleValues, hf]
      rw [hvalues, readLine_title hf, readLine_title hf]
      cases hc : it.currentNamed with
      | true =>
        -- both open an entry
        rw [named_of_current hc, if_pos rfl]
        have hnext : Titled (it.opened (ownValue line)).titles := by
          rw [titles_opened, titles_eq]
          rw [titles_eq] at h
          exact titled_concat h (by simpa [Items.currentNamed] using hc)
        have hstep := ih _ hnext
        rwa [titles_opened, List.append_assoc] at hstep
      | false =>
        rw [if_neg Bool.false_ne_true]
        cases hn : it.named with
        | false =>
          -- both name the current entry
          rw [if_neg Bool.false_ne_true]
          have hstep := ih _ (titled_renamed_self hn (ownValue line))
          rwa [titled_renamed hn] at hstep
        | true =>
          -- only the reference opens an entry
          rw [if_pos rfl]
          have hnot := not_titled_of_named hc hn (ownValue line) (titleValues ls)
          refine ⟨fun htitled => absurd htitled hnot, fun hlen => ?_⟩
          have hle := length_readLine_le szPath ls (k := 1) (m := it.renamed (ownValue line))
            (t := it.opened (ownValue line)) (fun hm => named_of_current hm)
            (by rw [length_renamed, length_opened])
          omega
    · obtain ⟨c, hc, hsame⟩ := readLine_other szPath it hf
      have hvalues : titleValues (line :: ls) = titleValues ls := by
        simp [titleValues, hf]
      have htitles : ({ it with current := c } : Items).titles = it.titles := by
        rw [titles_eq, titles_eq, hc]
      rw [hvalues, hsame, hsame, ← htitles]
      exact ih _ (by rwa [htitles])

end

/-! ## Values that do not run on -/

/-- The first of these lines has a blank, or is no directive, or has nothing but
white space behind it. -/
def Alone (behind line : List UInt8) (ls : List (List UInt8)) : Prop :=
  line.any isBlank = true ∨ fieldOf (token line) = none ∨
    ∀ c ∈ (if ls = [] then behind else unlines ls), isspace c = true

/-- No value runs on.  Behind the last line that is the string behind the NUL;
where a line without a blank has cut off white space, there is none. -/
def NoRunOn (behind : List UInt8) : List (List UInt8) → Prop
  | [] => True
  | line :: ls => Alone behind line ls ∧ NoRunOn (nextBehind behind line ls) ls

instance (behind line : List UInt8) (ls : List (List UInt8)) : Decidable (Alone behind line ls) :=
  inferInstanceAs (Decidable (_ ∨ _ ∨ _))

instance decidableNoRunOn : (behind : List UInt8) → (ls : List (List UInt8)) →
    Decidable (NoRunOn behind ls)
  | _, [] => isTrue trivial
  | behind, line :: ls =>
    have := decidableNoRunOn (nextBehind behind line ls) ls
    inferInstanceAs (Decidable (_ ∧ _))

theorem strip_eq_nil_iff (t : List UInt8) : strip t = [] ↔ ∀ c ∈ t, isspace c = true := by
  refine ⟨fun h => ?_, strip_eq_nil⟩
  by_contra hwhite
  have hne : rstrip t ≠ [] := fun hnil => hwhite (rstrip_eq_nil.1 hnil)
  have hlast := rstrip_last t hne
  have hall : ∀ c ∈ rstrip t, isspace c = true := List.dropWhile_eq_nil_iff.1 h
  rw [hall _ (List.getLast_mem hne)] at hlast
  cases hlast

/-- The value of a line is its own, or it runs on. -/
theorem lineValue_own_iff (behind line : List UInt8) (ls : List (List UInt8)) :
    lineValue behind line ls = ownValue line ↔ line.any isBlank = true ∨
      ∀ c ∈ (if ls = [] then behind else unlines ls), isspace c = true := by
  unfold lineValue
  cases hb : line.any isBlank with
  | true => exact iff_of_true (if_pos rfl) (Or.inl rfl)
  | false =>
    have hown : ownValue line = [] := by
      have h := (token_append_of_not (v := []) hb).2
      rw [List.append_nil] at h
      rw [ownValue, h]
      rfl
    rw [if_neg Bool.false_ne_true, hown, strip_eq_nil_iff]
    simp

theorem fields_of_none {behind : List UInt8} {ls : List (List UInt8)}
    (h : ∀ d ∈ lineDirectives behind ls, d.1 = none) : ∀ line ∈ ls, fieldOf (token line) = none := by
  induction ls generalizing behind with
  | nil =>
    intro line hline
    cases hline
  | cons line ls ih =>
    rw [lineDirectives] at h
    have hline : fieldOf (token line) = none := h _ List.mem_cons_self
    have hsame : nextLines line ls = ls := if_neg (by simp [hline, turns])
    rw [hsame] at h
    exact List.forall_mem_cons.2 ⟨hline, ih fun d hd => h d (List.mem_cons_of_mem _ hd)⟩

/-- Lines that are no directives change nothing. -/
theorem readLines_of_none {opens : Items → Bool} {szPath : Option (List UInt8)} {it : Items}
    {ls : List (List UInt8)} (h : ∀ line ∈ ls, fieldOf (token line) = none) :
    ls.foldl (readLine opens szPath) it = it := by
  induction ls with
  | nil => rfl
  | cons line ls ih =>
    obtain ⟨hline, hrest⟩ := List.forall_mem_cons.1 h
    have hstep : readLine opens szPath it line = it := by
      unfold readLine
      rw [hline]
    rw [List.foldl_cons, hstep, ih hrest]

theorem noRunOn_of_none {behind : List UInt8} {ls : List (List UInt8)}
    (h : ∀ line ∈ ls, fieldOf (token line) = none) : NoRunOn behind ls := by
  induction ls generalizing behind with
  | nil => trivial
  | cons line ls ih =>
    obtain ⟨hline, hrest⟩ := List.forall_mem_cons.1 h
    exact ⟨Or.inr (Or.inl hline), ih hrest⟩

/-- A line whose value does not run on leaves the other lines as they are. -/
theorem nextLines_of_alone {behind line : List UInt8} {ls : List (List UInt8)}
    (h : Alone behind line ls) : nextLines line ls = ls := by
  rcases h with hb | hf | hwhite
  · exact if_neg (by simp [hb])
  · exact if_neg (by simp [hf, turns])
  · by_cases hls : ls = []
    · subst hls
      exact nextLines_white (by simp)
    · rw [if_neg hls] at hwhite
      exact nextLines_white fun l hl c hc => hwhite c (subset_unlines hl c hc)

/-- The directives of lines whose values do not run on. -/
theorem lineDirectives_own {behind : List UInt8} {ls : List (List UInt8)} (h : NoRunOn behind ls)
    {P : Option Field × List UInt8 → Prop} (hnone : ∀ v, P (none, v)) :
    (∀ d ∈ lineDirectives behind ls, P d) ↔ ∀ line ∈ ls, P (fieldOf (token line), ownValue line) := by
  induction ls generalizing behind with
  | nil =>
    rw [lineDirectives]
    simp
  | cons line ls ih =>
    rw [lineDirectives, nextLines_of_alone h.1, List.forall_mem_cons, List.forall_mem_cons, ih h.2]
    refine and_congr_left fun _ => ?_
    rcases Decidable.em (fieldOf (token line) = none) with hf | hf
    · rw [hf]
      exact iff_of_true (hnone _) (hnone _)
    · rw [(lineValue_own_iff behind line ls).2 (h.1.imp id fun h => h.resolve_left hf)]

end Gentoox.Config
