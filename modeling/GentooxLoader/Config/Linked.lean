import GentooxLoader.Config.Built

/-!
# The links of the entries (lib/misc/BootParser.c, menu/actions/MenuActions.c)

The parser sets the next pointer of an entry when it opens the one behind it.  No
code sets a previous pointer, so that the list is doubly linked only while it has
one entry, and `BootMenuEntry`, which looks at both pointers, takes the last of
several entries for an only one.

    linksKept_iff    no directive writes over the links
    oneEntry_iff     no title line comes behind a title
    kept_result_iff  a result that the text decides, where the links are kept
    linked_iff       the list is doubly linked
-/

namespace Gentoox.Config

open Lib

/-! ## Algorithm -/

/-- The two pointers at the end of `CONFIGENTRY`. -/
def offsetLinks : Nat := offsetAppend + maxLine

/-- The test of `BootMenuEntry` for an entry that was picked from a menu. -/
def ConfigEntry.ofSeveral (e : ConfigEntry) : Bool :=
  !(e.nextConfigEntry == none) || !(e.previousConfigEntry == none)

/-! ## The property -/

def follow (entries : List ConfigEntry) (p : Option Nat) : Option Nat :=
  p.bind fun i => (entries.getD i default).nextConfigEntry

structure DoublyLinked (entries : List ConfigEntry) : Prop where
  ends : ∃ n, (follow entries)^[n] (some 0) = none
  root : (entries.getD 0 default).previousConfigEntry = none
  back : ∀ i < entries.length, ∀ j, (entries.getD i default).nextConfigEntry = some j →
    (entries.getD j default).previousConfigEntry = some i
  several : 1 < entries.length → ∀ e ∈ entries, e.ofSeveral = true

/-- A turn of the loop changes no byte from the links on. -/
def LinksKept (c : Parse × Option Nat) (_ : List UInt8 × List UInt8) (c' : Parse × Option Nat) : Prop :=
  ∀ j k, offsetLinks ≤ k → (c'.1.entry j).bytes k = (c.1.entry j).bytes k

/-- What the directive stores ends before the links. -/
def BelowLinks (szPath : Option (List UInt8)) (d : Directive) : Prop :=
  ∀ f str, d.1 = some f → stored szPath f d.2 = some str → f.offset + str.length ≤ offsetLinks

theorem belowLinks_iff (szPath : Option (List UInt8)) (d : Directive) : BelowLinks szPath d ↔
    (d.1.all fun f =>
      (stored szPath f d.2).all fun str => decide (f.offset + str.length ≤ offsetLinks)) = true := by
  simp only [BelowLinks, Option.all_eq_true, decide_eq_true_eq]
  exact ⟨fun h f hf str => h f str hf, fun h f str hf => h f hf str⟩

instance (szPath : Option (List UInt8)) (d : Directive) : Decidable (BelowLinks szPath d) :=
  decidable_of_iff _ (belowLinks_iff szPath d).symm

/-- The values of the title lines. -/
def titles (ds : List Directive) : List (List UInt8) := (ds.filter (·.1 = some .title)).map (·.2)

/-- No title line comes behind a title line with a value. -/
def OneEntry (ds : List Directive) : Prop := (titles ds).Pairwise fun v _ => v = []

/-! ## The bytes of the links -/

section
variable {szPath : Option (List UInt8)} {m : Nat → UInt8} {d : Directive}

theorem Field.offset_le (f : Field) : f.offset ≤ offsetLinks := by
  cases f <;> decide

/-- One write, with nothing but zeros from the links on. -/
theorem putBytes_links_iff (hpath : ∀ path, szPath = some path → 0 ∉ path) (h0 : 0 ∉ d.2)
    (hzero : ∀ k, offsetLinks ≤ k → m k = 0) :
    (∀ k, offsetLinks ≤ k → putBytes m (written szPath d) k = m k) ↔ BelowLinks szPath d := by
  obtain ⟨_ | f, v⟩ := d
  · exact iff_of_true (fun _ _ => rfl) (by rintro f str ⟨⟩)
  cases hstr : stored szPath f v with
  | none =>
    have hw : written szPath (some f, v) = none := by simp [written, hstr]
    rw [hw]
    refine iff_of_true (fun _ _ => rfl) ?_
    rintro g str ⟨⟩ hstr'
    simp only [hstr] at hstr'
    cases hstr'
  | some str =>
    obtain ⟨w, hw, hshape⟩ : ∃ w, written szPath (some f, v) = some (f, w) ∧
        (w = str ∨ w = str ++ [0]) := by
      refine ⟨if f = .title ∨ f = .append then str else str ++ [0], by simp [written, hstr], ?_⟩
      split
      · exact .inl rfl
      · exact .inr rfl
    have hbelow : BelowLinks szPath (some f, v) ↔ f.offset + str.length ≤ offsetLinks := by
      refine ⟨fun h => h f str rfl hstr, ?_⟩
      rintro h g str' ⟨⟩ hstr'
      obtain rfl : str = str' := Option.some.inj (hstr.symm.trans hstr')
      exact h
    have hnul := stored_nonzero hpath h0 hstr
    have hoffset := f.offset_le
    rw [hw, hbelow]
    constructor
    · intro hkeep
      by_contra hlong
      obtain ⟨i, hi⟩ : ∃ i, offsetLinks = f.offset + i := ⟨offsetLinks - f.offset, by omega⟩
      have hlt : i < str.length := by omega
      have hbyte := hkeep offsetLinks (le_refl _)
      rw [hzero _ (le_refl _), putBytes, hi, write_str m f.offset hshape hlt] at hbyte
      exact hnul (hbyte ▸ List.getElem_mem hlt)
    · intro hshort k hk
      rcases hshape with rfl | rfl
      · exact Cells.write_of_ge _ _ _ _ (by omega)
      · rw [putBytes]
        by_cases hend : k = f.offset + str.length
        · rw [hzero k hk, hend, Cells.write_apply _ _ _ _ (by simp)]
          simp
        · exact Cells.write_of_ge _ _ _ _ (by simp; omega)

end

/-! ## All directives -/

section
variable {szPath : Option (List UInt8)} {r : Parse}

theorem entry_stores {s s' : Parse} {d : Directive} (h : Stores szPath s s' d) (j : Nat) :
    s'.entry j = (storeDirective szPath s d).entry j := entry_congr h.1 j

theorem Grown.congr {s s' : Parse} (h : Grown s) (he : s'.entries = s.entries)
    (hc : s'.currentEntry = s.currentEntry) : Grown s' := by
  refine ⟨by rw [he, hc]; exact h.last, by rw [he]; exact h.chained, fun j => ?_, fun j => ?_⟩
  · rw [entry_congr he]
    exact h.previous j
  · rw [entry_congr he]
    exact h.unmarked j

/-- **The links** are written by no directive exactly when every value ends before them. -/
theorem linksKept_iff (hpath : ∀ path, szPath = some path → 0 ∉ path) {mem : Nat → UInt8}
    {contents : List UInt8}
    (hok : parseLoop szPath (contents.length + 2) ⟨loaded mem contents, [default], 0, none⟩ (some 0) =
      .ok r) :
    Steps.Always (Turn szPath) LinksKept (⟨loaded mem contents, [default], 0, none⟩, some 0) ↔
      ∀ d ∈ directives contents, BelowLinks szPath d := by
  refine left_always_iff (I := fun s => Grown s ∧ ∀ j k, offsetLinks ≤ k → (s.entry j).bytes k = 0)
    ?_ ?_ (directives_nonzero contents) (loaded_left mem contents) ?_ hok
  · rintro v f str ⟨⟩
  · rintro s s' pos pos' t d ⟨hgrown, hzero⟩ h0 hstores -
    have htracks : Tracks s s.currentEntry s.titled := ⟨hgrown, rfl, rfl⟩
    have hbytes : ∀ j, (s'.entry j).bytes = if j = entryOf s.currentEntry s.titled d then
        putBytes (s.entry j).bytes (written szPath d) else (s.entry j).bytes := fun j => by
      rw [entry_stores hstores, htracks.bytes]
    have hone : LinksKept (s, pos) t (s', pos') ↔ BelowLinks szPath d := by
      constructor
      · intro hkeep
        have hlinks := hkeep (entryOf s.currentEntry s.titled d)
        simp only [hbytes, if_true] at hlinks
        exact (putBytes_links_iff hpath h0 (hzero _)).1 hlinks
      · intro hbelow j k hk
        simp only [hbytes]
        split
        · exact (putBytes_links_iff hpath h0 (hzero j)).2 hbelow k hk
        · rfl
    refine ⟨hone, fun hbelow => ⟨?_, fun j k hk => ?_⟩⟩
    · exact (htracks.step szPath h0).grown.congr hstores.1 hstores.2
    · have hsame := hone.2 hbelow j k hk
      rw [hsame]
      exact hzero j k hk
  · refine ⟨grown_start.congr rfl rfl, fun j k _ => ?_⟩
    cases j <;> rfl

/-! ## The number of entries -/

variable (szPath) in
theorem le_current {s : Parse} {n : Nat} {titled : Bool} (ds : List Directive)
    (h : Tracks s n titled) (h0 : ∀ d ∈ ds, 0 ∉ d.2) :
    n ≤ (ds.foldl (storeDirective szPath) s).currentEntry := by
  induction ds generalizing s n titled with
  | nil => exact le_of_eq h.current.symm
  | cons d ds ih =>
    obtain ⟨hd, hds⟩ := List.forall_mem_cons.1 h0
    refine le_trans ?_ (ih (h.step szPath hd) hds)
    unfold entryOf
    split <;> omega

theorem titles_cons_title (v : List UInt8) (ds : List Directive) :
    titles ((some .title, v) :: ds) = v :: titles ds := by
  simp [titles]

theorem titles_cons_other {d : Directive} (h : d.1 ≠ some .title) (ds : List Directive) :
    titles (d :: ds) = titles ds := by
  simp [titles, h]

/-- No entry is opened. -/
theorem current_eq_iff {s : Parse} {n : Nat} {titled : Bool} (ds : List Directive)
    (h : Tracks s n titled) (h0 : ∀ d ∈ ds, 0 ∉ d.2) :
    (ds.foldl (storeDirective szPath) s).currentEntry = n ↔
      (titled = true → titles ds = []) ∧ OneEntry ds := by
  induction ds generalizing s n titled with
  | nil => exact iff_of_true h.current ⟨fun _ => rfl, List.Pairwise.nil⟩
  | cons d ds ih =>
    obtain ⟨hd, hds⟩ := List.forall_mem_cons.1 h0
    have hnext := h.step szPath hd
    rw [List.foldl_cons]
    by_cases hf : d.1 = some .title
    · obtain ⟨f, v⟩ := d
      obtain rfl : f = some .title := hf
      rw [OneEntry, titles_cons_title, List.pairwise_cons]
      cases titled with
      | true =>
        -- the title opens an entry
        have hge := le_current szPath ds hnext hds
        refine iff_of_false (fun heq => ?_) fun hnot => absurd (hnot.1 rfl) (List.cons_ne_nil _ _)
        rw [heq] at hge
        exact absurd hge (Nat.not_succ_le_self n)
      | false =>
        have hof : entryOf n false (some .title, v) = n := rfl
        rw [hof] at hnext
        rw [ih hnext hds, titledAfter, if_pos rfl]
        have hvalue : ((v != []) = true → titles ds = []) ↔ ∀ t ∈ titles ds, v = [] := by
          rw [bne_iff_ne]
          constructor
          · intro hnil t ht
            by_contra hv
            rw [hnil hv] at ht
            cases ht
          · intro hall hv
            exact List.eq_nil_iff_forall_not_mem.2 fun t ht => hv (hall t ht)
        rw [hvalue]
        simp [OneEntry]
    · have hof : entryOf n titled d = n := by simp [entryOf, opens, hf]
      have hafter : titledAfter titled d = titled := if_neg hf
      rw [hof, hafter] at hnext
      rw [OneEntry, titles_cons_other hf]
      exact ih hnext hds

/-- **One entry** is all that a text makes exactly when no title line comes behind a title. -/
theorem oneEntry_iff (contents : List UInt8) :
    (built szPath (directives contents)).entries.length = 1 ↔ OneEntry (directives contents) := by
  rw [(built_entry _ contents).1.last, Nat.add_eq_right, built,
    current_eq_iff _ tracks_start (directives_nonzero contents)]
  simp

/-! ## The list -/

/-- What the parser returns is one list without previous pointers. -/
theorem parseConfig_built {mem : Nat → UInt8} {contents : List UInt8}
    (hok : parseConfig (Cells.write mem 0 contents) contents.length szPath = .ok r) :
    r.entries.length = (built szPath (directives contents)).entries.length ∧ Chained r.entries ∧
      0 < r.entries.length ∧ ∀ j, (r.entry j).previousConfigEntry = none := by
  obtain ⟨s, hs, hlength, hkeeps⟩ := parseConfig_entries hok
  have hentries := (parseLoop_built hs).1
  have hgrown := (built_entry szPath contents).1
  rw [← hentries]
  refine ⟨hlength, fun i hi => ?_, ?_, fun j => ?_⟩
  · rw [hlength] at hi ⊢
    have hold := hgrown.chained i (by rwa [← hentries])
    rw [← hentries] at hold
    rw [← hold]
    exact (hkeeps i).2.1
  · rw [hlength, hentries, hgrown.last]
    exact Nat.succ_pos _
  · rw [(hkeeps j).2.2, entry_congr hentries]
    exact hgrown.previous j

/-- A list without previous pointers is doubly linked when it is one entry. -/
theorem doublyLinked_iff (hchained : Chained r.entries) (hpos : 0 < r.entries.length)
    (hprevious : ∀ j, (r.entry j).previousConfigEntry = none) :
    DoublyLinked r.entries ↔ r.entries.length = 1 := by
  constructor
  · intro h
    by_contra hlen
    have hnext := hchained 0 hpos
    rw [if_pos (by omega)] at hnext
    have hback := h.back 0 hpos 1 hnext
    have hnone : (r.entries.getD 1 default).previousConfigEntry = none := hprevious 1
    rw [hnone] at hback
    cases hback
  · intro hlen
    have hnext : ∀ i < r.entries.length, (r.entries.getD i default).nextConfigEntry = none := by
      intro i hi
      rw [hchained i hi, if_neg (by omega)]
    refine ⟨⟨1, hnext 0 hpos⟩, hprevious 0, fun i hi j hj => ?_, fun hmany => ?_⟩
    · rw [hnext i hi] at hj
      cases hj
    · omega

end

/-- A text that is accepted and keeps its links, with something to be said of its result
that the text decides. -/
theorem kept_result_iff (mem : Nat → UInt8) (contents : List UInt8) {szPath : Option (List UInt8)}
    (hpath : ∀ path, szPath = some path → 0 ∉ path) {P : Parse → Prop} {S : Prop}
    (hresult : ∀ r, parseConfig (Cells.write mem 0 contents) contents.length szPath = .ok r →
      (P r ↔ S)) :
    (∃ r, parseConfig (Cells.write mem 0 contents) contents.length szPath = .ok r ∧ P r) ∧
      Steps.Always (Turn szPath) LinksKept (⟨loaded mem contents, [default], 0, none⟩, some 0) ↔
    (0 ∈ contents ∨ guarded false contents = true) ∧
      (∀ d ∈ directives contents, BelowLinks szPath d) ∧ S := by
  obtain ⟨hin, hout⟩ := parseConfig_cases mem contents szPath
  by_cases haccepted : 0 ∈ contents ∨ guarded false contents = true
  · obtain ⟨r, hr⟩ := hin haccepted
    obtain ⟨s, hs⟩ := parseLoop_ok hr
    rw [linksKept_iff hpath hs, and_iff_right haccepted, and_comm, ← hresult r hr]
    refine and_congr_right fun _ => ⟨?_, fun h => ⟨r, hr, h⟩⟩
    rintro ⟨r', hr', h⟩
    obtain rfl := Except.ok.inj (hr.symm.trans hr')
    exact h
  · refine iff_of_false ?_ fun h => haccepted h.1
    rintro ⟨⟨r, hr, -⟩, -⟩
    rw [hout haccepted] at hr
    cases hr

/-! ## Top theorem -/

/-- **The links.** The parser accepts a text, returns a doubly linked list and
writes nothing over its links exactly when it stays inside its buffer, every value
ends before the links, and no title line comes behind a title. -/
theorem linked_iff (mem : Nat → UInt8) (contents : List UInt8) (szPath : Option (List UInt8))
    (hpath : ∀ path, szPath = some path → 0 ∉ path) :
    (∃ r, parseConfig (Cells.write mem 0 contents) contents.length szPath = .ok r ∧
        DoublyLinked r.entries) ∧
      Steps.Always (Turn szPath) LinksKept (⟨loaded mem contents, [default], 0, none⟩, some 0) ↔
    (0 ∈ contents ∨ guarded false contents = true) ∧
      (∀ d ∈ directives contents, BelowLinks szPath d) ∧ OneEntry (directives contents) := by
  refine kept_result_iff mem contents hpath fun r hr => ?_
  obtain ⟨hlength, hchained, hpos, hprevious⟩ := parseConfig_built hr
  rw [doublyLinked_iff hchained hpos hprevious, hlength, oneEntry_iff]

/-- One entry. -/
theorem linked_iff_one : ∃ r, parseConfig (Cells.write (fun _ => 0) 0 (chars "title a".toList))
    (chars "title a".toList).length none = .ok r ∧ DoublyLinked r.entries := by
  have hd : directives (chars "title a".toList) = [(some .title, chars ['a'])] := by decide +kernel
  refine ((linked_iff (fun _ => 0) (chars "title a".toList) none (by rintro _ ⟨⟩)).2
    ⟨Or.inr (by decide +kernel), ?_⟩).1
  rw [hd]
  exact ⟨by decide, List.pairwise_singleton _ _⟩

/-- Two entries: the second does not lead back to the first, and is taken for an
only entry. -/
theorem two_entries_not_linked :
    ¬ ∀ (mem : Nat → UInt8) (contents : List UInt8) (szPath : Option (List UInt8)),
      (∀ path, szPath = some path → 0 ∉ path) →
      ∀ r, parseConfig (Cells.write mem 0 contents) contents.length szPath = .ok r →
      DoublyLinked r.entries := by
  intro h
  obtain ⟨r, hr⟩ : ∃ r, parseConfig (Cells.write (fun _ => 0) 0 (chars "title a\ntitle b".toList))
      (chars "title a\ntitle b".toList).length none = .ok r := exists_ok (by decide +kernel)
  have hlinked := h (fun _ => 0) _ none (by rintro _ ⟨⟩) r hr
  have hlength : (parseConfig (Cells.write (fun _ => 0) 0 (chars "title a\ntitle b".toList))
      (chars "title a\ntitle b".toList).length none).map (·.entries.length) = .ok 2 := by
    decide +kernel
  have hseveral : (parseConfig (Cells.write (fun _ => 0) 0 (chars "title a\ntitle b".toList))
      (chars "title a\ntitle b".toList).length none).map (·.entries.all (·.ofSeveral)) =
        .ok false := by decide +kernel
  rw [hr] at hlength hseveral
  have htwo : r.entries.length = 2 := Except.ok.inj hlength
  have hnot : r.entries.all (·.ofSeveral) = false := Except.ok.inj hseveral
  rw [List.all_eq_true.2 (hlinked.several (by omega))] at hnot
  cases hnot

end Gentoox.Config
