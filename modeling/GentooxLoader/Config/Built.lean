import GentooxLoader.Config.Entries

/-!
# The entries of a text (lib/misc/BootParser.c)

The loop of the parser on the directives of a text alone: a title line behind a
title opens an entry, and then every directive writes into the current one.
`numbered` says which entry a directive is for.

    storeDirective_eq   a directive opens an entry or not, and writes
    parseLoop_built     the loop is the fold over the directives
    Tracks.step         one directive, and which entry is the current one
    foldl_entry         an entry is what its own directives write
-/

namespace Gentoox.Config

open Lib

/-! ## Algorithm -/

abbrev Directive := Option Field × List UInt8

/-- A cleared entry behind the last one. -/
def Parse.opened (s : Parse) : Parse :=
  { s with
    entries := s.entries.modify s.currentEntry (fun e => { e with nextConfigEntry := some s.entries.length })
      ++ [default]
    currentEntry := s.entries.length }

/-- The array that a directive writes to, and the bytes: `sprintf` stores the NUL too. -/
def written (szPath : Option (List UInt8)) (d : Directive) : Option (Field × List UInt8) :=
  d.1.bind fun f => (stored szPath f d.2).map fun str =>
    (f, if f = .title ∨ f = .append then str else str ++ [0])

def putBytes (m : Nat → UInt8) : Option (Field × List UInt8) → Nat → UInt8
  | none => m
  | some (f, w) => Cells.write m f.offset w

def Parse.put (s : Parse) (w : Option (Field × List UInt8)) : Parse :=
  s.modify fun e => { e with bytes := putBytes e.bytes w }

/-- `strlen(currentEntry->title) != 0` -/
def Parse.titled (s : Parse) : Bool := (s.entry s.currentEntry).bytes offsetTitle != 0

def opens (titled : Bool) (d : Directive) : Bool := titled && d.1 == some .title

/-- The state before the loop, as far as the entries are concerned. -/
def start : Parse := ⟨⟨0, fun _ => 0⟩, [default], 0, none⟩

/-- The directives `ds` of a text, one by one. -/
def built (szPath : Option (List UInt8)) (ds : List Directive) : Parse :=
  ds.foldl (storeDirective szPath) start

/-! ## The text alone -/

/-- A title line leaves the entry titled when it has a value. -/
def titledAfter (titled : Bool) (d : Directive) : Bool :=
  if d.1 = some .title then d.2 != [] else titled

/-- The entry a directive is for, when the current one is `n`. -/
def entryOf (n : Nat) (titled : Bool) (d : Directive) : Nat := if opens titled d then n + 1 else n

/-- Each directive with the number of its entry; `n` is that of the current one. -/
def numbered : Nat → Bool → List Directive → List (Nat × Directive)
  | _, _, [] => []
  | n, titled, d :: ds =>
    (entryOf n titled d, d) :: numbered (entryOf n titled d) (titledAfter titled d) ds

/-- The directives of entry `j`. -/
def entryDirectives (ds : List Directive) (j : Nat) : List Directive :=
  ((numbered 0 false ds).filter (·.1 = j)).map (·.2)

/-! ## One directive -/

section
variable (szPath : Option (List UInt8)) (s : Parse) (d : Directive)

theorem modify_id (s : Parse) : s.modify (fun e => e) = s := by
  unfold Parse.modify
  rw [show (fun e : ConfigEntry => e) = id from rfl, List.modify_id]

theorem setTitle_opened (v : List UInt8) (h : s.titled = true) :
    setTitle s v = s.opened.put (some (.title, v)) := by
  have hne : ¬ (s.entries.getD s.currentEntry default).bytes offsetTitle = 0 := by
    simpa [Parse.titled, Parse.entry] using h
  have hlast : ∀ (l : List ConfigEntry) (f : ConfigEntry → ConfigEntry),
      (l ++ [default]).modify l.length f = l ++ [f default] := by
    intro l f
    induction l with
    | nil => rfl
    | cons e l ih => rw [List.cons_append, List.length_cons, List.modify_succ_cons, ih]; rfl
  unfold setTitle Parse.put Parse.modify Parse.opened
  rw [if_neg hne]
  have hnew := hlast (s.entries.modify s.currentEntry
    fun e => { e with nextConfigEntry := some s.entries.length })
    (·.strncpy offsetTitle v)
  rw [List.length_modify] at hnew
  rw [← hnew]
  rfl

/-- **A directive** opens an entry or not, and writes. -/
theorem storeDirective_eq : storeDirective szPath s d =
    (if opens s.titled d then s.opened else s).put (written szPath d) := by
  obtain ⟨_ | f, v⟩ := d
  · have hnot : opens s.titled (none, v) = false := by simp [opens]
    rw [hnot, if_neg Bool.false_ne_true]
    exact (modify_id s).symm
  cases f with
  | title =>
    show setTitle s v = _
    cases ht : s.titled with
    | true => exact setTitle_opened s v ht
    | false =>
      have h0 : (s.entries.getD s.currentEntry default).bytes offsetTitle = 0 := by
        simpa [Parse.titled, Parse.entry] using ht
      unfold setTitle
      rw [if_pos h0]
      rfl
  | kernel => simp [opens]; rfl
  | append => simp [opens]; rfl
  | initrd =>
    have hnot : opens s.titled (some .initrd, v) = false := by simp [opens]
    rw [hnot, if_neg Bool.false_ne_true]
    by_cases hno : (chars ['n', 'o']).isPrefixOf (v.map slash) = true
    · have hw : written szPath (some .initrd, v) = none := by simp [written, stored, hno]
      have hs : storeDirective szPath s (some .initrd, v) = s := by
        simp [storeDirective, storeField, stored, hno]
      rw [hw, hs]
      exact (modify_id s).symm
    · have hw : written szPath (some .initrd, v) =
          some (.initrd, withPath szPath (v.map slash) ++ [0]) := by simp [written, stored, hno]
      have hs : storeDirective szPath s (some .initrd, v) =
          s.modify (·.sprintf offsetInitrd (withPath szPath (v.map slash))) := by
        simp [storeDirective, storeField, stored, hno]
      rw [hw, hs]
      rfl

end

/-! ## What an entry is after a directive -/

/-- The entries are one list from the first to the current one, and nothing but
the next pointers has been set in their links. -/
structure Grown (s : Parse) : Prop where
  last : s.entries.length = s.currentEntry + 1
  chained : Chained s.entries
  previous : ∀ j, (s.entry j).previousConfigEntry = none
  unmarked : ∀ j, (s.entry j).isDefault = 0

theorem grown_start : Grown start := by
  refine ⟨rfl, fun i hi => ?_, fun j => ?_, fun j => ?_⟩
  · obtain rfl : i = 0 := Nat.lt_one_iff.1 hi
    rfl
  · cases j <;> rfl
  · cases j <;> rfl

section
variable {s : Parse}

theorem Grown.current_lt (h : Grown s) : s.currentEntry < s.entries.length := by
  rw [h.last]
  exact Nat.lt_succ_self _

theorem entry_opened (h : Grown s) (j : Nat) : s.opened.entry j =
    if j = s.currentEntry then { s.entry j with nextConfigEntry := some s.entries.length }
    else s.entry j := by
  have hmodify := entry_modify s (fun e => { e with nextConfigEntry := some s.entries.length })
    h.current_lt j
  have hlen : (s.entries.modify s.currentEntry
      fun e => { e with nextConfigEntry := some s.entries.length }).length = s.entries.length :=
    List.length_modify ..
  rcases Nat.lt_or_ge j s.entries.length with hj | hj
  · rw [← hmodify]
    unfold Parse.entry Parse.opened Parse.modify
    simp only
    rw [List.getD_eq_getElem?_getD, List.getElem?_append_left (by rwa [hlen]),
      List.getD_eq_getElem?_getD]
  · have hlast := h.last
    rw [if_neg (by omega), entry_of_ge s hj]
    unfold Parse.entry Parse.opened
    rw [List.getD_eq_getElem?_getD, List.getElem?_append_right (by rwa [hlen]), hlen]
    cases j - s.entries.length <;> rfl

theorem bytes_opened (h : Grown s) (j : Nat) : (s.opened.entry j).bytes = (s.entry j).bytes := by
  rw [entry_opened h]
  split <;> rfl

theorem Grown.opened (h : Grown s) : Grown s.opened := by
  have hlen : s.opened.entries.length = s.entries.length + 1 := by simp [Parse.opened]
  have hlast := h.last
  refine ⟨hlen, chained_snoc h.chained hlast.symm rfl, fun j => ?_, fun j => ?_⟩
  · rw [entry_opened h]
    split <;> exact h.previous j
  · rw [entry_opened h]
    split <;> exact h.unmarked j

theorem entry_put (h : Grown s) (w : Option (Field × List UInt8)) (j : Nat) : (s.put w).entry j =
    if j = s.currentEntry then { s.entry j with bytes := putBytes (s.entry j).bytes w }
    else s.entry j := entry_modify s _ h.current_lt j

theorem Grown.put (h : Grown s) (w : Option (Field × List UInt8)) : Grown (s.put w) := by
  have hlen : (s.put w).entries.length = s.entries.length := List.length_modify ..
  refine ⟨hlen.trans h.last, fun i hi => ?_, fun j => ?_, fun j => ?_⟩
  · rw [hlen] at hi ⊢
    rw [← h.chained i hi]
    show ((s.put w).entry i).nextConfigEntry = (s.entry i).nextConfigEntry
    rw [entry_put h]
    split <;> rfl
  · rw [entry_put h]
    split <;> exact h.previous j
  · rw [entry_put h]
    split <;> exact h.unmarked j

/-- Only the title array is written at its first byte. -/
theorem putBytes_title {szPath : Option (List UInt8)} {d : Directive} (m : Nat → UInt8)
    (h0 : 0 ∉ d.2) (hm : d.1 = some .title → m offsetTitle = 0) :
    (putBytes m (written szPath d) offsetTitle != 0) = titledAfter (m offsetTitle != 0) d := by
  obtain ⟨_ | f, v⟩ := d
  · rfl
  by_cases hf : f = .title
  · subst hf
    have hzero := hm rfl
    have hw : putBytes m (written szPath (some .title, v)) = Cells.write m offsetTitle v := rfl
    rw [hw, titledAfter, if_pos rfl]
    cases v with
    | nil =>
      rw [Cells.write_nil, hzero]
      rfl
    | cons c v =>
      have hc : Cells.write m offsetTitle (c :: v) offsetTitle = c :=
        Cells.write_apply m offsetTitle (c :: v) 0 (Nat.succ_pos _)
      rw [hc]
      have hne : c ≠ 0 := fun h => h0 (h ▸ List.mem_cons_self)
      rw [bne_iff_ne.2 hne]
      rfl
  · rw [titledAfter, if_neg (fun h => hf (Option.some.inj h))]
    have hbehind : offsetTitle < f.offset := by
      cases f with
      | title => exact absurd rfl hf
      | kernel => decide
      | initrd => decide
      | append => decide
    unfold written
    rw [Option.bind_some]
    cases stored szPath f v with
    | none => rfl
    | some str =>
      rw [Option.map_some, putBytes, Cells.write_of_lt _ _ _ _ hbehind]

end

/-! ## All directives -/

/-- The state that the text alone tells of: the number of the current entry, and
whether it has a title. -/
structure Tracks (s : Parse) (n : Nat) (titled : Bool) : Prop where
  grown : Grown s
  current : s.currentEntry = n
  title : s.titled = titled

theorem tracks_start : Tracks start 0 false := ⟨grown_start, rfl, rfl⟩

section
variable {szPath : Option (List UInt8)} {s : Parse} {n : Nat} {titled : Bool}

theorem Tracks.opened (h : Tracks s n titled) : Tracks s.opened (n + 1) false := by
  have hcurrent : s.opened.currentEntry = s.entries.length := rfl
  refine ⟨h.grown.opened, ?_, ?_⟩
  · rw [hcurrent, h.grown.last, h.current]
  · unfold Parse.titled
    rw [hcurrent, bytes_opened h.grown, entry_of_ge s (le_refl _)]
    rfl

variable (szPath) in
theorem Tracks.put {d : Directive} (h : Tracks s n titled) (h0 : 0 ∉ d.2)
    (hnot : opens titled d = false) :
    Tracks (s.put (written szPath d)) n (titledAfter titled d) := by
  refine ⟨h.grown.put _, h.current, ?_⟩
  have htitle := h.title
  unfold Parse.titled at htitle ⊢
  have hcurrent : (s.put (written szPath d)).currentEntry = s.currentEntry := rfl
  rw [hcurrent, entry_put h.grown, if_pos rfl]
  simp only
  rw [putBytes_title _ h0, htitle]
  intro hd
  rw [opens, hd, ← htitle] at hnot
  simpa using hnot

variable (szPath) in
/-- One directive, with the entry it is for. -/
theorem Tracks.step {d : Directive} (h : Tracks s n titled) (h0 : 0 ∉ d.2) :
    Tracks (storeDirective szPath s d) (entryOf n titled d) (titledAfter titled d) := by
  rw [storeDirective_eq, h.title, entryOf]
  cases ho : opens titled d with
  | false => exact h.put szPath h0 ho
  | true =>
    have htitle : d.1 = some .title := by
      unfold opens at ho
      simpa using (Bool.and_eq_true_iff.1 ho).2
    have hnext := h.opened.put szPath h0 rfl
    rw [titledAfter, if_pos htitle] at hnext ⊢
    exact hnext

/-- What one directive does to the bytes of the entries. -/
theorem Tracks.bytes {d : Directive} (h : Tracks s n titled) (j : Nat) :
    ((storeDirective szPath s d).entry j).bytes =
      if j = entryOf n titled d then putBytes (s.entry j).bytes (written szPath d)
      else (s.entry j).bytes := by
  rw [storeDirective_eq, h.title, entryOf]
  have hentry : ∀ {t : Parse} {m : Nat}, Tracks t m (if opens titled d then false else titled) →
      (∀ j, (t.entry j).bytes = (s.entry j).bytes) →
      ((t.put (written szPath d)).entry j).bytes =
        if j = m then putBytes (s.entry j).bytes (written szPath d) else (s.entry j).bytes := by
    intro t m ht hsame
    rw [entry_put ht.grown, ht.current]
    split
    · simp only
      rw [hsame]
    · exact hsame j
  cases ho : opens titled d with
  | false =>
    rw [ho] at hentry
    exact hentry h fun _ => rfl
  | true =>
    rw [ho] at hentry
    exact hentry h.opened (bytes_opened h.grown)

variable (szPath) in
/-- **The entries** hold what their own directives write, and are one list. -/
theorem foldl_entry (ds : List Directive) (h : Tracks s n titled) (h0 : ∀ d ∈ ds, 0 ∉ d.2) :
    Grown (ds.foldl (storeDirective szPath) s) ∧
      ∀ j, ((ds.foldl (storeDirective szPath) s).entry j).bytes =
        (((numbered n titled ds).filter (·.1 = j)).map (·.2)).foldl
          (fun m d => putBytes m (written szPath d)) (s.entry j).bytes := by
  induction ds generalizing s n titled with
  | nil => exact ⟨h.grown, fun _ => rfl⟩
  | cons d ds ih =>
    obtain ⟨hd, hds⟩ := List.forall_mem_cons.1 h0
    obtain ⟨hgrown, hbytes⟩ := ih (h.step szPath hd) hds
    refine ⟨hgrown, fun j => ?_⟩
    rw [List.foldl_cons, hbytes, h.bytes, numbered, List.filter_cons]
    by_cases hj : j = entryOf n titled d
    · rw [if_pos hj, if_pos (by simpa using hj.symm), List.map_cons, List.foldl_cons]
    · rw [if_neg hj, if_neg (by simpa using Ne.symm hj)]

end

/-! ## The loop -/

section
variable {szPath : Option (List UInt8)} {r : Parse}

theorem foldl_none {ds : List Directive} (h : ∀ d ∈ ds, d.1 = none) (s : Parse) :
    ds.foldl (storeDirective szPath) s = s := by
  induction ds with
  | nil => rfl
  | cons d ds ih =>
    obtain ⟨hd, hds⟩ := List.forall_mem_cons.1 h
    obtain ⟨f, v⟩ := d
    obtain rfl : f = none := hd
    rw [List.foldl_cons]
    exact ih hds

/-- The lines that are left store their directives. -/
theorem left_built {ls : List (List UInt8)} {behind : List UInt8} {s t : Parse} {pos : Option Nat}
    {fuel : Nat} (hleft : Left s pos behind ls) (hok : parseLoop szPath fuel s pos = .ok r)
    (hentries : s.entries = t.entries) (hcurrent : s.currentEntry = t.currentEntry) :
    r.entries = ((lineDirectives behind ls).foldl (storeDirective szPath) t).entries ∧
      r.currentEntry = ((lineDirectives behind ls).foldl (storeDirective szPath) t).currentEntry := by
  induction hn : ls.length generalizing ls behind s t pos fuel with
  | zero =>
    obtain rfl := List.length_eq_zero_iff.1 hn
    cases pos with
    | some a => exact absurd rfl hleft.2.1
    | none =>
      rw [foldl_none hleft.2, parseLoop_none_ok hok]
      exact ⟨hentries, hcurrent⟩
  | succ n ih =>
    cases pos with
    | none =>
      rw [foldl_none hleft.2, parseLoop_none_ok hok]
      exact ⟨hentries, hcurrent⟩
    | some a =>
      obtain ⟨line, ls, rfl⟩ := List.exists_cons_of_length_eq_add_one hn
      obtain ⟨param, s', pos', -, hturn, hstores, hleft', -⟩ := turn_spec hleft.1 hleft.2.2 hok
      cases fuel with
      | zero => cases hok
      | succ fuel =>
        rw [hturn.parseLoop] at hok
        obtain ⟨h1, h2⟩ := storeDirective_congr szPath
          (fieldOf (token line), lineValue behind line ls) hentries hcurrent
        rw [lineDirectives, List.foldl_cons]
        exact ih hleft' hok (hstores.1.trans h1) (hstores.2.trans h2)
          (by simpa [length_nextLines] using hn)

/-- **The loop** builds the entries of the text. -/
theorem parseLoop_built {mem : Nat → UInt8} {contents : List UInt8} {s : Parse}
    (hok : parseLoop szPath (contents.length + 2) ⟨loaded mem contents, [default], 0, none⟩ (some 0) =
      .ok s) :
    s.entries = (built szPath (directives contents)).entries ∧
      s.currentEntry = (built szPath (directives contents)).currentEntry :=
  left_built (loaded_left mem contents) hok rfl rfl

variable (szPath) in
/-- The entries of a text are one list, and hold what their directives write. -/
theorem built_entry (contents : List UInt8) :
    Grown (built szPath (directives contents)) ∧
      ∀ j, ((built szPath (directives contents)).entry j).bytes =
        (entryDirectives (directives contents) j).foldl
          (fun m d => putBytes m (written szPath d)) fun _ => 0 := by
  obtain ⟨hgrown, hbytes⟩ := foldl_entry szPath (directives contents) tracks_start
    (directives_nonzero contents)
  refine ⟨hgrown, fun j => ?_⟩
  rw [built, hbytes]
  cases j <;> rfl

end

end Gentoox.Config
