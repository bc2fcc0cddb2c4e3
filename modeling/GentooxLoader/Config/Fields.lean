import GentooxLoader.Config.Lines

/-!
# The arrays of an entry (lib/misc/BootParser.h, lib/misc/BootParser.c)

`strncpy` with the length of its source and `sprintf` store a value whatever its
length.  A directive stays inside its own array, and leaves a string in it,
exactly when what it stores is shorter than the array.

    write_fits_iff   one store
    turn_fits_iff    one line
    fieldsFit_iff    all lines of a text: every value is short
-/

namespace Gentoox.Config

open Lib

/-! ## The property -/

def Parse.entry (s : Parse) (i : Nat) : ConfigEntry := s.entries.getD i default

/-- From `s` to `s'` only the array `f` of the current entry has changed, and it
holds a string. -/
structure FitsIn (s : Parse) (f : Field) (s' : Parse) : Prop where
  others : ∀ j, j ≠ s'.currentEntry → (s'.entry j).bytes = (s.entry j).bytes
  outside : ∀ k, k < f.offset ∨ f.offset + f.size ≤ k →
    (s'.entry s'.currentEntry).bytes k = (s.entry s'.currentEntry).bytes k
  nul : ∃ k, k < f.size ∧ (s'.entry s'.currentEntry).bytes (f.offset + k) = 0

/-- The same for a line with this first token and this value. -/
def StoresInside (c : Parse × Option Nat) (t : List UInt8 × List UInt8) (c' : Parse × Option Nat) :
    Prop :=
  match fieldOf t.1 with
  | none => ∀ j, (c'.1.entry j).bytes = (c.1.entry j).bytes
  | some f => FitsIn c.1 f c'.1

/-- What the directive stores is shorter than its array. -/
def Short (szPath : Option (List UInt8)) (d : Option Field × List UInt8) : Prop :=
  ∀ f str, d.1 = some f → stored szPath f d.2 = some str → str.length < f.size

theorem short_iff (szPath : Option (List UInt8)) (d : Option Field × List UInt8) : Short szPath d ↔
    (d.1.all fun f => (stored szPath f d.2).all fun str => decide (str.length < f.size)) = true := by
  simp only [Short, Option.all_eq_true, decide_eq_true_eq]
  exact ⟨fun h f hf str => h f str hf, fun h f str hf => h f hf str⟩

instance (szPath : Option (List UInt8)) (d : Option Field × List UInt8) : Decidable (Short szPath d) :=
  decidable_of_iff _ (short_iff szPath d).symm

/-! ## One store -/

/-- The last byte of every array is 0, as after `memset`. -/
def Clear (s : Parse) : Prop := ∀ j (f : Field), (s.entry j).bytes (f.offset + (f.size - 1)) = 0

theorem Field.size_pos (f : Field) : 0 < f.size := by
  cases f <;> decide

/-- The arrays do not overlap. -/
theorem Field.apart {f g : Field} (h : g ≠ f) :
    g.offset + g.size ≤ f.offset ∨ f.offset + f.size ≤ g.offset := by
  cases f <;> cases g <;> first | exact absurd rfl h | decide

section
variable {m : Nat → UInt8} {f : Field} {w str : List UInt8}

/-- The string is in front of the 0 that may follow it. -/
theorem write_str (m : Nat → UInt8) (a : Nat) (hw : w = str ∨ w = str ++ [0]) {i : Nat}
    (hi : i < str.length) : Cells.write m a w (a + i) = str[i] := by
  rcases hw with rfl | rfl
  · exact Cells.write_apply _ _ _ _ hi
  · rw [Cells.write_apply _ _ _ _ (by rw [List.length_append]; omega), List.getElem_append_left hi]

theorem write_fits_iff (hw : w = str ∨ w = str ++ [0]) (h0 : 0 ∉ str)
    (hclear : m (f.offset + (f.size - 1)) = 0) :
    ((∀ k, k < f.offset ∨ f.offset + f.size ≤ k → Cells.write m f.offset w k = m k) ∧
      ∃ k, k < f.size ∧ Cells.write m f.offset w (f.offset + k) = 0) ↔ str.length < f.size := by
  have hpos := f.size_pos
  have hlen : str.length ≤ w.length ∧ w.length ≤ str.length + 1 := by
    rcases hw with rfl | rfl
    · exact ⟨le_refl _, Nat.le_succ _⟩
    · rw [List.length_append]
      exact ⟨Nat.le_add_right _ _, le_refl _⟩
  constructor
  · rintro ⟨-, k, hk, hnul⟩
    by_contra hlong
    have hks : k < str.length := by omega
    rw [write_str m f.offset hw hks] at hnul
    exact h0 (hnul ▸ List.getElem_mem _)
  · intro hshort
    refine ⟨fun k hk => Cells.write_of_outside _ _ _ _ (by omega), f.size - 1, by omega, ?_⟩
    by_cases hin : f.size - 1 < w.length
    · rcases hw with rfl | rfl
      · omega
      · rw [Cells.write_apply _ _ _ _ hin, List.getElem_append_right (by omega)]
        simp
    · rw [Cells.write_of_ge _ _ _ _ (by omega)]
      exact hclear

/-- A short store leaves the last bytes of all arrays 0. -/
theorem write_clear (hw : w = str ∨ w = str ++ [0]) (hshort : str.length < f.size)
    (hclear : ∀ g : Field, m (g.offset + (g.size - 1)) = 0) (g : Field) :
    Cells.write m f.offset w (g.offset + (g.size - 1)) = 0 := by
  have hpos := g.size_pos
  have hlen : w.length ≤ f.size := by
    rcases hw with rfl | rfl
    · omega
    · rw [List.length_append]
      exact hshort
  by_cases hin : f.offset ≤ g.offset + (g.size - 1) ∧ g.offset + (g.size - 1) < f.offset + w.length
  · by_cases hg : g = f
    · subst hg
      rcases hw with rfl | rfl
      · omega
      · rw [List.length_append] at hin
        rw [Cells.write_apply _ _ _ _ (by rw [List.length_append]; omega),
          List.getElem_append_right (by omega)]
        simp
    · have hapart := Field.apart hg
      omega
  · rw [Cells.write_of_outside _ _ _ _ (by omega)]
    exact hclear g

end

/-! ## One line -/

section
variable {szPath : Option (List UInt8)} {s s' : Parse} {f : Field} {v str : List UInt8}

theorem entry_modify (s : Parse) (g : ConfigEntry → ConfigEntry) (h : s.currentEntry < s.entries.length)
    (j : Nat) : (s.modify g).entry j = if j = s.currentEntry then g (s.entry j) else s.entry j := by
  unfold Parse.entry Parse.modify
  rw [List.getD_eq_getElem?_getD, List.getD_eq_getElem?_getD, List.getElem?_modify]
  by_cases hj : j = s.currentEntry
  · subst hj
    simp [List.getElem?_eq_getElem h]
  · simp [hj, Ne.symm hj]

theorem entry_of_ge (s : Parse) {j : Nat} (h : s.entries.length ≤ j) : s.entry j = default := by
  simp [Parse.entry, List.getElem?_eq_none h]

/-- A new entry is the last, and the others keep their arrays. -/
theorem entry_setTitle_new (title : List UInt8) (h : (s.entry s.currentEntry).bytes offsetTitle ≠ 0)
    (hs : s.currentEntry < s.entries.length) :
    (setTitle s title).currentEntry = s.entries.length ∧
      (setTitle s title).entries.length = s.entries.length + 1 ∧
      ((setTitle s title).entry s.entries.length) = (default : ConfigEntry).strncpy offsetTitle title ∧
      ∀ j, j ≠ s.entries.length → ((setTitle s title).entry j).bytes = (s.entry j).bytes := by
  have hnew : setTitle s title =
      { s with
        entries := s.entries.modify s.currentEntry
          (fun e => { e with nextConfigEntry := some s.entries.length })
          ++ [(default : ConfigEntry).strncpy offsetTitle title]
        currentEntry := s.entries.length } := if_neg h
  rw [hnew]
  refine ⟨rfl, by simp, ?_, fun j hj => ?_⟩
  · simp [Parse.entry]
  · rcases Nat.lt_or_gt_of_ne hj with hlt | hgt
    · have hmod := entry_modify s (fun e => { e with nextConfigEntry := some s.entries.length }) hs j
      unfold Parse.entry Parse.modify at hmod
      unfold Parse.entry
      rw [List.getD_eq_getElem?_getD, List.getElem?_append_left (by simpa using hlt),
        ← List.getD_eq_getElem?_getD, hmod]
      split <;> rfl
    · rw [entry_of_ge _ (by simp; omega), entry_of_ge s (by omega)]

/-- A stored string goes into the array of the entry that is then current. -/
theorem storeField_write (hs : s.currentEntry < s.entries.length) (hstr : stored szPath f v = some str) :
    (storeField szPath s f v).currentEntry < (storeField szPath s f v).entries.length ∧
      (∀ j, j ≠ (storeField szPath s f v).currentEntry →
        ((storeField szPath s f v).entry j).bytes = (s.entry j).bytes) ∧
      ∃ w, (w = str ∨ w = str ++ [0]) ∧
        ((storeField szPath s f v).entry (storeField szPath s f v).currentEntry).bytes =
          Cells.write (s.entry (storeField szPath s f v).currentEntry).bytes f.offset w := by
  have hmodify : ∀ g : ConfigEntry → ConfigEntry,
      (s.modify g).currentEntry < (s.modify g).entries.length ∧
      (∀ j, j ≠ (s.modify g).currentEntry → ((s.modify g).entry j).bytes = (s.entry j).bytes) ∧
      ((s.modify g).entry (s.modify g).currentEntry).bytes = (g (s.entry s.currentEntry)).bytes := by
    intro g
    refine ⟨by simpa [Parse.modify] using hs, fun j hj => ?_, ?_⟩
    · rw [entry_modify s g hs, if_neg (show ¬ j = s.currentEntry from hj)]
    · show ((s.modify g).entry s.currentEntry).bytes = _
      rw [entry_modify s g hs, if_pos rfl]
  unfold storeField
  simp only [hstr]
  cases f with
  | title =>
    by_cases hnew : (s.entry s.currentEntry).bytes offsetTitle = 0
    · have hset : setTitle s str = s.modify (·.strncpy offsetTitle str) := if_pos hnew
      obtain ⟨h1, h2, h3⟩ := hmodify (·.strncpy offsetTitle str)
      simp only [hset]
      exact ⟨h1, h2, str, Or.inl rfl, h3⟩
    · obtain ⟨h1, h2, h3, h4⟩ := entry_setTitle_new str hnew hs
      simp only [h1, h2, h3]
      refine ⟨Nat.lt_succ_self _, h4, str, Or.inl rfl, ?_⟩
      rw [entry_of_ge s (le_refl _)]
      rfl
  | kernel =>
    obtain ⟨h1, h2, h3⟩ := hmodify (·.sprintf offsetKernel str)
    exact ⟨h1, h2, str ++ [0], Or.inr rfl, h3⟩
  | initrd =>
    obtain ⟨h1, h2, h3⟩ := hmodify (·.sprintf offsetInitrd str)
    exact ⟨h1, h2, str ++ [0], Or.inr rfl, h3⟩
  | append =>
    obtain ⟨h1, h2, h3⟩ := hmodify (·.strncpy offsetAppend str)
    exact ⟨h1, h2, str, Or.inl rfl, h3⟩

theorem withPath_nonzero (hpath : ∀ path, szPath = some path → 0 ∉ path) (hv : 0 ∉ v) :
    0 ∉ withPath szPath v := by
  have hslash : 0 ∉ (0x2f : UInt8) :: v := by
    rw [List.mem_cons, not_or]
    exact ⟨by decide, hv⟩
  unfold withPath
  cases szPath with
  | some path => exact fun h => (List.mem_append.1 h).elim (hpath path rfl) hslash
  | none =>
    show 0 ∉ (if _ then v else 0x2f :: v)
    split
    · exact hv
    · exact hslash

theorem stored_nonzero (hpath : ∀ path, szPath = some path → 0 ∉ path) (hv : 0 ∉ v)
    (hstr : stored szPath f v = some str) : 0 ∉ str := by
  have hslash := withPath_nonzero hpath (zero_notMem_slash hv)
  cases f with
  | title => exact Option.some.inj hstr ▸ hv
  | append => exact Option.some.inj hstr ▸ hv
  | kernel => exact Option.some.inj hstr ▸ hslash
  | initrd =>
    unfold stored at hstr
    simp only at hstr
    split at hstr
    · cases hstr
    · exact Option.some.inj hstr ▸ hslash

theorem entry_congr (h : s'.entries = s.entries) (j : Nat) : s'.entry j = s.entry j := by
  rw [Parse.entry, h, Parse.entry]

/-- Where nothing is stored, nothing changes. -/
theorem fitsIn_of_same (hclear : Clear s) (hsame : ∀ j, s'.entry j = s.entry j) (f : Field) :
    FitsIn s f s' := by
  have hpos := f.size_pos
  refine ⟨fun j _ => by rw [hsame j], fun k _ => by rw [hsame], f.size - 1, by omega, ?_⟩
  rw [hsame]
  exact hclear _ f

/-- Where nothing is stored, all is as it was. -/
theorem turn_same {d : Option Field × List UInt8} (hclear : Clear s)
    (hnothing : ∀ f str, d.1 = some f → stored szPath f d.2 ≠ some str)
    (hsame : ∀ j, s'.entry j = s.entry j) {t : List UInt8 × List UInt8} (hparam : fieldOf t.1 = d.1)
    (pos pos' : Option Nat) :
    (StoresInside (s, pos) t (s', pos') ↔ Short szPath d) ∧ Clear s' := by
  have hshort : Short szPath d := fun f str hf hstr => absurd hstr (hnothing f str hf)
  constructor
  · refine iff_of_true ?_ hshort
    unfold StoresInside
    rw [hparam]
    cases d.1 with
    | none => exact fun j => by rw [hsame j]
    | some f => exact fitsIn_of_same hclear hsame f
  · intro j g
    rw [hsame]
    exact hclear j g

/-- Where `str` is stored, in the array `f` of the entry that is then current. -/
theorem turn_stored (hpath : ∀ path, szPath = some path → 0 ∉ path) (h0 : 0 ∉ v) (hclear : Clear s)
    (hstr : stored szPath f v = some str) {w : List UInt8} (hw : w = str ∨ w = str ++ [0])
    (hothers : ∀ j, j ≠ s'.currentEntry → (s'.entry j).bytes = (s.entry j).bytes)
    (hbytes : (s'.entry s'.currentEntry).bytes =
      Cells.write (s.entry s'.currentEntry).bytes f.offset w)
    {t : List UInt8 × List UInt8} (hparam : fieldOf t.1 = some f) (pos pos' : Option Nat) :
    (StoresInside (s, pos) t (s', pos') ↔ Short szPath (some f, v)) ∧
      (Short szPath (some f, v) → Clear s') := by
  have hiff := write_fits_iff hw (stored_nonzero hpath h0 hstr) (hclear s'.currentEntry f)
  have hshort : Short szPath (some f, v) ↔ str.length < f.size := by
    constructor
    · exact fun h => h f str rfl hstr
    · intro h g str' hg hstr'
      obtain rfl : f = g := Option.some.inj hg
      obtain rfl : str = str' := Option.some.inj (hstr.symm.trans hstr')
      exact h
  constructor
  · unfold StoresInside
    rw [hparam, hshort, ← hiff, ← hbytes]
    exact ⟨fun h => ⟨h.outside, h.nul⟩, fun h => ⟨hothers, h.1, h.2⟩⟩
  · intro h j g
    by_cases hj : j = s'.currentEntry
    · rw [hj, hbytes]
      exact write_clear hw (hshort.1 h) (hclear s'.currentEntry) g
    · rw [hothers j hj]
      exact hclear j g

/-- **One line** stays inside its array exactly when what it stores is short;
then the last bytes of all arrays stay 0. -/
theorem turn_fits_iff (hpath : ∀ path, szPath = some path → 0 ∉ path) {d : Option Field × List UInt8}
    (h0 : 0 ∉ d.2) (hs : s.currentEntry < s.entries.length) (hclear : Clear s)
    (hstores : Stores szPath s s' d) {t : List UInt8 × List UInt8} (hparam : fieldOf t.1 = d.1)
    (pos pos' : Option Nat) :
    (StoresInside (s, pos) t (s', pos') ↔ Short szPath d) ∧
      s'.currentEntry < s'.entries.length ∧ (Short szPath d → Clear s') := by
  obtain ⟨hentries, hcurrent⟩ := hstores
  have hsame (j : Nat) := entry_congr hentries j
  by_cases hnothing : ∀ f str, d.1 = some f → stored szPath f d.2 ≠ some str
  · -- not a directive, or an initrd that is ignored
    have hskip : storeDirective szPath s d = s := by
      obtain ⟨_ | f, v⟩ := d
      · rfl
      · have hstr := Option.eq_none_iff_forall_not_mem.2 fun str => hnothing f str rfl
        simp [storeDirective, storeField, hstr]
    rw [hskip] at hentries hcurrent hsame
    obtain ⟨hiff, hclear'⟩ := turn_same hclear hnothing hsame hparam pos pos'
    refine ⟨hiff, ?_, fun _ => hclear'⟩
    rw [hentries, hcurrent]
    exact hs
  · obtain ⟨f, str, hf, hstr⟩ : ∃ f str, d.1 = some f ∧ stored szPath f d.2 = some str := by
      simpa using hnothing
    obtain ⟨_, v⟩ := d
    obtain rfl : _ = some f := hf
    obtain ⟨hlt, hothers, w, hw, hwrite⟩ := storeField_write hs hstr
    have hstore : storeDirective szPath s (some f, v) = storeField szPath s f v := rfl
    rw [hstore] at hentries hcurrent hsame
    rw [← hcurrent] at hlt hothers hwrite
    obtain ⟨hiff, hclear'⟩ := turn_stored hpath h0 hclear hstr hw
      (fun j hj => by rw [hsame, hothers j hj]) (by rw [hsame, hwrite]) hparam pos pos'
    exact ⟨hiff, by rwa [hentries], hclear'⟩

end

/-! ## All lines -/

section
variable {szPath : Option (List UInt8)} {r : Parse}

/-- A property of the turns that are left is what their directives are asked for.
`I` is what the loop keeps as long as they meet it. -/
theorem left_always_iff {P : Parse × Option Nat → List UInt8 × List UInt8 → Parse × Option Nat → Prop}
    {C : Option Field × List UInt8 → Prop} {I : Parse → Prop} (hnone : ∀ v, C (none, v))
    (hone : ∀ (s s' : Parse) (pos pos' : Option Nat) (t : List UInt8 × List UInt8)
      (d : Option Field × List UInt8), I s → 0 ∉ d.2 → Stores szPath s s' d → fieldOf t.1 = d.1 →
      (P (s, pos) t (s', pos') ↔ C d) ∧ (C d → I s'))
    {ls : List (List UInt8)} {behind : List UInt8} {s : Parse} {pos : Option Nat} {fuel : Nat}
    (h0 : ∀ d ∈ lineDirectives behind ls, 0 ∉ d.2) (hleft : Left s pos behind ls) (hI : I s)
    (hok : parseLoop szPath fuel s pos = .ok r) :
    Steps.Always (Turn szPath) P (s, pos) ↔ ∀ d ∈ lineDirectives behind ls, C d := by
  induction hn : ls.length generalizing ls behind s pos fuel with
  | zero =>
    cases pos with
    | some a => exact absurd (List.length_eq_zero_iff.1 hn) hleft.2.1
    | none =>
      refine iff_of_true (Steps.always_of_stuck not_turn_none) fun d hd => ?_
      obtain ⟨f, v⟩ := d
      obtain rfl : f = none := hleft.2 _ hd
      exact hnone v
  | succ n ih =>
    cases pos with
    | none =>
      refine iff_of_true (Steps.always_of_stuck not_turn_none) fun d hd => ?_
      obtain ⟨f, v⟩ := d
      obtain rfl : f = none := hleft.2 _ hd
      exact hnone v
    | some a =>
      obtain ⟨line, ls, rfl⟩ := List.exists_cons_of_length_eq_add_one hn
      obtain ⟨param, s', pos', hparam, hturn, hstores, hleft', -⟩ :=
        turn_spec hleft.1 hleft.2.2 hok
      cases fuel with
      | zero => cases hok
      | succ fuel =>
        rw [hturn.parseLoop] at hok
        rw [lineDirectives] at h0 ⊢
        obtain ⟨hturns, hI'⟩ := hone s s' (some a) pos' (param, lineValue behind line ls) _ hI
          (h0 _ List.mem_cons_self) hstores hparam.fieldOf
        rw [Steps.always_iff hturn fun _ _ h => hturn.unique h, hturns, List.forall_mem_cons]
        refine and_congr_right fun hC => ?_
        exact ih (fun e he => h0 e (List.mem_cons_of_mem _ he)) hleft' (hI' hC) hok
          (by simpa [length_nextLines] using hn)

/-- Every turn that is left stays inside, exactly when what is left is short. -/
theorem left_fits_iff (hpath : ∀ path, szPath = some path → 0 ∉ path) {ls : List (List UInt8)}
    {behind : List UInt8} {s : Parse} {pos : Option Nat} {fuel : Nat}
    (h0 : ∀ d ∈ lineDirectives behind ls, 0 ∉ d.2) (hleft : Left s pos behind ls)
    (hs : s.currentEntry < s.entries.length) (hclear : Clear s)
    (hok : parseLoop szPath fuel s pos = .ok r) :
    Steps.Always (Turn szPath) StoresInside (s, pos) ↔
      ∀ d ∈ lineDirectives behind ls, Short szPath d := by
  refine left_always_iff (I := fun s => s.currentEntry < s.entries.length ∧ Clear s) ?_ ?_ h0 hleft
    ⟨hs, hclear⟩ hok
  · rintro v f str ⟨⟩
  · rintro s s' pos pos' t d ⟨hs, hclear⟩ hd hstores hparam
    obtain ⟨hone, hs', hclear'⟩ := turn_fits_iff hpath hd hs hclear hstores hparam pos pos'
    exact ⟨hone, fun hshort => ⟨hs', hclear' hshort⟩⟩

/-- A parse that ends well has a loop that ends well. -/
theorem parseLoop_ok {mem : Nat → UInt8} {contents : List UInt8}
    (hok : parseConfig (Cells.write mem 0 contents) contents.length szPath = .ok r) :
    ∃ s, parseLoop szPath (contents.length + 2) ⟨loaded mem contents, [default], 0, none⟩ (some 0) =
      .ok s := by
  rw [parseConfig_loop] at hok
  cases h : parseLoop szPath (contents.length + 2) ⟨loaded mem contents, [default], 0, none⟩ (some 0) with
  | ok s => exact ⟨s, rfl⟩
  | error e =>
    rw [h] at hok
    cases hok

/-- The values of a text hold no NUL. -/
theorem directives_nonzero (contents : List UInt8) : ∀ d ∈ directives contents, 0 ∉ d.2 := by
  have hcstr : ∀ t : List UInt8, 0 ∉ cstr t := by
    intro t h
    have := List.mem_takeWhile_imp h
    simp at this
  apply lineDirectives_nonzero (hcstr _)
  rw [unlines, textLines, List.intercalate_splitOn]
  exact hcstr _

theorem clear_loaded (mem : Nat → UInt8) (contents : List UInt8) :
    Clear ⟨loaded mem contents, [default], 0, none⟩ := by
  intro j f
  cases j <;> rfl

theorem exists_ok {ε α : Type} {x : Except ε α} (h : x.isOk = true) : ∃ r, x = .ok r := by
  cases x with
  | ok r => exact ⟨r, rfl⟩
  | error e => cases h

end

/-! ## Top theorem -/

/-- **The arrays of the entries.**  In a text that is accepted, every directive
stays inside its own array and leaves a string in it exactly when every value
is shorter than the array it is for. -/
theorem fieldsFit_iff (mem : Nat → UInt8) (contents : List UInt8) (szPath : Option (List UInt8))
    (hpath : ∀ path, szPath = some path → 0 ∉ path) (r : Parse)
    (hok : parseConfig (Cells.write mem 0 contents) contents.length szPath = .ok r) :
    Steps.Always (Turn szPath) StoresInside (⟨loaded mem contents, [default], 0, none⟩, some 0) ↔
      ∀ d ∈ directives contents, Short szPath d := by
  obtain ⟨s, hs⟩ := parseLoop_ok hok
  exact left_fits_iff hpath (directives_nonzero contents) (loaded_left mem contents) Nat.zero_lt_one
    (clear_loaded mem contents) hs

/-- A title of 14 characters fills its array with the NUL behind it. -/
theorem fieldsFit_iff_14 :
    Steps.Always (Turn none) StoresInside
      (⟨loaded (fun _ => 0) (chars "title 12345678901234".toList), [default], 0, none⟩, some 0) := by
  obtain ⟨r, hr⟩ : ∃ r, parseConfig (Cells.write (fun _ => 0) 0 (chars "title 12345678901234".toList))
      (chars "title 12345678901234".toList).length none = .ok r := exists_ok (by decide +kernel)
  have hd : directives (chars "title 12345678901234".toList) =
      [(some .title, chars "12345678901234".toList)] := by decide +kernel
  refine (fieldsFit_iff (fun _ => 0) _ none (by rintro _ ⟨⟩) r hr).2 ?_
  rw [hd]
  intro d hmem
  rw [List.mem_singleton.1 hmem]
  rintro f str ⟨⟩ ⟨⟩
  decide

/-- A title of 15 characters: no NUL is left in the array. -/
theorem title_of_15 :
    ¬ ∀ (mem : Nat → UInt8) (contents : List UInt8) (szPath : Option (List UInt8)),
      (∀ path, szPath = some path → 0 ∉ path) →
      ∀ r, parseConfig (Cells.write mem 0 contents) contents.length szPath = .ok r →
      Steps.Always (Turn szPath) StoresInside
        (⟨loaded mem contents, [default], 0, none⟩, some 0) := by
  intro h
  obtain ⟨r, hr⟩ : ∃ r, parseConfig (Cells.write (fun _ => 0) 0 (chars "title 123456789012345".toList))
      (chars "title 123456789012345".toList).length none = .ok r := exists_ok (by decide +kernel)
  obtain ⟨s, hs⟩ := parseLoop_ok hr
  have hd : directives (chars "title 123456789012345".toList) =
      [(some .title, chars "123456789012345".toList)] := by decide +kernel
  have hfits := (left_fits_iff (by rintro _ ⟨⟩) (directives_nonzero _) (loaded_left _ _) Nat.zero_lt_one
    (clear_loaded _ _) hs).1 (h _ _ none (by rintro _ ⟨⟩) r hr)
  have hmem : (some .title, chars "123456789012345".toList) ∈
      directives (chars "title 123456789012345".toList) := by
    rw [hd]
    exact List.mem_singleton_self _
  exact absurd (hfits _ hmem .title _ rfl rfl) (by decide)

end Gentoox.Config
