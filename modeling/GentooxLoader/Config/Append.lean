import GentooxLoader.Config.Linked

/-!
# Several append lines (lib/misc/BootParser.c, lib/misc/BootLibrary.c)

Each append line of an entry stores its value at the start of `szAppend`, without
a NUL: `strncpy` is given the length of the value.  The bytes that an earlier and
longer value has put behind it stay.

    appendPart_byte   one directive on `szAppend`
    holds_iff_lands   the array after all of them
    lands_iff         when no other line reaches it
    lastAppend_iff    the array holds the last value
-/

namespace Gentoox.Config

open Lib

/-! ## The text alone -/

/-- The directives with their lines. -/
def numberedLines (contents : List UInt8) : List ((Nat × Directive) × List UInt8) :=
  (numbered 0 false (directives contents)).zip (textLines contents)

/-- The append lines of entry `j`: the value each of them gets, and its own. -/
def appendLines (contents : List UInt8) (j : Nat) : List (List UInt8 × List UInt8) :=
  ((numberedLines contents).filter fun x => x.1.1 = j ∧ x.1.2.1 = some .append).map fun x =>
    (x.1.2.2, ownValue x.2)

/-- What a directive writes from the start of `szAppend` on. -/
def appendPart (szPath : Option (List UInt8)) (d : Directive) : List UInt8 :=
  match written szPath d with
  | none => []
  | some (f, w) => w.drop (offsetAppend - f.offset)

/-- Of the directives that reach a byte of `szAppend`, the last puts that of `v`
or its NUL there. -/
def Lands (szPath : Option (List UInt8)) (ds : List Directive) (v : List UInt8) : Prop :=
  ∀ p ≤ v.length, Cells.overlay 0 (ds.map (appendPart szPath)) p = (v[p]?).getD 0

/-- Only append lines reach `szAppend`. -/
def AppendsOnly (szPath : Option (List UInt8)) (ds : List Directive) : Prop :=
  ∀ d ∈ ds, d.1 ≠ some .append → appendPart szPath d = []

instance (szPath : Option (List UInt8)) (ds : List Directive) : Decidable (AppendsOnly szPath ds) :=
  inferInstanceAs (Decidable (∀ d ∈ ds, _ → _))

/-! ## The bytes of the array -/

section
variable {szPath : Option (List UInt8)}

/-- One directive on the array. -/
theorem appendPart_byte (m : Nat → UInt8) (d : Directive) (p : Nat) :
    putBytes m (written szPath d) (offsetAppend + p) =
      ((appendPart szPath d)[p]?).getD (m (offsetAppend + p)) := by
  unfold appendPart
  cases written szPath d with
  | none => rfl
  | some fw =>
    obtain ⟨f, w⟩ := fw
    have hle : f.offset ≤ offsetAppend := by cases f <;> decide
    rw [putBytes, Cells.write, if_pos (by omega), List.getElem?_drop]
    congr 2
    omega

theorem foldl_appendPart (ds : List Directive) (m : Nat → UInt8) (p : Nat) :
    ds.foldl (fun m d => putBytes m (written szPath d)) m (offsetAppend + p) =
      Cells.overlay (m (offsetAppend + p)) (ds.map (appendPart szPath)) p := by
  induction ds generalizing m with
  | nil => rfl
  | cons d ds ih => rw [List.foldl_cons, ih, appendPart_byte, List.map_cons, Cells.overlay_cons]

theorem holdsString_iff {e : ConfigEntry} {f : Field} {v : List UInt8} (hv : v.length < f.size) :
    HoldsString e f v ↔ ∀ p ≤ v.length, e.bytes (f.offset + p) = (v[p]?).getD 0 := by
  constructor
  · intro h p hp
    rcases Nat.lt_or_eq_of_le hp with hlt | rfl
    · have hread := Cells.getElem?_read e.bytes f.offset v.length p hlt
      rw [h.chars] at hread
      rw [hread, Option.getD_some]
    · rw [h.nul, List.getElem?_eq_none (le_refl _), Option.getD_none]
  · intro h
    refine ⟨hv, ?_, ?_⟩
    · refine List.ext_getElem (Cells.length_read ..) fun p _ hp => ?_
      rw [Cells.getElem_read, h p (Nat.le_of_lt hp), List.getElem?_eq_getElem hp, Option.getD_some]
    · rw [h v.length (le_refl _), List.getElem?_eq_none (le_refl _), Option.getD_none]

/-- **The array** of entry `j` holds what lands there. -/
theorem holds_iff_lands (contents : List UInt8) (j : Nat) {v : List UInt8} (hv : v.length < maxLine) :
    HoldsString ((built szPath (directives contents)).entry j) .append v ↔
      Lands szPath (entryDirectives (directives contents) j) v := by
  rw [holdsString_iff hv]
  refine forall_congr' fun p => forall_congr' fun _ => ?_
  rw [(built_entry _ contents).2 j, show Field.append.offset = offsetAppend from rfl, foldl_appendPart]

end

/-! ## The values of the append lines -/

section
variable {szPath : Option (List UInt8)}

/-- The values of the append directives. -/
def appended (ds : List Directive) : List (List UInt8) := (ds.filter (·.1 = some .append)).map (·.2)

theorem overlay_appended {ds : List Directive} (h : AppendsOnly szPath ds) (z : UInt8) (p : Nat) :
    Cells.overlay z (ds.map (appendPart szPath)) p = Cells.overlay z (appended ds) p := by
  induction ds generalizing z with
  | nil => rfl
  | cons d ds ih =>
    obtain ⟨hd, hds⟩ := List.forall_mem_cons.1 h
    unfold appended
    rw [List.map_cons, Cells.overlay_cons, List.filter_cons]
    by_cases hf : d.1 = some .append
    · obtain ⟨f, v⟩ := d
      obtain rfl : f = some .append := hf
      rw [if_pos (decide_eq_true rfl), List.map_cons, Cells.overlay_cons]
      exact ih hds _
    · rw [if_neg (by simpa using hf), hd hf]
      exact ih hds z

theorem slash_slash (c : UInt8) : slash (slash c) = slash c := by
  unfold slash
  by_cases h : c = 0x5c
  · rw [h]
    rfl
  · rw [if_neg h, if_neg h]

theorem isBlank_map_slash (line : List UInt8) : (line.map slash).any isBlank = line.any isBlank := by
  rw [List.any_map]
  congr 1
  funext c
  exact (slash_keeps c).2.1

theorem length_ownValue_slash (line : List UInt8) :
    (ownValue (line.map slash)).length = (ownValue line).length := by
  have hdrop : ownText (line.map slash) = (ownText line).map slash := by
    unfold ownText
    rw [List.dropWhile_map, ← List.map_drop]
    congr 3
    funext c
    simp only [Function.comp_apply, (slash_keeps c).2.1]
  unfold ownValue strip
  rw [hdrop, rstrip_map_slash, List.dropWhile_map, List.length_map]
  congr 2
  funext c
  exact (slash_keeps c).2.2

theorem ownValue_not_blank {line : List UInt8} (h : line.any isBlank = false) : ownValue line = [] := by
  have htext := (token_append_of_not (v := []) h).2
  rw [List.append_nil] at htext
  rw [ownValue, htext]
  rfl

/-- A value is not shorter than the own one of its line, also where backslashes
have been turned. -/
theorem lineDirectives_zip (behind : List UInt8) {ls text : List (List UInt8)}
    (h : ls = text ∨ ls = text.map (·.map slash)) :
    (lineDirectives behind ls).length = text.length ∧
      ∀ x ∈ (lineDirectives behind ls).zip text, (ownValue x.2).length ≤ x.1.2.length := by
  induction text generalizing behind ls with
  | nil =>
    obtain rfl : ls = [] := by rcases h with rfl | rfl <;> rfl
    rw [lineDirectives]
    exact ⟨rfl, by rintro x ⟨⟩⟩
  | cons line text ih =>
    obtain ⟨line', ls', rfl, hline, hls⟩ : ∃ line' ls', ls = line' :: ls' ∧
        (line' = line ∨ line' = line.map slash) ∧ (ls' = text ∨ ls' = text.map (·.map slash)) := by
      rcases h with rfl | rfl
      · exact ⟨line, text, rfl, .inl rfl, .inl rfl⟩
      · exact ⟨_, _, rfl, .inr rfl, .inr rfl⟩
    have hnext : nextLines line' ls' = text ∨ nextLines line' ls' = text.map (·.map slash) := by
      unfold nextLines
      split
      · right
        rcases hls with rfl | rfl
        · rfl
        · rw [List.map_map]
          refine List.map_congr_left fun l _ => ?_
          rw [Function.comp_apply, List.map_map]
          exact List.map_congr_left fun c _ => slash_slash c
      · exact hls
    obtain ⟨hlength, hrest⟩ := ih (nextBehind behind line' ls') hnext
    rw [lineDirectives]
    refine ⟨by rw [List.length_cons, List.length_cons, hlength], ?_⟩
    rw [List.zip_cons_cons]
    refine List.forall_mem_cons.2 ⟨?_, hrest⟩
    show (ownValue line).length ≤ (lineValue behind line' ls').length
    cases hb : line.any isBlank with
    | false =>
      rw [ownValue_not_blank hb]
      exact Nat.zero_le _
    | true =>
      have hsame : (ownValue line').length = (ownValue line).length ∧ line'.any isBlank = true := by
        rcases hline with rfl | rfl
        · exact ⟨rfl, hb⟩
        · exact ⟨length_ownValue_slash line, by rw [isBlank_map_slash, hb]⟩
      rw [(lineValue_own_iff behind line' ls').2 (Or.inl hsame.2), hsame.1]

theorem numbered_directives (n : Nat) (titled : Bool) (ds : List Directive) :
    (numbered n titled ds).map (·.2) = ds := by
  induction ds generalizing n titled with
  | nil => rfl
  | cons d ds ih => rw [numbered, List.map_cons, ih]

/-- The values of the append lines are those of the directives of the entry. -/
theorem appendLines_values (contents : List UInt8) (j : Nat) :
    (appendLines contents j).map (·.1) = appended (entryDirectives (directives contents) j) := by
  obtain ⟨hlength, -⟩ := lineDirectives_zip (textBehind contents)
    (Or.inl (rfl : textLines contents = textLines contents))
  have hnumbered := congrArg List.length (numbered_directives 0 false (directives contents))
  rw [List.length_map] at hnumbered
  have hzip : (numberedLines contents).map (·.1) = numbered 0 false (directives contents) :=
    List.map_fst_zip (le_of_eq (hnumbered.trans hlength))
  unfold appendLines appended entryDirectives
  rw [← hzip, List.map_map, List.filter_map, List.filter_map, List.filter_map, List.map_map,
    List.map_map, List.filter_filter]
  congr 1
  refine List.filter_congr fun x _ => ?_
  simp [Bool.and_comm]

/-- Every append line's value is not shorter than its own. -/
theorem appendLines_length (contents : List UInt8) (j : Nat) :
    ∀ x ∈ appendLines contents j, x.2.length ≤ x.1.length := by
  obtain ⟨-, hzip⟩ := lineDirectives_zip (textBehind contents)
    (Or.inl (rfl : textLines contents = textLines contents))
  intro x hx
  unfold appendLines at hx
  obtain ⟨y, hy, rfl⟩ := List.mem_map.1 hx
  have hmem := (List.mem_filter.1 hy).1
  refine hzip (y.1.2, y.2) ?_
  have hpair : (directives contents).zip (textLines contents) =
      (numberedLines contents).map fun y => (y.1.2, y.2) := by
    unfold numberedLines
    conv_lhs => rw [← numbered_directives 0 false (directives contents)]
    rw [List.zip_map_left]
    rfl
  show (y.1.2, y.2) ∈ (directives contents).zip (textLines contents)
  rw [hpair]
  exact List.mem_map_of_mem hmem

end
/-! ## Top theorem -/

section
variable {szPath : Option (List UInt8)} {contents : List UInt8} {j : Nat}

theorem mem_entryDirectives {ds : List Directive} {d : Directive} (h : d ∈ entryDirectives ds j) :
    d ∈ ds := by
  obtain ⟨x, hx, rfl⟩ := List.mem_map.1 h
  rw [← numbered_directives 0 false ds]
  exact List.mem_map_of_mem (List.mem_filter.1 hx).1

/-- **Only append lines**: the last value lands when it is its line's own and no
value before it is longer. -/
theorem lands_iff {xs : List (List UInt8 × List UInt8)} {value own : List UInt8}
    (hlines : appendLines contents j = xs ++ [(value, own)])
    (honly : AppendsOnly szPath (entryDirectives (directives contents) j)) :
    Lands szPath (entryDirectives (directives contents) j) own ↔
      value = own ∧ ∀ x ∈ xs, x.1.length ≤ own.length := by
  have hvalues := appendLines_values contents j
  rw [hlines, List.map_append, List.map_singleton] at hvalues
  have hzero : ∀ v ∈ appended (entryDirectives (directives contents) j), 0 ∉ v := by
    intro v hv
    obtain ⟨d, hd, rfl⟩ := List.mem_map.1 hv
    exact directives_nonzero contents d (mem_entryDirectives (List.mem_filter.1 hd).1)
  rw [← hvalues] at hzero
  have hown : own.length ≤ value.length :=
    appendLines_length contents j (value, own) (by rw [hlines]; simp)
  unfold Lands
  simp only [overlay_appended honly, ← hvalues, Cells.overlay_concat]
  constructor
  · intro h
    have hend := h own.length (le_refl _)
    rw [List.getElem?_eq_none (le_refl own.length), Option.getD_none] at hend
    have hle : value.length ≤ own.length := by
      by_contra hlong
      rw [List.getElem?_eq_getElem (Nat.not_le.1 hlong), Option.getD_some] at hend
      exact hzero value (by simp) (hend ▸ List.getElem_mem _)
    refine ⟨List.ext_getElem (by omega) fun p h1 h2 => ?_, fun x hx => ?_⟩
    · have hbyte := h p (Nat.le_of_lt h2)
      rwa [List.getElem?_eq_getElem h1, List.getElem?_eq_getElem h2] at hbyte
    · by_contra hlong
      rw [List.getElem?_eq_none hle, Option.getD_none] at hend
      have hlonger : ∃ w ∈ xs.map (·.1), own.length < w.length :=
        ⟨x.1, List.mem_map_of_mem hx, Nat.not_le.1 hlong⟩
      obtain ⟨w, hw, hmem⟩ := Cells.overlay_mem (0 : UInt8) hlonger
      rw [hend] at hmem
      exact hzero w (List.mem_append_left _ hw) hmem
  · rintro ⟨rfl, hshort⟩ p hp
    rcases Nat.lt_or_eq_of_le hp with hlt | rfl
    · rw [List.getElem?_eq_getElem hlt]
      rfl
    · rw [List.getElem?_eq_none (le_refl _), Option.getD_none, Option.getD_none]
      apply Cells.overlay_of_short
      intro w hw
      obtain ⟨x, hx, rfl⟩ := List.mem_map.1 hw
      exact hshort x hx

end

end Gentoox.Config
