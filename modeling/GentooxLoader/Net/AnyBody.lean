import GentooxLoader.Net.HandlePost

/-!
# Bodies that are no form

`handle_post` is to record what lies in the body, and to refuse a body without
the three lines.  It does so for the bodies without a line end, and for those in
which its three loops end by finding something (`handlePost_decides_iff`): where
the second or the third does not, what is recorded is what the stack held.
-/

namespace Gentoox.Net

open Cells Lib

/-! ## Any body -/

/-- The body has the three lines: the boundary, behind it an empty line, and
behind that the boundary again. -/
def Complete (m : Nat → UInt8) (postdata n : Nat) : Prop :=
  ∃ blen i j, FirstLine m postdata n blen ∧ EmptyLine m postdata (blen + 1) i ∧ i < n ∧ i ≤ j ∧
    j + blen ≤ n ∧ Stands m postdata blen j

/-- What is recorded lies in the body. -/
def Recorded (hs : HttpState) (postdata n : Nat) : Prop :=
  ∃ a : Nat, hs.dataStart = some a ∧ 0 ≤ hs.dataLen ∧ postdata ≤ a ∧
    (a : Int) + hs.dataLen ≤ (postdata + n : Nat)

/-- What `handle_post` of netboot is for: to take what lies in the body, and to
refuse a body without the three lines. -/
def NetbootDecides (m : Nat → UInt8) (postdata : Nat) (postlen : Int) : Prop :=
  ∀ (l : Locals) (s : Server) (hs : HttpState), s.ram = m → hs.postlen = postlen →
    (handlePostReturn l s hs postdata = 0 ∧ SameUpload hs (handlePost l s hs postdata).2 ∧
        (handlePost l s hs postdata).1.postNum = s.postNum ∨
      handlePostReturn l s hs postdata = 1 ∧
        Recorded (handlePost l s hs postdata).2 postdata postlen.toNat) ∧
    (¬ Complete m postdata postlen.toNat → handlePostReturn l s hs postdata = 0)

/-- And that of netflash. -/
def NetflashDecides (m : Nat → UInt8) (postdata : Nat) (postlen : Int) : Prop :=
  ∀ (l : Locals) (files : Nat → Int) (hs : HttpState), hs.postlen = postlen →
    (NetFlash.handlePostReturn l m hs postdata = 0 ∧
        SameUpload hs (NetFlash.handlePost files l m hs postdata).2 ∨
      NetFlash.handlePostReturn l m hs postdata = 1 ∧
        Recorded (NetFlash.handlePost files l m hs postdata).2 postdata postlen.toNat) ∧
    (¬ Complete m postdata postlen.toNat → NetFlash.handlePostReturn l m hs postdata = 0)

/-- The body has no line end. -/
def NoLine (m : Nat → UInt8) (postdata n : Nat) : Prop := ∀ i, i < n → ¬ LineEnd (m (postdata + i))

/-- The loops find an empty line at `i` and the boundary again at `j`. -/
structure Finds (m : Nat → UInt8) (postdata n blen i j : Nat) : Prop where
  line : FirstLine m postdata n blen
  empty : FirstEmptyLine m postdata (blen + 1) i
  stands : FirstStands m postdata blen i j
  inside : i < n ∧ j < n

section
variable {m : Nat → UInt8} {postdata : Nat} {postlen : Int} {blen i j : Nat}

theorem FirstEmptyLine.lt {lo : Nat} (h : FirstEmptyLine m postdata lo i) : lo < i := by
  obtain ⟨k, h1, h2, -⟩ := h.1.2
  omega

theorem Finds.complete_iff {n : Nat} (h : Finds m postdata n blen i j) :
    Complete m postdata n ↔ j + blen ≤ n := by
  constructor
  · rintro ⟨blen', i', j', hline, hempty, -, hij, hjn, hstands⟩
    obtain rfl := hline.unique h.line
    by_contra hlt
    have hi : i ≤ i' := by
      by_contra hc
      exact h.empty.2 i' (by omega) hempty
    exact h.stands.2.2 j' (by omega) (by omega) hstands
  · intro hjn
    exact ⟨blen, i, j, h.line, h.empty.1, h.inside.1, h.stands.1, hjn, h.stands.2.1⟩

theorem locate_no_line (l : Locals) (h : NoLine m postdata postlen.toNat) :
    locate l m postdata postlen = (m, none) := by
  unfold locate
  simp only [findBoundary_eq_none.2 h]

theorem locate_finds (l : Locals) (h : Finds m postdata postlen.toNat blen i j) :
    locate l m postdata postlen = (Function.update m (postdata + blen) 0,
      some (postdata + i + 1, postdata + j)) := by
  have hlt := h.empty.lt
  have hj := h.stands.1
  unfold locate
  simp only [findBoundary_iff.2 h.line, (findStart_first h.line.2.1 i).2 ⟨h.inside.1, h.empty⟩,
    Option.map_some, Option.getD_some,
    (findEnd_iff (by omega) j).2 ⟨h.inside.2, h.stands⟩]
  rw [if_neg (by omega), if_neg (by omega)]

/-- A missing empty line: both places are what the variables held. -/
theorem locate_no_start {l : Locals} (hline : FirstLine m postdata postlen.toNat blen)
    (h : ∀ i, i < postlen.toNat → ¬ FirstEmptyLine m postdata (blen + 1) i) (hs : l.start ≠ 0)
    (he : l.stop ≠ 0) : (locate l m postdata postlen).2 = some (l.start, l.stop) := by
  have hnone : findStart (Function.update m (postdata + blen) 0) postdata (postlen.toNat - blen)
      blen 0 = none := by
    refine Option.eq_none_iff_forall_ne_some.2 fun i hi => ?_
    obtain ⟨h1, h2⟩ := (findStart_first hline.2.1 i).1 hi
    exact h i h1 h2
  have hend : ∀ m', findEnd m' postdata postlen.toNat postlen.toNat blen = none := by
    intro m'
    unfold findEnd
    rw [Nat.sub_self]
    rfl
  unfold locate
  simp only [findBoundary_iff.2 hline, hnone, Option.map_none, Option.getD_none, if_neg hs, hend,
    if_neg he]

/-- A missing boundary: the end is what the variable held. -/
theorem locate_no_end {l : Locals} (hline : FirstLine m postdata postlen.toNat blen)
    (hempty : FirstEmptyLine m postdata (blen + 1) i) (hi : i < postlen.toNat)
    (h : ∀ j, j < postlen.toNat → ¬ FirstStands m postdata blen i j) (he : l.stop ≠ 0) :
    (locate l m postdata postlen).2 = some (postdata + i + 1, l.stop) := by
  have hlt := hempty.lt
  have hnone : findEnd (Function.update m (postdata + blen) 0) postdata postlen.toNat i blen =
      none := by
    refine Option.eq_none_iff_forall_ne_some.2 fun j hj => ?_
    obtain ⟨h1, h2⟩ := (findEnd_iff (by omega) j).1 hj
    exact h j h1 h2
  unfold locate
  simp only [findBoundary_iff.2 hline, (findStart_first hline.2.1 i).2 ⟨hi, hempty⟩,
    Option.map_some, Option.getD_some, hnone, Option.map_none, Option.getD_none, if_neg he]
  rw [if_neg (by omega)]

/-- How the three loops can end. -/
theorem body_cases (m : Nat → UInt8) (postdata n : Nat) : NoLine m postdata n ∨
    (∃ blen, FirstLine m postdata n blen ∧ ∀ i, i < n → ¬ FirstEmptyLine m postdata (blen + 1) i) ∨
    (∃ blen i, FirstLine m postdata n blen ∧ FirstEmptyLine m postdata (blen + 1) i ∧ i < n ∧
      ∀ j, j < n → ¬ FirstStands m postdata blen i j) ∨
    ∃ blen i j, Finds m postdata n blen i j := by
  cases hb : findBoundary m postdata n with
  | none => exact Or.inl (findBoundary_eq_none.1 hb)
  | some blen =>
    right
    have hline := findBoundary_iff.1 hb
    by_cases hempty : ∃ i, i < n ∧ FirstEmptyLine m postdata (blen + 1) i
    · right
      obtain ⟨i, hi, hempty⟩ := hempty
      by_cases hstands : ∃ j, j < n ∧ FirstStands m postdata blen i j
      · obtain ⟨j, hj, hstands⟩ := hstands
        exact Or.inr ⟨blen, i, j, hline, hempty, hstands, hi, hj⟩
      · exact Or.inl ⟨blen, i, hline, hempty, hi, fun j hj h => hstands ⟨j, hj, h⟩⟩
    · exact Or.inl ⟨blen, hline, fun i hi h => hempty ⟨i, hi, h⟩⟩

/-- Without the boundary behind its first empty line the body is not complete. -/
theorem not_complete_of_no_end {n : Nat} (hline : FirstLine m postdata n blen)
    (hempty : FirstEmptyLine m postdata (blen + 1) i)
    (h : ∀ j, j < n → ¬ FirstStands m postdata blen i j) : ¬ Complete m postdata n := by
  rintro ⟨blen', i', j', hline', hempty', hin, hij, hjn, hstands⟩
  obtain rfl := hline'.unique hline
  have hi : i ≤ i' := by
    by_contra hc
    exact hempty.2 i' (by omega) hempty'
  -- the first place is inside: a boundary of no bytes stands at `i` already
  have hex : ∃ k, i ≤ k ∧ k < n ∧ Stands m postdata blen' k := by
    rcases Nat.lt_or_ge j' n with hlt | hge
    · exact ⟨j', by omega, hlt, hstands⟩
    · obtain rfl : blen' = 0 := by omega
      exact ⟨i, Nat.le_refl i, by omega, rfl⟩
  classical
  obtain ⟨h1, h2, h3⟩ := Nat.find_spec hex
  refine h _ h2 ⟨h1, h3, fun k hk1 hk2 hk3 => ?_⟩
  exact Nat.find_min hex hk2 ⟨hk1, by omega, hk3⟩

/-- What is taken by a server that decides right lies in a complete body. -/
theorem NetbootDecides.of_some (h : NetbootDecides m postdata postlen) {l : Locals} {start stop : Nat}
    (hl : (locate l m postdata postlen).2 = some (start, stop)) :
    (postdata ≤ start ∧ start + 2 ≤ stop ∧ stop ≤ postdata + postlen.toNat + 2) ∧
      Complete m postdata postlen.toNat := by
  have heq : locate l m postdata postlen =
      ((locate l m postdata postlen).1, some (start, stop)) := by rw [← hl]
  let hs : HttpState := { httpAccept (fun _ => 0) with postlen }
  have h := h l ⟨0, 0, m, false⟩ hs rfl rfl
  have hl' : locate l (⟨0, 0, m, false⟩ : Server).ram postdata hs.postlen =
      ((locate l m postdata postlen).1, some (start, stop)) := heq
  obtain ⟨hret, hpost⟩ := handlePost_some hl'
  rw [hret, hpost] at h
  obtain ⟨⟨h0, -⟩ | ⟨-, a, ha, h1, h2, h3⟩, hc⟩ := h
  · exact absurd h0 (by decide)
  · cases ha
    simp only at h1 h3
    refine ⟨⟨h2, by omega, by omega⟩, ?_⟩
    by_contra hno
    exact absurd (hc hno) (by decide)

theorem NetflashDecides.of_some (h : NetflashDecides m postdata postlen) {l : Locals} {start stop : Nat}
    (hl : (locate l m postdata postlen).2 = some (start, stop))
    (hlen : Accepted ((stop : Int) - 2 - start)) :
    (postdata ≤ start ∧ stop ≤ postdata + postlen.toNat + 2) ∧ Complete m postdata postlen.toNat := by
  have heq : locate l m postdata postlen =
      ((locate l m postdata postlen).1, some (start, stop)) := by rw [← hl]
  let hs : HttpState := { httpAccept (fun _ => 0) with postlen }
  have h := h l (fun _ => 0) hs rfl
  have hlocate : locate l m postdata hs.postlen =
      ((locate l m postdata postlen).1, some (start, stop)) := heq
  obtain ⟨hret, -, hstart, hl'⟩ := NetFlash.handlePost_accepted (fun _ => 0) hlocate hlen
  unfold Recorded at h
  rw [hret, hstart, hl'] at h
  obtain ⟨⟨h0, -⟩ | ⟨-, a, ha, h1, h2, h3⟩, hc⟩ := h
  · exact absurd h0 (by decide)
  · cases ha
    refine ⟨⟨h2, by omega⟩, ?_⟩
    by_contra hno
    exact absurd (hc hno) (by decide)

/-- Values the variables may hold: far behind the body, and 256 KiB apart. -/
def strayLocals (postdata : Nat) (postlen : Int) : Locals :=
  ⟨postdata + postlen.toNat + 1, postdata + postlen.toNat + 1 + 2 + 256 * 1024, 0, fun _ => .ok⟩

theorem netboot_decides_iff : NetbootDecides m postdata postlen ↔
    NoLine m postdata postlen.toNat ∨ ∃ blen i j, Finds m postdata postlen.toNat blen i j ∧
      i + 3 ≤ j ∧ j + blen ≤ postlen.toNat := by
  constructor
  · intro h
    obtain hno | ⟨blen, hline, hno⟩ | ⟨blen, i, hline, hempty, hi, hno⟩ | ⟨blen, i, j, hf⟩ :=
      body_cases m postdata postlen.toNat
    · exact Or.inl hno
    · -- both places are stray
      have hin := (h.of_some (locate_no_start (l := strayLocals postdata postlen) hline hno
        (by simp [strayLocals]) (by simp [strayLocals]))).1
      simp only [strayLocals] at hin
      omega
    · exact absurd (h.of_some (locate_no_end (l := strayLocals postdata postlen) hline hempty hi hno
        (by simp [strayLocals]))).2 (not_complete_of_no_end hline hempty hno)
    · obtain ⟨hin, hc⟩ := h.of_some (congrArg Prod.snd (locate_finds ⟨0, 0, 0, fun _ => .ok⟩ hf))
      exact Or.inr ⟨blen, i, j, hf, by omega, hf.complete_iff.1 hc⟩
  · rintro (hno | ⟨blen, i, j, hf, hij, hjn⟩) l s hs rfl rfl
    · obtain ⟨hret, hpost⟩ := handlePost_none (locate_no_line l hno)
      rw [hret, hpost]
      exact ⟨Or.inl ⟨rfl, ⟨rfl, rfl⟩, rfl⟩, fun _ => rfl⟩
    · obtain ⟨hret, hpost⟩ := handlePost_some (locate_finds l hf)
      rw [hret, hpost]
      refine ⟨Or.inr ⟨rfl, postdata + i + 1, rfl, ?_, by omega, ?_⟩, fun hc =>
        absurd (hf.complete_iff.2 hjn) hc⟩
      · simp only
        omega
      · simp only
        omega

theorem netflash_decides_iff : NetflashDecides m postdata postlen ↔
    NoLine m postdata postlen.toNat ∨ ∃ blen i j, Finds m postdata postlen.toNat blen i j ∧
      (Accepted ((j : Int) - 2 - (i + 1)) → j + blen ≤ postlen.toNat) := by
  have hplaces : ∀ i j : Nat, ((postdata + j : Nat) : Int) - 2 - (postdata + i + 1 : Nat) =
      (j : Int) - 2 - (i + 1) := by
    intro i j
    omega
  constructor
  · intro h
    obtain hno | ⟨blen, hline, hno⟩ | ⟨blen, i, hline, hempty, hi, hno⟩ | ⟨blen, i, j, hf⟩ :=
      body_cases m postdata postlen.toNat
    · exact Or.inl hno
    · -- both places are stray
      have hin := (h.of_some (locate_no_start (l := strayLocals postdata postlen) hline hno
        (by simp [strayLocals]) (by simp [strayLocals])) (Or.inl (by
          simp only [strayLocals]
          omega))).1
      simp only [strayLocals] at hin
      omega
    · -- the end is stray, 256 KiB behind the start
      have hsome := locate_no_end (l := ⟨0, postdata + i + 1 + 2 + 256 * 1024, 0, fun _ => .ok⟩)
        hline hempty hi hno (by simp)
      exact absurd (h.of_some hsome (Or.inl (by simp only; omega))).2
        (not_complete_of_no_end hline hempty hno)
    · refine Or.inr ⟨blen, i, j, hf, fun hlen => hf.complete_iff.1 ?_⟩
      exact (h.of_some (congrArg Prod.snd (locate_finds ⟨0, 0, 0, fun _ => .ok⟩ hf))
        (by rwa [hplaces])).2
  · rintro (hno | ⟨blen, i, j, hf, hjn⟩) l files hs rfl
    · obtain ⟨hret, hpost⟩ := NetFlash.handlePost_none files (locate_no_line l hno)
      exact ⟨Or.inl ⟨hret, hpost⟩, fun _ => hret⟩
    · have hl := locate_finds l hf
      by_cases hlen : Accepted ((j : Int) - 2 - (i + 1))
      · obtain ⟨hret, -, hstart, hl'⟩ :=
          NetFlash.handlePost_accepted files hl (by rwa [hplaces])
        rw [hplaces] at hl'
        have hjn := hjn hlen
        refine ⟨Or.inr ⟨hret, postdata + i + 1, hstart, ?_, by omega, ?_⟩, fun hc =>
          absurd (hf.complete_iff.2 hjn) hc⟩
        · rw [hl']
          rcases hlen with hlen | hlen | hlen <;> omega
        · rw [hl']
          omega
      · obtain ⟨hret, hpost⟩ := NetFlash.handlePost_refused files hl (by rwa [hplaces])
        exact ⟨Or.inl ⟨hret, hpost⟩, fun _ => hret⟩

end

/-! ## Top theorem -/

/-- **Bodies that are decided right**, whatever the uninitialised variables hold: those
without a line end, and those with the three lines.  For netboot the second boundary has to
be two bytes behind the empty line at least, and in the body; for netflash only where the
length is one of its sizes. -/
theorem handlePost_decides_iff (m : Nat → UInt8) (postdata : Nat) (postlen : Int) :
    (NetbootDecides m postdata postlen ↔
      NoLine m postdata postlen.toNat ∨ ∃ blen i j, Finds m postdata postlen.toNat blen i j ∧
        i + 3 ≤ j ∧ j + blen ≤ postlen.toNat) ∧
    (NetflashDecides m postdata postlen ↔
      NoLine m postdata postlen.toNat ∨ ∃ blen i j, Finds m postdata postlen.toNat blen i j ∧
        (Accepted ((j : Int) - 2 - (i + 1)) → j + blen ≤ postlen.toNat)) :=
  ⟨netboot_decides_iff, netflash_decides_iff⟩

/-- Two empty lines. -/
def emptyLines : List UInt8 := [0x0d, 0x0a, 0x0d, 0x0a]

/-- An empty first line: the boundary of no bytes stands at the empty line, and
the upload has a length of -3. -/
theorem empty_boundary_taken : ¬ ∀ m postdata postlen,
    NetbootDecides m postdata postlen ∧ NetflashDecides m postdata postlen := by
  intro h
  have h := ((h (fun i => emptyLines.getD i 0) 0 4).1 plainLocals
    ⟨0, 0, fun i => emptyLines.getD i 0, false⟩ { httpAccept (fun _ => 0) with postlen := 4 }
    rfl rfl).1
  rcases h with ⟨hret, -⟩ | ⟨-, a, -, hlen, -⟩
  · exact absurd hret (by decide)
  · exact absurd hlen (by decide)

end Gentoox.Net
