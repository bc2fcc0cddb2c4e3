import GentooxLoader.Gzip.Deflate
import GentooxLoader.Gzip.Tables
import Mathlib.Tactic.NormNum

/-!
# The codes that `huft_build` makes tables for (lib/gzip/inflate.c)

From the list of lengths: which codes there are, which sets of lengths are
refused, and that the tables decode the codes of a set that is not.

    place_lt_length      the codes that are used have values
    codingOf_ok          the first half of the function
    spare_eq             what is over is what Kraft's sum leaves
    huftBuild_ret        the return value
    huftBuild_decoder    the tables decode the codes
-/

namespace Gentoox.Gzip

open BitOrder PrefixCodes

/-! ## The lengths that `huft_build` gets -/

section
variable {b : List Nat} {m : Nat}

/-- How many codes have each length. -/
def count (b : List Nat) (k : Nat) : Nat := b.count k

theorem counts_eq (b : List Nat) : counts b (fun _ => 0) = count b :=
  funext fun k => by rw [counts_apply, Nat.zero_add, count]

theorem offset_count (b : List Nat) (k : Nat) :
    offset (used (count b)) k = b.countP fun j => 0 < j ∧ j < k := by
  induction k with
  | zero => simp [offset]
  | succ k ih =>
    rw [offset, ih]
    unfold used count
    clear ih
    induction b with
    | nil => simp
    | cons j b ih =>
      simp only [List.countP_cons, List.count_cons, decide_eq_true_eq, beq_iff_eq] at ih ⊢
      split at ih <;> (repeat' split) <;> omega

/-- A code is at a place that `v` has. -/
theorem place_lt_length {k r : Nat} (hk : 0 < k) (hr : r < count b k) :
    place (used (count b)) k r < b.length := by
  have hnext : offset (used (count b)) (k + 1) ≤ b.length := by
    rw [offset_count]
    exact List.countP_le_length
  rw [offset, used_of_pos hk] at hnext
  unfold place
  omega

theorem left_le_length (b : List Nat) (g : Nat) : left (used (count b)) g 1 ≤ b.length := by
  have hsum := offset_add_left (c := used (count b)) (k := 1) (g := g) (by omega)
  have hle : offset (used (count b)) (g + 1) ≤ b.length := by
    rw [offset_count]
    exact List.countP_le_length
  omega

theorem exists_length (hle : ∀ k ∈ b, k ≤ bmax) (h0 : b.count 0 ≠ b.length) :
    ∃ k, 1 ≤ k ∧ k ≤ bmax ∧ count b k ≠ 0 := by
  have hex : ∃ k ∈ b, k ≠ 0 := by
    by_contra hcon
    push Not at hcon
    exact h0 (List.count_eq_length.2 fun k hk => (hcon k hk).symm)
  obtain ⟨k, hk, hne⟩ := hex
  exact ⟨k, Nat.pos_of_ne_zero hne, hle k hk, Nat.pos_iff_ne_zero.1 (List.count_pos_iff.2 hk)⟩

/-- The bits of the first table: what is asked for, within the lengths there are. -/
def tableLength (b : List Nat) (m : Nat) : Nat :=
  let l := if m < minLength (count b) then minLength (count b) else m
  if l > maxLength (count b) then maxLength (count b) else l

/-- The codes with those that fill the set up. -/
def filled (b : List Nat) : Nat → Nat :=
  Function.update (count b) (maxLength (count b))
    (count b (maxLength (count b)) + (spare (count b) (maxLength (count b))).toNat)

def codingOf (b : List Nat) (s : Nat) (d e : List Nat) (m : Nat) (v : Nat → Nat) : Coding where
  c := filled b
  v := (sortValues b 0 (offsets (filled b)) v).2
  n := b.length
  s := s
  d := d
  e := e
  l := tableLength b m
  g := maxLength (count b)

/-- The variables where the main loop begins. -/
def start (b : List Nat) (heap : Heap) (v : Nat → Nat) (r : Huft) : Making :=
  ⟨heap, none, fun _ => 0, Function.update (sortValues b 0 (offsets (filled b)) v).1 0 0,
    0, 0, 0, 0, 0, r⟩

theorem min_le_max (hle : ∀ k ∈ b, k ≤ bmax) (h0 : b.count 0 ≠ b.length) :
    minLength (count b) ≤ maxLength (count b) := by
  obtain ⟨h1, -, hmin, hbelow⟩ := minLength_spec (exists_length hle h0)
  obtain ⟨h1', -, hmax, habove⟩ := maxLength_spec (exists_length hle h0)
  by_contra hcon
  exact hmax (hbelow _ h1' (by omega))

/-- `huft_build` by its cases. -/
theorem huftBuild_eq (s : Nat) (d e : List Nat) (heap : Heap) (v : Nat → Nat) (r : Huft)
    (hle : ∀ k ∈ b, k ≤ bmax) :
    huftBuild b s d e m heap v r =
      if b.count 0 = b.length then ⟨0, none, 0, heap⟩
      else if spare (count b) (maxLength (count b)) < 0 then ⟨2, none, tableLength b m, heap⟩
      else
        let M := lengthsFrom (codingOf b s d e m v)
          (maxLength (count b) + 1 - minLength (count b)) (minLength (count b)) (start b heap v r)
        ⟨if spare (count b) (maxLength (count b)) ≠ 0 ∧ maxLength (count b) ≠ 1 then 1 else 0,
          M.t, tableLength b m, M.heap⟩ := by
  unfold huftBuild
  dsimp only
  rw [counts_eq]
  by_cases h0 : b.count 0 = b.length
  · rw [if_pos (show count b 0 = b.length from h0), if_pos h0]
  · rw [if_neg (show ¬ count b 0 = b.length from h0), if_neg h0]
    obtain ⟨h1, -, -, hbelow⟩ := minLength_spec (exists_length hle h0)
    have hzero := firstCode_eq_zero hbelow
    rw [fillOut_eq h1 (by rw [hzero]; simp), Nat.add_sub_cancel' (min_le_max hle h0)]
    by_cases hneg : spare (count b) (maxLength (count b)) < 0
    · rw [if_pos hneg, if_pos hneg]
      rfl
    · rw [if_neg hneg, if_neg hneg]
      rfl

/-- What the uses of `huft_build` see to: no more than two levels, or few codes, all used. -/
def Shallow (b : List Nat) (m : Nat) : Prop :=
  (∀ k ∈ b, k ≤ 2 * m) ∨ b.length < 2 ^ m ∧ spare (count b) (maxLength (count b)) = 0

theorem tableLength_spec (hle : ∀ k ∈ b, k ≤ bmax) (h0 : b.count 0 ≠ b.length) :
    minLength (count b) ≤ tableLength b m ∧ tableLength b m ≤ maxLength (count b) ∧
      (m ≤ tableLength b m ∨ tableLength b m = maxLength (count b)) := by
  have := min_le_max hle h0
  unfold tableLength
  dsimp only
  split <;> split <;> omega

theorem filled_of_ne {k : Nat} (h : k ≠ maxLength (count b)) : filled b k = count b k :=
  Function.update_of_ne h ..

theorem used_filled {k j : Nat} (hk : k ≤ maxLength (count b)) (hj : j < k) :
    used (filled b) j = used (count b) j := by
  unfold used
  split
  · rfl
  · exact filled_of_ne (by omega)

theorem count_le_filled (b : List Nat) (k : Nat) : count b k ≤ filled b k := by
  by_cases h : k = maxLength (count b)
  · subst h
    unfold filled
    rw [Function.update_self]
    exact Nat.le_add_right _ _
  · rw [filled_of_ne h]

theorem codingOf_ok {s : Nat} {d e : List Nat} {v : Nat → Nat} (hle : ∀ k ∈ b, k ≤ bmax)
    (h0 : b.count 0 ≠ b.length) (hspare : ¬ spare (count b) (maxLength (count b)) < 0)
    (hm : Shallow b m) : (codingOf b s d e m v).Ok := by
  obtain ⟨hmin1, -, hmin, -⟩ := minLength_spec (exists_length hle h0)
  obtain ⟨hmax1, hmax16, hmax, -⟩ := maxLength_spec (exists_length hle h0)
  obtain ⟨hl1, hl2, hl3⟩ := tableLength_spec (m := m) hle h0
  have hlast : filled b (maxLength (count b)) =
      count b (maxLength (count b)) + (spare (count b) (maxLength (count b))).toNat :=
    Function.update_self ..
  refine ⟨?_, ?_, hl2, hmax16, ?_, ?_⟩
  · show firstCode (used (filled b)) (maxLength (count b)) +
      used (filled b) (maxLength (count b)) = 2 ^ maxLength (count b)
    rw [used_of_pos hmax1, hlast,
      firstCode_congr (c := used (count b)) fun j hj => used_filled (Nat.le_refl _) hj]
    unfold spare at hspare ⊢
    have hcast : ((2 ^ maxLength (count b) : Nat) : Int) = 2 ^ maxLength (count b) := by push_cast; rfl
    omega
  · show 0 < tableLength b m
    omega
  · show filled b (maxLength (count b)) ≠ 0
    have := count_le_filled b (maxLength (count b))
    omega
  · show maxLength (count b) ≤ 2 * tableLength b m ∨
      left (used (filled b)) (maxLength (count b)) 1 < 2 ^ tableLength b m
    rcases hl3 with hml | hall
    · refine hm.imp (fun hshort => ?_) fun hfew => ?_
      · have hmem : maxLength (count b) ∈ b := List.count_pos_iff.1 (Nat.pos_of_ne_zero hmax)
        have := hshort _ hmem
        omega
      · have hsame : filled b = count b := by
          unfold filled
          rw [hfew.2]
          exact Function.update_eq_self ..
        rw [hsame]
        calc left (used (count b)) (maxLength (count b)) 1 ≤ b.length := left_le_length b _
          _ < 2 ^ m := hfew.1
          _ ≤ 2 ^ tableLength b m := Nat.pow_le_pow_right Nat.two_pos hml
    · left
      omega

theorem start_inv {s : Nat} {d e : List Nat} {v : Nat → Nat} {heap : Heap} {r : Huft} (P : Places)
    (hle : ∀ k ∈ b, k ≤ bmax) (h0 : b.count 0 ≠ b.length) :
    Inv (codingOf b s d e m v) P heap (minLength (count b)) 0 (start b heap v r) := by
  obtain ⟨hmin1, -, hmin, hbelow⟩ := minLength_spec (exists_length hle h0)
  have hlemax := min_le_max hle h0
  have hzero : ∀ j, 1 ≤ j → j < minLength (count b) → filled b j = 0 := fun j h1 hlt => by
    rw [filled_of_ne (by omega), hbelow j h1 hlt]
  have hfirst : (codingOf b s d e m v).val (minLength (count b)) 0 = 0 := by
    show (firstCode (used (filled b)) (minLength (count b)) + 0) * _ = 0
    rw [firstCode_eq_zero hzero, Nat.zero_mul]
  have hoffset : offset (used (filled b)) (minLength (count b)) = 0 := by
    rw [offset_congr fun j hj => used_filled hlemax hj, offset_count, List.countP_eq_zero]
    intro j hj hpos
    rw [decide_eq_true_eq] at hpos
    exact Nat.pos_iff_ne_zero.1 (List.count_pos_iff.2 hj) (hbelow j hpos.1 hpos.2)
  have hused : 0 < used (filled b) (minLength (count b)) := by
    rw [used_of_pos hmin1]
    exact Nat.lt_of_lt_of_le (Nat.pos_of_ne_zero hmin) (count_le_filled b _)
  refine ⟨?_, ?_, Nat.le_refl _, fun _ _ => rfl, ?_, ?_, ?_, ?_, ?_, ?_, ?_, ?_, ?_⟩
  · rw [hfirst, rev_zero]
    rfl
  · exact Function.update_self 0 0 (sortValues b 0 (offsets (filled b)) v).1
  · exact fun h hh => absurd hh (Nat.not_lt_zero h)
  · exact fun h hh => absurd hh (Nat.not_lt_zero _)
  · exact fun hh => absurd hh (Nat.lt_irrefl 0)
  · exact fun _ => ⟨(tableLength_spec hle h0).1, rfl, hused, hfirst⟩
  · exact fun h hh => absurd hh (Nat.not_lt_zero h)
  · rw [hfirst]
    exact Nat.dvd_zero _
  · intro hk
    have hk' : minLength (count b) ≤ tableLength b m * 0 := hk
    omega
  · show 0 = min (offset (used (filled b)) (minLength (count b)) + 0) b.length
    rw [hoffset, Nat.zero_add, Nat.zero_min]
  · intro k' r' hbef h1' _ hr' _ _
    rcases hbef with hlt | ⟨-, hlt⟩
    · have hr'' : r' < used (filled b) k' := hr'
      rw [used_of_pos h1', hzero k' h1' hlt] at hr''
      omega
    · omega

end

/-! ## What is refused -/

section
variable {b : List Nat}

/-- What the codes of up to `k` bits take of `2 ^ bmax`. -/
def roomTo (b : List Nat) (k : Nat) : Nat :=
  (b.map fun j => if 0 < j ∧ j ≤ k then 2 ^ (bmax - j) else 0).sum

theorem roomTo_succ (b : List Nat) (k : Nat) :
    roomTo b (k + 1) = roomTo b k + count b (k + 1) * 2 ^ (bmax - (k + 1)) := by
  unfold roomTo count
  induction b with
  | nil => simp
  | cons j b ih =>
    rw [List.map_cons, List.map_cons, List.sum_cons, List.sum_cons, ih, List.count_cons]
    by_cases hj : j = k + 1
    · subst hj
      rw [if_pos ⟨Nat.succ_pos k, Nat.le_refl _⟩, if_neg (by omega), beq_self_eq_true, if_pos rfl]
      ring
    · have hsame : (0 < j ∧ j ≤ k + 1) ↔ (0 < j ∧ j ≤ k) := by omega
      have hne : ¬ (j == k + 1) = true := by rwa [beq_iff_eq]
      rw [if_congr hsame rfl rfl, if_neg hne]
      ring

theorem roomTo_zero (b : List Nat) : roomTo b 0 = 0 := by
  unfold roomTo
  apply List.sum_eq_zero
  intro x hx
  obtain ⟨j, -, rfl⟩ := List.mem_map.1 hx
  rw [if_neg (by omega)]

theorem value_end_eq (b : List Nat) {k : Nat} (hk : k ≤ bmax) :
    value (used (count b)) bmax k (used (count b) k) = roomTo b k := by
  induction k with
  | zero => simp [value, code, firstCode, used, roomTo_zero]
  | succ k ih =>
    have hval := value_add (used (count b)) bmax (k + 1) 0 (used (count b) (k + 1))
    rw [Nat.zero_add] at hval
    rw [hval, value_succ hk, ih (Nat.le_of_succ_le hk), roomTo_succ,
      used_of_pos (Nat.succ_pos k)]

/-- All the codes take. -/
def room (b : List Nat) : Nat := (b.map fun j => if j = 0 then 0 else 2 ^ (bmax - j)).sum

theorem roomTo_eq_room {k : Nat} (hle : ∀ j ∈ b, j ≤ k) : roomTo b k = room b := by
  unfold roomTo room
  congr 1
  apply List.map_congr_left
  intro j hj
  have hjk := hle j hj
  by_cases h0 : j = 0
  · rw [if_neg (by omega), if_pos h0]
  · rw [if_pos (by omega), if_neg h0]

/-- The codes over, with the lengths up to `k`. -/
theorem spare_eq {k : Nat} (hpos : 0 < k) (hk : k ≤ bmax) (hle : ∀ j ∈ b, j ≤ k) :
    spare (count b) k * 2 ^ (bmax - k) = 2 ^ bmax - room b := by
  have hval := value_end_eq b hk
  rw [roomTo_eq_room hle] at hval
  have hpow : (2 : Int) ^ bmax = 2 ^ k * 2 ^ (bmax - k) := by
    rw [← pow_add, Nat.add_sub_cancel' hk]
  rw [← hval, hpow]
  unfold spare value code
  rw [used_of_pos hpos]
  push_cast
  ring

theorem whole_iff (hle : ∀ j ∈ b, j ≤ 15) : Whole b ↔ room b = 2 ^ bmax := by
  have hspare := spare_eq (b := b) (k := 15) (by decide) (by decide) hle
  have hdef : spare (count b) 15 = 2 ^ 15 - firstCode (used (count b)) 15 - count b 15 := rfl
  have hwhole : Whole b ↔ firstCode (used (count b)) 15 + count b 15 = 2 ^ 15 := Iff.rfl
  rw [hwhole]
  rw [hdef] at hspare
  norm_num [bmax] at hspare ⊢
  omega

theorem room_of_short (hle : ∀ j ∈ b, j ≤ 1) : room b = b.count 1 * 2 ^ 15 := by
  have h1 := roomTo_succ b 0
  rw [roomTo_eq_room hle] at h1
  rw [h1, roomTo_zero, Nat.zero_add]
  rfl

/-- **What `huft_build` returns**: 2 if the codes take more than there is, 0 for a
complete set, and if no code has more than one bit, 1 for other sets. -/
theorem huftBuild_ret {s : Nat} {d e : List Nat} {m : Nat} {heap : Heap} {v : Nat → Nat} {r : Huft}
    (hle : ∀ k ∈ b, k ≤ bmax) :
    (huftBuild b s d e m heap v r).ret =
      if room b > 2 ^ bmax then 2 else if room b = 2 ^ bmax ∨ ∀ k ∈ b, k ≤ 1 then 0 else 1 := by
  rw [huftBuild_eq s d e heap v r hle]
  by_cases h0 : b.count 0 = b.length
  · have hzero : ∀ k ∈ b, k = 0 := fun k hk => (List.count_eq_length.1 h0 k hk).symm
    have hroom : room b = b.count 1 * 2 ^ 15 := room_of_short fun k hk => by
      rw [hzero k hk]
      exact Nat.zero_le 1
    have hone : b.count 1 = 0 := List.count_eq_zero.2 fun h1 => absurd (hzero 1 h1) (by decide)
    rw [hone, Nat.zero_mul] at hroom
    rw [if_pos h0, hroom, if_neg (by decide), if_pos]
    exact Or.inr fun k hk => (hzero k hk).le.trans (Nat.zero_le 1)
  rw [if_neg h0]
  obtain ⟨hmax1, hmax16, hmax, habove⟩ := maxLength_spec (exists_length hle h0)
  have hshort : ∀ j ∈ b, j ≤ maxLength (count b) := by
    intro j hj
    by_contra hcon
    exact Nat.pos_iff_ne_zero.1 (List.count_pos_iff.2 hj) (habove j (by omega) (hle j hj))
  have hspare := spare_eq hmax1 hmax16 hshort
  have hpow : (0 : Int) < 2 ^ (bmax - maxLength (count b)) := pow_pos (by norm_num) _
  have hcast : ((2 ^ bmax : Nat) : Int) = 2 ^ bmax := by norm_num
  by_cases hneg : spare (count b) (maxLength (count b)) < 0
  · have hlt : spare (count b) (maxLength (count b)) * 2 ^ (bmax - maxLength (count b)) < 0 :=
      mul_neg_of_neg_of_pos hneg hpow
    rw [if_pos hneg, if_pos (show room b > 2 ^ bmax by omega)]
  · have hge : 0 ≤ spare (count b) (maxLength (count b)) * 2 ^ (bmax - maxLength (count b)) :=
      mul_nonneg (not_lt.1 hneg) hpow.le
    rw [if_neg hneg, if_neg (show ¬ room b > 2 ^ bmax by omega)]
    have hfull : spare (count b) (maxLength (count b)) = 0 ↔ room b = 2 ^ bmax := by
      constructor
      · intro hz
        rw [hz, zero_mul] at hspare
        omega
      · intro hr
        rw [hr, hcast, sub_self] at hspare
        exact (mul_eq_zero.1 hspare).resolve_right hpow.ne'
    have hone : maxLength (count b) = 1 ↔ ∀ k ∈ b, k ≤ 1 := by
      constructor
      · intro h1 k hk
        exact h1 ▸ hshort k hk
      · intro hall
        have := hall _ (List.count_pos_iff.1 (Nat.pos_of_ne_zero hmax))
        omega
    show (if _ then 1 else 0) = _
    by_cases hz : spare (count b) (maxLength (count b)) = 0
    · rw [if_neg (fun h => h.1 hz), if_pos (Or.inl (hfull.1 hz))]
    · by_cases h1 : maxLength (count b) = 1
      · rw [if_neg (fun h => h.2 h1), if_pos (Or.inr (hone.1 h1))]
      · rw [if_pos ⟨hz, h1⟩, if_neg]
        rintro (hr | hall)
        · exact hz (hfull.2 hr)
        · exact h1 (hone.2 hall)

/-- It returns 0 for the codes that a block may give. -/
theorem huftBuild_ret_zero {s : Nat} {d e : List Nat} {m : Nat} {heap : Heap} {v : Nat → Nat}
    {r : Huft} (hle : ∀ k ∈ b, k ≤ 15) :
    (huftBuild b s d e m heap v r).ret = 0 ↔ Allowed b := by
  rw [huftBuild_ret fun k hk => (hle k hk).trans (by decide), Allowed, whole_iff hle]
  by_cases hover : room b > 2 ^ bmax
  · rw [if_pos hover]
    refine iff_of_false (by decide) ?_
    rintro (hfull | ⟨hshort, hone⟩)
    · omega
    · rw [room_of_short hshort] at hover
      have := Nat.mul_le_mul_right (2 ^ 15) hone
      norm_num [bmax] at hover
      omega
  · rw [if_neg hover]
    by_cases hzero : room b = 2 ^ bmax ∨ ∀ k ∈ b, k ≤ 1
    · rw [if_pos hzero]
      refine iff_of_true rfl ?_
      by_cases hfull : room b = 2 ^ bmax
      · exact Or.inl hfull
      · have hshort := hzero.resolve_left hfull
        refine Or.inr ⟨hshort, ?_⟩
        rw [room_of_short hshort] at hover hfull
        norm_num [bmax] at hover hfull
        omega
    · rw [if_neg hzero]
      refine iff_of_false (by decide) ?_
      rintro (hfull | ⟨hshort, -⟩)
      · exact hzero (Or.inl hfull)
      · exact hzero (Or.inr hshort)

end

/-! ## Top theorem -/

/-- The entry that stands for value `x`. -/
def EntryFor (s : Nat) (d e : List Nat) (x : Nat) (r : Huft) : Prop :=
  if x < s then r.e = (if x < 256 then 16 else 15) ∧ r.v = .n (x % 65536)
  else r.e = e.getD (x - s) 0 % 256 ∧ r.v = .n (d.getD (x - s) 0)

/-- The tables decode these codes: data that begin with one are led to its entry, and
as many bits are used as it has. -/
def Decoder (b : List Nat) (s : Nat) (d e : List Nat) (heap : Heap) (t : Option Nat) (m : Nat) :
    Prop :=
  ∀ S x k, Decodes b S x k → ∃ root P r, t = some root ∧ P.w root = 0 ∧ P.bits root = m ∧
    EntryFor s d e x r ∧ Leads P heap S root k r

theorem Decoder.mono {b : List Nat} {s : Nat} {d e : List Nat} {heap heap' : Heap} {t : Option Nat}
    {m : Nat} (h : Decoder b s d e heap t m) (hcount : heap.count ≤ heap'.count)
    (hcell : ∀ t < heap.count, heap'.cell t = heap.cell t) : Decoder b s d e heap' t m := by
  intro S x k hx
  obtain ⟨root, P, r, ht, hw, hbits, hr, hleads⟩ := h S x k hx
  refine ⟨root, P, r, ht, hw, hbits, hr, ?_⟩
  exact hleads.congr hcount (fun _ _ => ⟨rfl, rfl, rfl⟩) fun t ht _ => by rw [hcell t ht]

/-- With no code longer than the first table all codes are in it. -/
theorem le_huftBuild_m {b : List Nat} {s : Nat} {d e : List Nat} {m : Nat} {heap : Heap}
    {v : Nat → Nat} {r : Huft} (hm : m ≤ bmax) (hle : ∀ k ∈ b, k ≤ m) {S x k : Nat}
    (hx : Decodes b S x k) : k ≤ (huftBuild b s d e m heap v r).m := by
  obtain ⟨hx, hk, -⟩ := hx
  have hmem : k ∈ b := List.mem_of_getElem? hx
  have hle' : ∀ k ∈ b, k ≤ bmax := fun k hk => (hle k hk).trans hm
  have h0 : b.count 0 ≠ b.length := fun h0 => by
    have := List.count_eq_length.1 h0 k hmem
    omega
  obtain ⟨-, -, -, habove⟩ := maxLength_spec (exists_length hle' h0)
  have hkmax : k ≤ maxLength (count b) := by
    by_contra hcon
    exact Nat.pos_iff_ne_zero.1 (List.count_pos_iff.2 hmem) (habove k (by omega) (hle' k hmem))
  have hlen : k ≤ tableLength b m := by
    have := hle k hmem
    rcases (tableLength_spec (m := m) hle' h0).2.2 with hml | hall <;> omega
  rw [huftBuild_eq s d e heap v r hle', if_neg h0]
  split
  · exact hlen
  · exact hlen

theorem huftBuild_m_le {b : List Nat} {s : Nat} {d e : List Nat} {m : Nat} {heap : Heap}
    {v : Nat → Nat} {r : Huft} (hle : ∀ k ∈ b, k ≤ bmax) :
    (huftBuild b s d e m heap v r).m ≤ bmax := by
  rw [huftBuild_eq s d e heap v r hle]
  by_cases h0 : b.count 0 = b.length
  · rw [if_pos h0]
    exact Nat.zero_le _
  · have hlen : tableLength b m ≤ bmax :=
      (tableLength_spec hle h0).2.1.trans (maxLength_spec (exists_length hle h0)).2.1
    rw [if_neg h0]
    split
    · exact hlen
    · exact hlen

/-- **Tables of `huft_build`.**  Where the lengths are not refused, the tables decode the
codes that they stand for, and what was in the memory stays. -/
theorem huftBuild_decoder {b : List Nat} {s : Nat} {d e : List Nat} {m : Nat} {heap : Heap}
    {v : Nat → Nat} {r : Huft} (hle : ∀ k ∈ b, k ≤ bmax) (hm : Shallow b m)
    (hret : (huftBuild b s d e m heap v r).ret ≠ 2) :
    Decoder b s d e (huftBuild b s d e m heap v r).heap (huftBuild b s d e m heap v r).t
        (huftBuild b s d e m heap v r).m ∧
      heap.count ≤ (huftBuild b s d e m heap v r).heap.count ∧
      ∀ t < heap.count, (huftBuild b s d e m heap v r).heap.cell t = heap.cell t := by
  rw [huftBuild_eq s d e heap v r hle] at hret ⊢
  by_cases h0 : b.count 0 = b.length
  · rw [if_pos h0]
    refine ⟨?_, Nat.le_refl _, fun _ _ => rfl⟩
    -- no code has a length
    rintro S x k ⟨hx, hk, -⟩
    have hzero := List.count_eq_length.1 h0 k (List.mem_of_getElem? hx)
    omega
  rw [if_neg h0] at hret ⊢
  by_cases hneg : spare (count b) (maxLength (count b)) < 0
  · rw [if_pos hneg] at hret
    exact absurd rfl hret
  rw [if_neg hneg]
  obtain ⟨hmax1, -, -, habove⟩ := maxLength_spec (exists_length hle h0)
  have hmin := min_le_max hle h0
  have hC := codingOf_ok (s := s) (d := d) (e := e) (v := v) hle h0 hneg hm
  have hstart := @start_inv b m s d e v heap r
    ⟨fun _ => 0, fun _ => 0, fun _ => 0⟩ hle h0
  obtain ⟨P, M, hM, hinv⟩ := lengthsFrom_leads hC
    (maxLength (count b) - minLength (count b)) (by show _ = maxLength (count b); omega) (minLength_spec (exists_length hle h0)).1 hstart
  have hlen : maxLength (count b) + 1 - minLength (count b) =
      maxLength (count b) - minLength (count b) + 1 := by omega
  dsimp only
  rw [hlen, hM]
  refine ⟨?_, hinv.count, hinv.old⟩
  rintro S x k ⟨hx, hk, hS⟩
  have hmem : k ∈ b := List.mem_of_getElem? hx
  have hkg : k ≤ maxLength (count b) := by
    by_contra hcon
    exact Nat.pos_iff_ne_zero.1 (List.count_pos_iff.2 hmem) (habove k (by omega) (hle k hmem))
  have hrank : (b.take x).count k < count b k := by
    obtain ⟨hlt, rfl⟩ := List.getElem?_eq_some_iff.1 hx
    have hsub := (List.take_sublist (x + 1) b).count_le b[x]
    rw [List.take_succ_eq_append_getElem hlt, List.count_append, List.count_singleton_self] at hsub
    exact Nat.lt_of_succ_le hsub
  have hrank' : (b.take x).count k < used (filled b) k := by
    rw [used_of_pos hk]
    exact Nat.lt_of_lt_of_le hrank (count_le_filled b k)
  have hbegins : Begins (used (filled b)) k ((b.take x).count k) S := by
    show S % 2 ^ k = rev k (firstCode (used (filled b)) k + _)
    rw [firstCode_congr fun j hj => used_filled hkg hj]
    exact hS
  obtain ⟨entry, ⟨bits, r', rfl⟩, hleads⟩ := hinv.done k _ (by
    rcases Nat.lt_or_eq_of_le hkg with hlt | heq
    · exact Or.inl hlt
    · exact Or.inr ⟨heq, heq ▸ hrank'⟩) hk hkg hrank' S hbegins
  obtain ⟨hroot, hrootBits⟩ : M.t = some (M.u 0) ∧ P.bits (M.u 0) = tableLength b m := by
    refine hinv.root (Nat.pos_of_ne_zero fun hlev => ?_)
    obtain ⟨-, hused, hpos, -⟩ := hinv.first hlev
    omega
  have hw : P.w (M.u 0) = 0 := by
    refine (hinv.stack 0 (Nat.pos_of_ne_zero fun hlev => ?_)).w.trans (Nat.mul_zero _)
    obtain ⟨-, hused, hpos, -⟩ := hinv.first hlev
    omega
  refine ⟨M.u 0, P, _, hroot, hw, hrootBits, ?_, hleads⟩
  -- the place of the code has its value
  have hplace : place (used (filled b)) k ((b.take x).count k) =
      place (used (count b)) k ((b.take x).count k) := by
    unfold place
    rw [offset_congr fun j hj => used_filled hkg hj]
  have hlt : place (used (filled b)) k ((b.take x).count k) < b.length :=
    hplace ▸ place_lt_length hk hrank
  have hval : (codingOf b s d e m v).v (place (used (filled b)) k ((b.take x).count k)) = x :=
    sortValues_place (fun k _ => count_le_filled b k) v hx hk
  show EntryFor s d e x (nextEntry (codingOf b s d e m v) bits
    (min (place (used (filled b)) k ((b.take x).count k)) b.length) r').1
  rw [Nat.min_eq_left (Nat.le_of_lt hlt), nextEntry_of_lt hlt, hval]
  unfold EntryFor
  by_cases hxs : x < s
  · rw [if_pos (show x < (codingOf b s d e m v).s from hxs), if_pos hxs]
    exact ⟨rfl, rfl⟩
  · rw [if_neg (show ¬ x < (codingOf b s d e m v).s from hxs), if_neg hxs]
    exact ⟨rfl, rfl⟩

end Gentoox.Gzip
