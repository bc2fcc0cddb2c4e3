import GentooxLoader.Base.BitOrder
import Mathlib.Algebra.BigOperators.Intervals
import Mathlib.Algebra.Order.BigOperators.Group.Finset

/-!
# Prefix codes given by how many there are of each length

`c k` codes have `k` bits.  They are numbered one after the other: the codes of
one length are consecutive, and a longer one begins behind all shorter ones.
`value` is the code with zeros behind it, brought to `g` bits, so that the codes
are intervals of the numbers below `2 ^ g`.

    value_order           a later code lies behind an earlier one
    begins_iff            data that begin with a code are its interval
    not_begins_of_before  at most one code is at the beginning of data
    room_le               what is left has enough codes
    place_order           the place of a code in the order
-/

namespace PrefixCodes

open BitOrder

/-- The counts of lengths as counts of codes: there is no code of 0 bits. -/
def used (c : Nat → Nat) (k : Nat) : Nat := if k = 0 then 0 else c k

theorem used_of_pos {c : Nat → Nat} {k : Nat} (h : 0 < k) : used c k = c k :=
  if_neg (Nat.pos_iff_ne_zero.1 h)

/-- The number of the first code that has `k` bits. -/
def firstCode (c : Nat → Nat) : Nat → Nat
  | 0 => 0
  | k + 1 => 2 * (firstCode c k + c k)

/-- How many codes have fewer than `k` bits. -/
def offset (c : Nat → Nat) : Nat → Nat
  | 0 => 0
  | k + 1 => offset c k + c k

/-- Code `r` of those with `k` bits. -/
def code (c : Nat → Nat) (k r : Nat) : Nat := firstCode c k + r

def value (c : Nat → Nat) (g k r : Nat) : Nat := code c k r * 2 ^ (g - k)

def place (c : Nat → Nat) (k r : Nat) : Nat := offset c k + r

/-- The first bits of `S` are the code, its highest bit first. -/
def Begins (c : Nat → Nat) (k r S : Nat) : Prop := S % 2 ^ k = rev k (code c k r)

instance (c : Nat → Nat) (k r S : Nat) : Decidable (Begins c k r S) :=
  inferInstanceAs (Decidable (_ = _))

/-- The codes of up to `g` bits use up all numbers. -/
def Complete (c : Nat → Nat) (g : Nat) : Prop := firstCode c g + c g = 2 ^ g

/-- Code `r` of those with `k` bits comes before code `r'` of those with `k'`. -/
def Before (k r k' r' : Nat) : Prop := k < k' ∨ k = k' ∧ r < r'

section
variable {c : Nat → Nat} {g k r k' r' S : Nat}

/-! ## Values -/

theorem value_add (c : Nat → Nat) (g k r n : Nat) :
    value c g k (r + n) = value c g k r + n * 2 ^ (g - k) := by
  unfold value code
  ring

/-- The next length begins where this one ends. -/
theorem value_succ (h : k < g) : value c g (k + 1) 0 = value c g k (c k) := by
  obtain ⟨d, rfl⟩ := Nat.exists_eq_add_of_le h
  have hsub : k + 1 + d - k = d + 1 := by omega
  unfold value code
  rw [hsub, Nat.add_sub_cancel_left, firstCode, Nat.pow_succ]
  ring

theorem value_end_le (hk : k < k') (hg : k' ≤ g) : value c g k (c k) ≤ value c g k' 0 := by
  induction k', hk using Nat.le_induction with
  | base => exact (value_succ (k := k) hg).ge
  | succ m hm ih =>
    have hstep : value c g (m + 1) 0 = value c g m 0 + c m * 2 ^ (g - m) := by
      rw [value_succ (k := m) hg, ← value_add, Nat.zero_add]
    rw [hstep]
    exact (ih (Nat.le_of_succ_le hg)).trans (Nat.le_add_right _ _)

/-- **A later code lies behind an earlier one.** -/
theorem value_order (h : Before k r k' r') (hr : r < c k) (hg : k' ≤ g) :
    value c g k r + 2 ^ (g - k) ≤ value c g k' r' := by
  have hnext : value c g k (r + 1) = value c g k r + 2 ^ (g - k) := by rw [value_add, Nat.one_mul]
  rw [← hnext]
  rcases h with hk | ⟨rfl, hr'⟩
  · calc value c g k (r + 1) ≤ value c g k (c k) :=
          Nat.mul_le_mul_right _ (Nat.add_le_add_left hr _)
      _ ≤ value c g k' 0 := value_end_le hk hg
      _ ≤ value c g k' r' := Nat.mul_le_mul_right _ (Nat.add_le_add_left (Nat.zero_le _) _)
  · exact Nat.mul_le_mul_right _ (Nat.add_le_add_left hr' _)

theorem dvd_value : 2 ^ (g - k) ∣ value c g k r := Nat.dvd_mul_left _ _

theorem Complete.value_end (h : Complete c g) : value c g g (c g) = 2 ^ g := by
  unfold value code
  rw [h, Nat.sub_self, Nat.pow_zero, Nat.mul_one]

theorem Complete.value_le (h : Complete c g) (hk : k ≤ g) (hr : r ≤ c k) :
    value c g k r ≤ 2 ^ g := by
  have hend : value c g k r ≤ value c g k (c k) :=
    Nat.mul_le_mul_right _ (Nat.add_le_add_left hr _)
  refine hend.trans ?_
  rcases Nat.lt_or_eq_of_le hk with hlt | rfl
  · calc value c g k (c k) ≤ value c g g 0 := value_end_le hlt (Nat.le_refl g)
      _ ≤ value c g g (c g) := Nat.mul_le_mul_right _ (Nat.add_le_add_left (Nat.zero_le _) _)
      _ = 2 ^ g := h.value_end
  · exact h.value_end.le

theorem Complete.value_lt (h : Complete c g) (hk : k ≤ g) (hr : r < c k) :
    value c g k r + 2 ^ (g - k) ≤ 2 ^ g := by
  have hle := h.value_le hk (Nat.succ_le_of_lt hr)
  rwa [Nat.succ_eq_add_one, value_add, Nat.one_mul] at hle

/-! ## What data begin with -/

/-- The code read with its first bit lowest. -/
theorem rev_value (hk : k ≤ g) : rev g (value c g k r) = rev k (code c k r) := by
  obtain ⟨d, rfl⟩ := Nat.exists_eq_add_of_le hk
  rw [value, Nat.add_sub_cancel_left, rev_mul]

theorem begins_iff (h : Complete c g) (hk : k ≤ g) (hr : r < c k) :
    Begins c k r S ↔ value c g k r ≤ rev g S ∧ rev g S < value c g k r + 2 ^ (g - k) := by
  have hlt : value c g k r < 2 ^ g :=
    lt_of_lt_of_le (Nat.lt_add_of_pos_right (Nat.two_pow_pos _)) (h.value_lt hk hr)
  have hrev := rev_mem_iff (S := S) hk (dvd_value (c := c) (r := r))
  rw [rev_value hk, Nat.mod_eq_of_lt (rev_lt k _)] at hrev
  unfold Begins
  constructor
  · intro hS
    exact ⟨(hrev.1 ⟨hS, hlt⟩).1, (hrev.1 ⟨hS, hlt⟩).2.1⟩
  · rintro ⟨h1, h2⟩
    exact (hrev.2 ⟨h1, h2, hlt⟩).1

/-- **No code is the beginning of another.** -/
theorem not_begins_of_before (h : Complete c g) (hb : Before k r k' r') (hr : r < c k)
    (hk' : k' ≤ g) (hr' : r' < c k') (hS : Begins c k r S) : ¬ Begins c k' r' S := by
  have hk : k ≤ g := by
    rcases hb with hb | hb <;> omega
  intro hS'
  have hlt := ((begins_iff h hk hr).1 hS).2
  have hge := ((begins_iff h hk' hr').1 hS').1
  have horder := value_order hb hr hk'
  omega

theorem before_or (k r k' r' : Nat) : Before k r k' r' ∨ (k = k' ∧ r = r') ∨ Before k' r' k r := by
  unfold Before
  omega

/-! ## What is left -/

/-- How many codes have `k` bits or more. -/
def left (c : Nat → Nat) (g k : Nat) : Nat := ∑ j ∈ Finset.Ico k (g + 1), c j

theorem left_succ (h : k ≤ g) : left c g k = c k + left c g (k + 1) :=
  Finset.sum_eq_sum_Ico_succ_bot (Nat.lt_succ_of_le h) c

/-- **The codes from `k` bits on, each as long as possible, fill the numbers.** -/
theorem Complete.room_le (h : Complete c g) (hk : k ≤ g) :
    2 ^ g ≤ value c g k 0 + left c g k * 2 ^ (g - k) := by
  induction hk using Nat.decreasingInduction with
  | self =>
    rw [left, Finset.sum_Ico_succ_top (Nat.le_refl g), Finset.Ico_self, Finset.sum_empty,
      Nat.zero_add, ← value_add, Nat.zero_add, h.value_end]
  | of_succ m hm ih =>
    have hhalf : 2 ^ (g - (m + 1)) ≤ 2 ^ (g - m) := Nat.pow_le_pow_right Nat.two_pos (by omega)
    rw [value_succ hm] at ih
    have hend : value c g m (c m) = value c g m 0 + c m * 2 ^ (g - m) := by
      rw [← value_add, Nat.zero_add]
    calc 2 ^ g ≤ value c g m (c m) + left c g (m + 1) * 2 ^ (g - (m + 1)) := ih
      _ ≤ value c g m (c m) + left c g (m + 1) * 2 ^ (g - m) :=
          Nat.add_le_add_left (Nat.mul_le_mul_left _ hhalf) _
      _ = value c g m 0 + left c g m * 2 ^ (g - m) := by
          rw [hend, left_succ (Nat.le_of_lt hm)]
          ring

theorem left_le (h : k ≤ k') : left c g k' ≤ left c g k :=
  Finset.sum_le_sum_of_subset (Finset.Ico_subset_Ico_left h)

/-! ## Places -/

theorem firstCode_congr {c' : Nat → Nat} (h : ∀ j < k, c' j = c j) :
    firstCode c' k = firstCode c k := by
  induction k with
  | zero => rfl
  | succ k ih =>
    rw [firstCode, firstCode, ih fun j hj => h j (Nat.lt_succ_of_lt hj), h k (Nat.lt_succ_self k)]

theorem offset_congr {c' : Nat → Nat} (h : ∀ j < k, c' j = c j) : offset c' k = offset c k := by
  induction k with
  | zero => rfl
  | succ k ih =>
    rw [offset, offset, ih fun j hj => h j (Nat.lt_succ_of_lt hj), h k (Nat.lt_succ_self k)]

theorem offset_add_left (h : k ≤ g + 1) : offset c k + left c g k = offset c (g + 1) := by
  have hsum : ∀ n, offset c n = ∑ j ∈ Finset.range n, c j := by
    intro n
    induction n with
    | zero => rfl
    | succ n ih => rw [offset, ih, Finset.sum_range_succ]
  rw [hsum, hsum, left, Finset.sum_range_add_sum_Ico _ h]

theorem offset_mono (h : k ≤ k') : offset c k ≤ offset c k' := by
  induction k', h using Nat.le_induction with
  | base => exact Nat.le_refl _
  | succ m _ ih => exact ih.trans (Nat.le_add_right _ _)

theorem place_order (h : Before k r k' r') (hr : r < c k) : place c k r < place c k' r' := by
  unfold place
  rcases h with hk | ⟨rfl, hr'⟩
  · have hmono : offset c (k + 1) ≤ offset c k' := offset_mono hk
    rw [offset] at hmono
    omega
  · omega

theorem place_inj (hr : r < c k) (hr' : r' < c k') (h : place c k r = place c k' r') :
    k = k' ∧ r = r' := by
  rcases before_or k r k' r' with hb | heq | hb
  · have := place_order (c := c) hb hr
    omega
  · exact heq
  · have := place_order (c := c) hb hr'
    omega

end

end PrefixCodes
