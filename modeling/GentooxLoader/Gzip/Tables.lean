import GentooxLoader.Gzip.HuftBuild

/-!
# What the tables decode (lib/gzip/inflate.c)

Data that begin with the `r`-th code of `k` bits are led from the first table to
the entry of that code, and `k` bits of them are used.  `Inv` is what holds
between two codes of the main loop of `huft_build`: the tables on the stack are
those that the next code goes through, and all codes before are done.

    Leads.congr         what data are led to depends on few cells
    Inv.newTables       the tables for the next bits
    Inv.oneCode         one more code is done
    lengthsFrom_leads   all codes are done
-/

namespace Gentoox.Gzip

open BitOrder PrefixCodes

/-! ## Where data are led -/

/-- What each table is for: data that begin with the `w` bits `pre`, and of
these it takes the next `bits` bits. -/
structure Places where
  w : Nat → Nat
  pre : Nat → Nat
  bits : Nat → Nat

/-- The cell of table `t` that data `S` come to. -/
def Places.idx (P : Places) (S t : Nat) : Nat := S / 2 ^ P.w t % 2 ^ P.bits t

/-- From table `t` the data are led to the entry, with `k` bits in all. -/
inductive Leads (P : Places) (heap : Heap) (S : Nat) : Nat → Nat → Huft → Prop
  | leaf {t : Nat} (ht : t < heap.count) (hpre : S % 2 ^ P.w t = P.pre t)
      (hroom : P.w t + P.bits t ≤ bmax)
      (hb : 0 < (heap.cell t (P.idx S t)).b ∧ (heap.cell t (P.idx S t)).b ≤ P.bits t) :
      Leads P heap S t (P.w t + (heap.cell t (P.idx S t)).b) (heap.cell t (P.idx S t))
  | link {t t' k : Nat} {e : Huft} (ht : t < heap.count) (hpre : S % 2 ^ P.w t = P.pre t)
      (hroom : P.w t + P.bits t ≤ bmax) (hw : P.w t' = P.w t + P.bits t) (hpos : 0 < P.bits t)
      (hbits : 0 < P.bits t') (hcell : heap.cell t (P.idx S t) = ⟨16 + P.bits t', P.bits t, .t t'⟩)
      (h : Leads P heap S t' k e) : Leads P heap S t k e

theorem Leads.congr {P P' : Places} {heap heap' : Heap} {S t k : Nat} {e : Huft}
    (h : Leads P heap S t k e) (hcount : heap.count ≤ heap'.count)
    (hP : ∀ t < heap.count, P'.w t = P.w t ∧ P'.pre t = P.pre t ∧ P'.bits t = P.bits t)
    (hcell : ∀ t < heap.count, S % 2 ^ P.w t = P.pre t →
      heap'.cell t (P.idx S t) = heap.cell t (P.idx S t)) :
    Leads P' heap' S t k e := by
  have hidx : ∀ t < heap.count, P'.idx S t = P.idx S t := by
    intro t ht
    obtain ⟨hw, _, hbits⟩ := hP t ht
    rw [Places.idx, Places.idx, hw, hbits]
  induction h with
  | @leaf t ht hpre hroom hb =>
    obtain ⟨hw, hp, hbits⟩ := hP t ht
    have hleaf : Leads P' heap' S t (P'.w t + (heap'.cell t (P'.idx S t)).b)
        (heap'.cell t (P'.idx S t)) :=
      .leaf (Nat.lt_of_lt_of_le ht hcount) (by rw [hw, hp, hpre]) (by rw [hw, hbits]; exact hroom)
        (by rw [hidx t ht, hcell t ht hpre, hbits]; exact hb)
    rw [hidx t ht, hcell t ht hpre, hw] at hleaf
    exact hleaf
  | @link t t' k e ht hpre hroom hlt hpos hnext hlink h ih =>
    have ht' : t' < heap.count := by
      cases h with
      | leaf ht' => exact ht'
      | link ht' => exact ht'
    obtain ⟨hw, hp, hbits⟩ := hP t ht
    obtain ⟨hw', _, hbits'⟩ := hP t' ht'
    refine .link (Nat.lt_of_lt_of_le ht hcount) (by rw [hw, hp, hpre])
      (by rw [hw, hbits]; exact hroom) (by rw [hw, hw', hbits]; exact hlt) (by rw [hbits]; exact hpos)
      (by rw [hbits']; exact hnext) ?_ ih
    rw [hidx t ht, hcell t ht hpre, hlink, hbits, hbits']

/-- The entry is behind the table. -/
theorem Leads.lt {P : Places} {heap : Heap} {S t k : Nat} {e : Huft} (h : Leads P heap S t k e) :
    P.w t < k := by
  induction h with
  | leaf _ _ _ hb => exact Nat.lt_add_of_pos_right hb.1
  | link _ _ _ hw _ _ _ _ ih => omega

/-- A code of no more bits than the table has is in it. -/
theorem Leads.single {P : Places} {heap : Heap} {S t k : Nat} {e : Huft} (h : Leads P heap S t k e)
    (hk : k ≤ P.w t + P.bits t) : heap.cell t (P.idx S t) = e ∧ e.b = k - P.w t := by
  cases h with
  | leaf _ _ _ _ => exact ⟨rfl, (Nat.add_sub_cancel_left _ _).symm⟩
  | link _ _ _ hw _ _ _ h' =>
    have := h'.lt
    omega

/-! ## Between two codes -/

/-- What the first half of `huft_build` sees to.  The last part holds of all
tables that are asked for: two levels, or few codes. -/
structure Coding.Ok (C : Coding) : Prop where
  complete : Complete (used C.c) C.g
  l_pos : 0 < C.l
  l_le : C.l ≤ C.g
  g_le : C.g ≤ bmax
  longest : C.c C.g ≠ 0
  narrow : C.g ≤ 2 * C.l ∨ left (used C.c) C.g 1 < 2 ^ C.l

/-- The entry that is made for the value in this place. -/
def Coding.IsEntry (C : Coding) (idx : Nat) (e : Huft) : Prop :=
  ∃ b r, (nextEntry C b (min idx C.n) r).1 = e

/-- The value of a code in the coding. -/
def Coding.val (C : Coding) (k r : Nat) : Nat := value (used C.c) C.g k r

/-- Table `t` has a cell for each code that comes to it, or goes on after `l` bits. -/
def Coding.Fits (C : Coding) (P : Places) (t : Nat) : Prop :=
  P.bits t = C.l ∨ ∀ k r, 1 ≤ k → k ≤ C.g → r < used C.c k →
    rev C.g (C.val k r) % 2 ^ P.w t = P.pre t → k ≤ P.w t + P.bits t

/-- A table that the next code goes through, at level `h`. -/
structure OnStack (C : Coding) (P : Places) (heap₀ : Heap) (M : Making) (h : Nat) : Prop where
  new : heap₀.count ≤ M.u h
  made : M.u h < M.heap.count
  w : P.w (M.u h) = C.l * h
  pre : P.pre (M.u h) = M.x h
  code : M.i % 2 ^ (C.l * h) = M.x h
  bits : P.bits (M.u h) ≤ C.l
  room : C.l * h + P.bits (M.u h) ≤ C.g
  fits : C.Fits P (M.u h)

/-- The entry of level `h` that leads to the next. -/
structure Linked (C : Coding) (P : Places) (M : Making) (h : Nat) : Prop where
  full : P.bits (M.u h) = C.l
  pos : 0 < P.bits (M.u (h + 1))
  cell : M.heap.cell (M.u h) (M.x (h + 1) / 2 ^ (C.l * h)) =
    ⟨16 + P.bits (M.u (h + 1)), C.l, .t (M.u (h + 1))⟩

/-- The codes before code `r` of `k` bits are done, and it is the next. -/
structure Inv (C : Coding) (P : Places) (heap₀ : Heap) (k r : Nat) (M : Making) : Prop where
  i : M.i = rev C.g (C.val k r)
  x0 : M.x 0 = 0
  count : heap₀.count ≤ M.heap.count
  old : ∀ t < heap₀.count, M.heap.cell t = heap₀.cell t
  stack : ∀ h < M.levels, OnStack C P heap₀ M h
  links : ∀ h, h + 1 < M.levels → Linked C P M h
  root : 0 < M.levels → M.t = some (M.u 0) ∧ P.bits (M.u 0) = C.l
  first : M.levels = 0 → k ≤ C.l ∧ r = 0 ∧ 0 < used C.c k ∧ C.val k r = 0
  above : ∀ h < M.levels, C.l * h < k
  dvd : 2 ^ (C.g - C.l * M.levels) ∣ C.val k r
  top : k ≤ C.l * M.levels → M.q = M.u (M.levels - 1) ∧ 2 ^ P.bits M.q ≤ M.z
  p : M.p = min (place (used C.c) k r) C.n
  done : ∀ k' r', Before k' r' k r → 1 ≤ k' → k' ≤ C.g → r' < used C.c k' →
    ∀ S, Begins (used C.c) k' r' S →
      ∃ e, C.IsEntry (place (used C.c) k' r') e ∧ Leads P M.heap S (M.u 0) k' e

/-! ## The size of the next table -/

section
variable {C : Coding} {k r : Nat}

theorem Coding.Ok.val_lt (hC : C.Ok) (hk : k ≤ C.g) (hr : r < used C.c k) :
    C.val k r + 2 ^ (C.g - k) ≤ 2 ^ C.g := hC.complete.value_lt hk hr

/-- Up to a length below the longest not all is used. -/
theorem Coding.Ok.not_full (hC : C.Ok) (hk : k < C.g) : C.val k (used C.c k) < 2 ^ C.g := by
  have hpos : 0 < used C.c C.g := by
    rw [used_of_pos (by omega)]
    exact Nat.pos_of_ne_zero hC.longest
  have hle : C.val k (used C.c k) ≤ C.val C.g 0 := value_end_le hk (Nat.le_refl _)
  have hlt := hC.val_lt (Nat.le_refl C.g) hpos
  have := Nat.two_pow_pos (C.g - C.g)
  omega

/-- The longest codes: those that are left fill the room. -/
theorem Coding.Ok.last_room (hC : C.Ok) {n : Nat} (hr : r < used C.c C.g)
    (hn : C.val C.g r + n ≤ 2 ^ C.g) : n ≤ used C.c C.g - r := by
  have hall : C.val C.g (r + (used C.c C.g - r)) =
      C.val C.g r + (used C.c C.g - r) * 2 ^ (C.g - C.g) := value_add _ _ _ _ _
  have hfull : C.val C.g (used C.c C.g) = 2 ^ C.g := hC.complete.value_end
  rw [Nat.add_sub_cancel' (Nat.le_of_lt hr), hfull, Nat.sub_self, Nat.pow_zero, Nat.mul_one] at hall
  omega

/-- From a code with nothing but zeros behind `w` bits there is room for all that
begins with these. -/
theorem Coding.Ok.val_room (hC : C.Ok) {w : Nat} (hk : k ≤ C.g) (hr : r < used C.c k) (hw : w ≤ C.g)
    (hdvd : 2 ^ (C.g - w) ∣ C.val k r) : C.val k r + 2 ^ (C.g - w) ≤ 2 ^ C.g := by
  obtain ⟨m, hm⟩ := hdvd
  have hlt := hC.val_lt hk hr
  have hpos := Nat.two_pow_pos (C.g - k)
  have hsplit : 2 ^ C.g = 2 ^ (C.g - w) * 2 ^ w := by rw [← Nat.pow_add, Nat.sub_add_cancel hw]
  have hmw : m < 2 ^ w := by
    apply Nat.lt_of_mul_lt_mul_left (a := 2 ^ (C.g - w))
    omega
  rw [hm, hsplit, ← Nat.mul_succ]
  exact Nat.mul_le_mul_left _ hmw

/-- One more table is enough for the next code. -/
theorem Coding.Ok.narrow_at (hC : C.Ok) {w : Nat} (h1 : 1 ≤ k) (hk : k ≤ C.g)
    (hr : r < used C.c k) (hw : w ≤ k) (hdvd : 2 ^ (C.g - w) ∣ C.val k r) :
    C.g ≤ 2 * C.l ∨ k - w < C.l := by
  refine hC.narrow.imp_right fun hfew => ?_
  have hroom := hC.val_room hk hr (Nat.le_trans hw hk) hdvd
  have hleft : 2 ^ C.g ≤ C.val k 0 + left (used C.c) C.g k * 2 ^ (C.g - k) :=
    hC.complete.room_le hk
  have hmono : C.val k 0 ≤ C.val k r := Nat.mul_le_mul_right _ (Nat.add_le_add_left (Nat.zero_le r) _)
  have hless : left (used C.c) C.g k < 2 ^ C.l := lt_of_le_of_lt (left_le h1) hfew
  have hlt : 2 ^ (C.g - w) < 2 ^ (C.l + (C.g - k)) := by
    rw [Nat.pow_add]
    calc 2 ^ (C.g - w) ≤ left (used C.c) C.g k * 2 ^ (C.g - k) := by omega
      _ < 2 ^ C.l * 2 ^ (C.g - k) := Nat.mul_lt_mul_of_pos_right hless (Nat.two_pow_pos _)
  have := (Nat.pow_lt_pow_iff_right Nat.one_lt_two).1 hlt
  omega

/-- What is known of the size that `huft_build` finds: large enough, or all codes
that begin so are that short. -/
theorem tableBits_spec (hC : C.Ok) {w : Nat} (h1 : 1 ≤ k) (hk : k ≤ C.g) (hr : r < used C.c k)
    (hw : w < k) (hdvd : 2 ^ (C.g - w) ∣ C.val k r) (hl : k - w ≤ C.l) :
    k - w ≤ tableBits C w k (used C.c k - 1 - r) ∧
      (C.l ≤ tableBits C w k (used C.c k - 1 - r) ∨
        C.val k r + 2 ^ (C.g - w) ≤ C.val (w + tableBits C w k (used C.c k - 1 - r))
          (used C.c (w + tableBits C w k (used C.c k - 1 - r)))) ∧
      (C.g - w ≤ C.l ∨ k - w < C.l → tableBits C w k (used C.c k - 1 - r) ≤ C.l ∧
        w + tableBits C w k (used C.c k - 1 - r) ≤ C.g) := by
  have hroom := hC.val_room hk hr (Nat.le_of_lt (Nat.lt_of_lt_of_le hw hk)) hdvd
  have hwk : w + (k - w) = k := Nat.add_sub_cancel' (Nat.le_of_lt hw)
  have hpow : 2 ^ (C.g - w) = 2 ^ (k - w) * 2 ^ (C.g - k) := by
    rw [← Nat.pow_add]
    congr 1
    omega
  have hval : ∀ n, C.val k (r + n) = C.val k r + n * 2 ^ (C.g - k) := value_add _ _ _ _
  have hcount : used C.c k - 1 - r + 1 = used C.c k - r := by omega
  unfold tableBits
  dsimp only
  rw [hcount]
  by_cases hmany : 2 ^ (k - w) > used C.c k - r
  · rw [if_pos hmany]
    have hz : (if C.g - w > C.l then C.l else C.g - w) ≤ C.g - w ∧
        (if C.g - w > C.l then C.l else C.g - w) ≤ C.l ∧
        (C.l ≤ (if C.g - w > C.l then C.l else C.g - w) ∨
          C.g - w ≤ (if C.g - w > C.l then C.l else C.g - w)) := by
      split <;> omega
    generalize (if C.g - w > C.l then C.l else C.g - w) = z at hz ⊢
    have hT : value (used C.c) C.g (w + (k - w)) (used C.c (w + (k - w))) +
        (2 ^ (k - w) - (used C.c k - r)) * 2 ^ (C.g - (w + (k - w))) =
        C.val k r + 2 ^ (C.g - w) := by
      have hend := hval (used C.c k - r)
      rw [Nat.add_sub_cancel' (Nat.le_of_lt hr)] at hend
      rw [hwk]
      show C.val k (used C.c k) + _ = _
      rw [hend, hpow, Nat.add_assoc, ← Nat.add_mul, Nat.add_sub_cancel' (Nat.le_of_lt hmany)]
    obtain ⟨hge, hle, hend⟩ := moreBits_spec (c := C.c) (w := w) (z := z) (by omega) (by omega) hT
    refine ⟨by omega, ?_, fun hsmall => ?_⟩
    · rcases hend with hzle | hclose
      · rcases hz.2.2 with hlz | hgz
        · exact Or.inl (hlz.trans hzle)
        · -- all bits that are left
          by_cases hgj : moreBits C.c w z (2 ^ (k - w) - (used C.c k - r)) (k - w) = C.g - w
          · right
            rw [hgj, Nat.add_sub_cancel' (by omega)]
            exact hroom.trans (hC.complete.value_end).ge
          · left
            have hzg : z = C.g - w := by omega
            have hkg : k = C.g := by omega
            subst hkg
            have := hC.last_room hr hroom
            omega
      · exact Or.inr hclose
    · have hlt : k - w < z := by
        by_contra hcon
        have hkg : k = C.g := by omega
        subst hkg
        have := hC.last_room hr hroom
        omega
      omega
  · rw [if_neg hmany]
    refine ⟨Nat.le_refl _, Or.inr ?_, fun _ => ⟨hl, by omega⟩⟩
    rw [hwk, hpow, ← hval]
    exact Nat.mul_le_mul_right _ (Nat.add_le_add_left (by omega) _)

end

/-! ## One more table -/

/-- A table is added. -/
def Places.add (P : Places) (q w pre bits : Nat) : Places where
  w := Function.update P.w q w
  pre := Function.update P.pre q pre
  bits := Function.update P.bits q bits

theorem Places.add_self (P : Places) (q w pre bits : Nat) :
    (P.add q w pre bits).w q = w ∧ (P.add q w pre bits).pre q = pre ∧
      (P.add q w pre bits).bits q = bits :=
  ⟨Function.update_self .., Function.update_self .., Function.update_self ..⟩

theorem Places.add_of_ne (P : Places) {q t : Nat} (h : t ≠ q) (w pre bits : Nat) :
    (P.add q w pre bits).w t = P.w t ∧ (P.add q w pre bits).pre t = P.pre t ∧
      (P.add q w pre bits).bits t = P.bits t :=
  ⟨Function.update_of_ne h .., Function.update_of_ne h .., Function.update_of_ne h ..⟩

section
variable {C : Coding} {P : Places} {heap₀ : Heap} {k r : Nat} {M : Making}

theorem OnStack.congr {P' : Places} {M' : Making} {h : Nat} (hs : OnStack C P heap₀ M h)
    (hu : M'.u h = M.u h) (hx : M'.x h = M.x h) (hcount : M.heap.count ≤ M'.heap.count)
    (hi : M'.i % 2 ^ (C.l * h) = M.i % 2 ^ (C.l * h))
    (hP : P'.w (M.u h) = P.w (M.u h) ∧ P'.pre (M.u h) = P.pre (M.u h) ∧
      P'.bits (M.u h) = P.bits (M.u h)) : OnStack C P' heap₀ M' h := by
  obtain ⟨hw, hp, hb⟩ := hP
  refine ⟨?_, ?_, ?_, ?_, ?_, ?_, ?_, ?_⟩
  · rw [hu]
    exact hs.new
  · rw [hu]
    exact Nat.lt_of_lt_of_le hs.made hcount
  · rw [hu, hw, hs.w]
  · rw [hu, hp, hs.pre, hx]
  · rw [hi, hs.code, hx]
  · rw [hu, hb]
    exact hs.bits
  · rw [hu, hb]
    exact hs.room
  · rw [hu]
    unfold Coding.Fits
    rw [hw, hp, hb]
    exact hs.fits

/-- The tables on the stack are different ones. -/
theorem Inv.u_ne (hC : C.Ok) (h : Inv C P heap₀ k r M) {a b : Nat} (ha : a < M.levels)
    (hb : b < M.levels) (hne : a ≠ b) : M.u a ≠ M.u b := by
  intro heq
  have hwa := (h.stack a ha).w
  rw [heq, (h.stack b hb).w] at hwa
  exact hne (Nat.eq_of_mul_eq_mul_left hC.l_pos hwa).symm

/-- The bits of the next code behind `l * levels` are 0. -/
theorem Inv.i_lt (h : Inv C P heap₀ k r M) (hl : C.l * M.levels ≤ C.g) :
    M.i < 2 ^ (C.l * M.levels) := by
  obtain ⟨m, hm⟩ := h.dvd
  have hsplit : C.g = C.l * M.levels + (C.g - C.l * M.levels) := (Nat.add_sub_cancel' hl).symm
  rw [h.i, hm, Nat.mul_comm, hsplit, Nat.add_sub_cancel_left, rev_mul]
  exact rev_lt _ m

/-- Data with the same first bits as the next code have none of the codes before it. -/
theorem Inv.not_begins (hC : C.Ok) (h : Inv C P heap₀ k r M) (hk : k ≤ C.g) (hr : r < used C.c k)
    (hl : C.l * M.levels ≤ C.g) {k' r' S : Nat} (hb : Before k' r' k r) (hk' : k' ≤ C.g)
    (hr' : r' < used C.c k') (hS : S % 2 ^ (C.l * M.levels) = M.i) :
    ¬ Begins (used C.c) k' r' S := by
  intro hbeg
  have hlt := ((begins_iff hC.complete hk' hr').1 hbeg).2
  have hord : C.val k' r' + 2 ^ (C.g - k') ≤ C.val k r := value_order hb hr' hk
  have hval := hC.val_lt hk hr
  have hpos := Nat.two_pow_pos (C.g - k)
  have hsame : S % 2 ^ (C.l * M.levels) = rev C.g (C.val k r) % 2 ^ (C.l * M.levels) := by
    rw [hS, ← h.i, Nat.mod_eq_of_lt (h.i_lt hl)]
  rw [mod_eq_rev_iff hl (by omega)] at hsame
  obtain ⟨m, hm⟩ := h.dvd
  have hge : C.val k r ≤ rev C.g S := by
    rw [hm, Nat.mul_div_cancel_left _ (Nat.two_pow_pos _)] at hsame
    have := Nat.div_mul_le_self (rev C.g S) (2 ^ (C.g - C.l * M.levels))
    rw [hsame, Nat.mul_comm] at this
    rw [hm]
    exact this
  have hdef : C.val k' r' = value (used C.c) C.g k' r' := rfl
  omega

/-- One more table is enough. -/
theorem Inv.next_level (hC : C.Ok) (h : Inv C P heap₀ k r M) (h1 : 1 ≤ k) (hk : k ≤ C.g)
    (hr : r < used C.c k) (hdeep : C.l * M.levels < k) : k ≤ C.l * (M.levels + 1) := by
  rw [Nat.mul_succ]
  rcases Nat.eq_zero_or_pos M.levels with h0 | hpos
  · have := (h.first h0).1
    omega
  · have hone : C.l ≤ C.l * M.levels := Nat.le_mul_of_pos_right _ hpos
    rcases hC.narrow_at h1 hk hr (Nat.le_of_lt hdeep) h.dvd with hg | hl <;> omega

/-- The first table. -/
theorem Inv.newTable_root (hC : C.Ok) (h : Inv C P heap₀ k r M) (h1 : 1 ≤ k) (hk : k ≤ C.g)
    (hr : r < used C.c k) (h0 : M.levels = 0) :
    Inv C (P.add M.heap.count 0 0 C.l) heap₀ k r (newTable C k (used C.c k - 1 - r) M) := by
  obtain ⟨hkl, rfl, -, hval⟩ := h.first h0
  have hM : newTable C k (used C.c k - 1 - 0) M = { M with
      heap.count := M.heap.count + 1
      u := Function.update M.u 0 M.heap.count
      z := 2 ^ tableBits C 0 k (used C.c k - 1 - 0)
      q := M.heap.count
      levels := 1
      t := some M.heap.count } := by
    unfold newTable
    rw [h0]
    rfl
  obtain ⟨hw, hp, hb⟩ := P.add_self M.heap.count 0 0 C.l
  rw [hM]
  refine ⟨h.i, h.x0, Nat.le_succ_of_le h.count, h.old, ?_, ?_, ?_, ?_, ?_, ?_, ?_, h.p, ?_⟩
  · intro a ha
    obtain rfl : a = 0 := by
      have : a < 1 := ha
      omega
    have hu : Function.update M.u 0 M.heap.count 0 = M.heap.count := Function.update_self ..
    refine ⟨?_, ?_, ?_, ?_, ?_, ?_, ?_, ?_⟩ <;> dsimp only
    · rw [hu]
      exact h.count
    · rw [hu]
      exact Nat.lt_succ_self _
    · rw [hu, hw, Nat.mul_zero]
    · rw [hu, hp, h.x0]
    · rw [Nat.mul_zero, Nat.pow_zero, Nat.mod_one, h.x0]
    · rw [hu, hb]
    · rw [hu, hb, Nat.mul_zero, Nat.zero_add]
      exact hC.l_le
    · rw [hu]
      exact Or.inl hb
  · intro a ha
    have : a + 1 < 1 := ha
    omega
  · intro _
    dsimp only
    rw [Function.update_self]
    exact ⟨rfl, hb⟩
  · intro hlev
    exact absurd hlev Nat.one_ne_zero
  · intro a ha
    have : a < 1 := ha
    obtain rfl : a = 0 := by omega
    rw [Nat.mul_zero]
    exact h1
  · rw [hval]
    exact Nat.dvd_zero _
  · intro _
    dsimp only
    rw [Function.update_self, hb]
    refine ⟨rfl, Nat.pow_le_pow_right Nat.two_pos ?_⟩
    -- codes that use up everything are the longest
    obtain ⟨-, hsize, -⟩ := tableBits_spec hC (w := 0) h1 hk hr h1
      (by rw [hval]; exact Nat.dvd_zero _) hkl
    rcases hsize with hl | hfull
    · exact hl
    · rw [hval, Nat.zero_add, Nat.zero_add, Nat.sub_zero] at hfull
      by_contra hcon
      have hlt := hC.not_full (k := tableBits C 0 k (used C.c k - 1 - 0)) (by
        have := hC.l_le
        omega)
      omega
  · intro k' r' hb' _ _ hr' _ _
    have hord : C.val k' r' + 2 ^ (C.g - k') ≤ C.val k 0 := value_order hb' hr' hk
    have := Nat.two_pow_pos (C.g - k')
    omega

/-- A table behind another. -/
theorem Inv.newTable_behind (hC : C.Ok) (h : Inv C P heap₀ k r M) (h1 : 1 ≤ k) (hk : k ≤ C.g)
    (hr : r < used C.c k) {n : Nat} (hn : M.levels = n + 1) (hdeep : C.l * M.levels < k) :
    Inv C (P.add M.heap.count (C.l * (n + 1)) M.i
        (tableBits C (C.l * (n + 1)) k (used C.c k - 1 - r))) heap₀ k r
      (newTable C k (used C.c k - 1 - r) M) := by
  have hnext := h.next_level hC h1 hk hr hdeep
  rw [hn] at hdeep hnext
  have hdvd := h.dvd
  rw [hn] at hdvd
  have hlow : C.l * (n + 1) ≤ C.g := Nat.le_trans (Nat.le_of_lt hdeep) hk
  have hi := h.i_lt (by rw [hn]; exact hlow)
  rw [hn] at hi
  obtain ⟨hge, hsize, hsmall⟩ := tableBits_spec hC h1 hk hr hdeep hdvd (by
    rw [Nat.mul_succ] at hnext
    omega)
  have hnarrow := hC.narrow_at h1 hk hr (Nat.le_of_lt hdeep) hdvd
  obtain ⟨hjl, hjg⟩ := hsmall (by
    have : C.l ≤ C.l * (n + 1) := Nat.le_mul_of_pos_right _ (Nat.succ_pos n)
    omega)
  set j := tableBits C (C.l * (n + 1)) k (used C.c k - 1 - r) with hj
  have hM : newTable C k (used C.c k - 1 - r) M = { M with
      heap.count := M.heap.count + 1
      u := Function.update M.u (n + 1) M.heap.count
      z := 2 ^ j
      q := M.heap.count
      levels := n + 2
      x := Function.update M.x (n + 1) M.i
      r := ⟨16 + j, C.l, .t M.heap.count⟩
      heap.cell := store M.heap.cell (M.u n) (M.i / 2 ^ (C.l * n))
        ⟨16 + j, C.l, .t M.heap.count⟩ } := by
    have hsub : C.l * (n + 1) - C.l = C.l * n := by rw [Nat.mul_succ, Nat.add_sub_cancel]
    unfold newTable
    rw [hn]
    dsimp only
    rw [Function.update_of_ne (by omega), hsub, Nat.shiftRight_eq_div_pow, ← hj]
  obtain ⟨hw, hp, hb⟩ := P.add_self M.heap.count (C.l * (n + 1)) M.i j
  have htop := h.stack n (by omega)
  have hne : ∀ a, a < n + 1 → M.u a ≠ M.heap.count := fun a ha =>
    Nat.ne_of_lt (h.stack a (by omega)).made
  -- the code itself says that the table before goes on
  have hfull : P.bits (M.u n) = C.l := by
    rcases htop.fits with hl | hall
    · exact hl
    · have hle := hall k r h1 hk hr (by rw [htop.w, htop.pre, ← htop.code, h.i])
      have := htop.bits
      rw [htop.w] at hle
      rw [Nat.mul_succ] at hdeep
      omega
  rw [hM]
  refine ⟨h.i, ?_, Nat.le_succ_of_le h.count, ?_, ?_, ?_, ?_, ?_, ?_, ?_, ?_, h.p, ?_⟩
  · dsimp only
    rw [Function.update_of_ne (by omega)]
    exact h.x0
  · intro t ht
    dsimp only
    funext idx
    rw [store_apply, if_neg, h.old t ht]
    rintro ⟨rfl, -⟩
    exact Nat.not_lt.2 htop.new ht
  · intro a ha
    have ha' : a < n + 2 := ha
    rcases Nat.lt_or_eq_of_le (Nat.le_of_lt_succ ha') with hlt | rfl
    · exact (h.stack a (by omega)).congr (Function.update_of_ne (by omega) ..)
        (Function.update_of_ne (by omega) ..) (Nat.le_succ _) rfl (P.add_of_ne (hne a hlt) _ _ _)
    · refine ⟨?_, ?_, ?_, ?_, ?_, ?_, ?_, ?_⟩ <;> dsimp only <;> rw [Function.update_self]
      · exact h.count
      · exact Nat.lt_succ_self _
      · exact hw
      · rw [hp, Function.update_self]
      · rw [Nat.mod_eq_of_lt hi]
      · rw [hb]
        exact hjl
      · rw [hb]
        exact hjg
      · unfold Coding.Fits
        rw [hw, hp, hb]
        refine hsize.imp (fun hl => Nat.le_antisymm hjl hl) ?_
        intro hclose k' r' h1' hk' hr' hsame
        -- all codes that begin so lie before the end of those of that length
        by_contra hcon
        have hval := hC.val_lt hk' hr'
        have hpos := Nat.two_pow_pos (C.g - k')
        rw [← Nat.mod_eq_of_lt hi, h.i] at hsame
        rw [mod_eq_rev_iff hlow (by
          have := hC.val_lt hk hr
          have := Nat.two_pow_pos (C.g - k)
          omega)] at hsame
        obtain ⟨m, hm⟩ := hdvd
        have hrr : rev C.g (rev C.g (C.val k' r')) = C.val k' r' := by
          rw [rev_rev, Nat.mod_eq_of_lt (by omega)]
        rw [hrr, hm, Nat.mul_div_cancel_left _ (Nat.two_pow_pos _)] at hsame
        have hin : C.val k' r' < C.val k r + 2 ^ (C.g - C.l * (n + 1)) := by
          have hmod := Nat.mod_lt (C.val k' r') (Nat.two_pow_pos (C.g - C.l * (n + 1)))
          have hdm := Nat.div_add_mod (C.val k' r') (2 ^ (C.g - C.l * (n + 1)))
          rw [hsame] at hdm
          omega
        have hend : C.val (C.l * (n + 1) + j) (used C.c (C.l * (n + 1) + j)) ≤ C.val k' 0 :=
          value_end_le (by omega) hk'
        have hmono : C.val k' 0 ≤ C.val k' r' :=
          Nat.mul_le_mul_right _ (Nat.add_le_add_left (Nat.zero_le _) _)
        omega
  · intro a ha
    have ha' : a + 1 < n + 2 := ha
    rcases Nat.lt_or_eq_of_le (Nat.le_of_lt_succ (Nat.lt_of_succ_lt_succ ha')) with hlt | rfl
    · obtain ⟨hl1, hl2, hl3⟩ := h.links a (by omega)
      obtain ⟨-, -, hba⟩ := P.add_of_ne (hne a (by omega)) (C.l * (n + 1)) M.i j
      obtain ⟨-, -, hba'⟩ := P.add_of_ne (hne (a + 1) (by omega)) (C.l * (n + 1)) M.i j
      refine ⟨?_, ?_, ?_⟩ <;> dsimp only
      · rw [Function.update_of_ne (by omega), hba, hl1]
      · rw [Function.update_of_ne (by omega), hba']
        exact hl2
      · rw [Function.update_of_ne (by omega), Function.update_of_ne (by omega),
          Function.update_of_ne (by omega), hba', store_apply,
          if_neg (fun hc => h.u_ne hC (by omega) (by omega) (Nat.ne_of_lt hlt) hc.1), hl3]
    · obtain ⟨-, -, hba⟩ := P.add_of_ne (hne a (by omega)) (C.l * (a + 1)) M.i j
      refine ⟨?_, ?_, ?_⟩ <;> dsimp only
      · rw [Function.update_of_ne (by omega), hba, hfull]
      · rw [Function.update_self, hb]
        omega
      · rw [Function.update_of_ne (by omega), Function.update_self, Function.update_self, hb,
          store_apply, if_pos ⟨rfl, rfl⟩]
  · intro _
    obtain ⟨ht, hbits⟩ := h.root (by omega)
    obtain ⟨-, -, hb0⟩ := P.add_of_ne (hne 0 (Nat.succ_pos n)) (C.l * (n + 1)) M.i j
    dsimp only
    rw [Function.update_of_ne (by omega), hb0]
    exact ⟨ht, hbits⟩
  · intro hlev
    exact absurd hlev (Nat.succ_ne_zero _)
  · intro a ha
    have ha' : a < n + 2 := ha
    rcases Nat.lt_or_eq_of_le (Nat.le_of_lt_succ ha') with hlt | rfl
    · exact h.above a (by omega)
    · exact hdeep
  · exact Nat.dvd_trans (Nat.pow_dvd_pow 2 (Nat.sub_le_sub_left
      (Nat.mul_le_mul_left _ (Nat.le_succ _)) _)) hdvd
  · intro _
    dsimp only
    rw [hb]
    refine ⟨?_, Nat.le_refl _⟩
    rw [show n + 2 - 1 = n + 1 from rfl, Function.update_self]
  · intro k' r' hbef h1' hk' hr' S hS
    obtain ⟨e, he, hleads⟩ := h.done k' r' hbef h1' hk' hr' S hS
    refine ⟨e, he, ?_⟩
    dsimp only
    rw [Function.update_of_ne (by omega)]
    refine hleads.congr (Nat.le_succ _) (fun t ht => P.add_of_ne (Nat.ne_of_lt ht) _ _ _) ?_
    intro t _ hpre
    dsimp only
    rw [store_apply, if_neg]
    rintro ⟨rfl, hidx⟩
    -- they would begin with all bits of the code up to here
    refine h.not_begins hC hk hr (by rw [hn]; exact hlow) hbef hk' hr' ?_ hS
    rw [Places.idx, htop.w, hfull] at hidx
    rw [htop.w, htop.pre, ← htop.code] at hpre
    rw [hn, Nat.mul_succ, Nat.pow_add, Nat.mod_mul, hpre, hidx, Nat.mod_add_div]

end

/-! ## One more code -/

section
variable {C : Coding} {P : Places} {heap₀ : Heap} {k r : Nat} {M : Making}

theorem Inv.newTables (hC : C.Ok) (h : Inv C P heap₀ k r M) (h1 : 1 ≤ k) (hk : k ≤ C.g)
    (hr : r < used C.c k) :
    ∃ P', Inv C P' heap₀ k r (newTables C k (used C.c k - 1 - r) k M) ∧
      k ≤ C.l * (newTables C k (used C.c k - 1 - r) k M).levels := by
  obtain ⟨fuel, rfl⟩ := Nat.exists_eq_add_of_le' h1
  rw [Gzip.newTables]
  by_cases hdeep : fuel + 1 > C.l * M.levels
  · rw [if_pos hdeep]
    have hlevels : (newTable C (fuel + 1) (used C.c (fuel + 1) - 1 - r) M).levels = M.levels + 1 := by
      unfold newTable
      split <;> simp only [*]
    have hnext := h.next_level hC h1 hk hr hdeep
    have hstop : ∀ fuel', Gzip.newTables C (fuel + 1) (used C.c (fuel + 1) - 1 - r) fuel'
        (newTable C (fuel + 1) (used C.c (fuel + 1) - 1 - r) M) =
        newTable C (fuel + 1) (used C.c (fuel + 1) - 1 - r) M := by
      intro fuel'
      cases fuel' with
      | zero => rfl
      | succ fuel' =>
        rw [Gzip.newTables, if_neg]
        rw [hlevels]
        exact Nat.not_lt.2 hnext
    rw [hstop, hlevels]
    cases hn : M.levels with
    | zero => exact ⟨_, h.newTable_root hC h1 hk hr hn, hn ▸ hnext⟩
    | succ n => exact ⟨_, h.newTable_behind hC h1 hk hr hn hdeep, hn ▸ hnext⟩
  · rw [if_neg hdeep]
    exact ⟨P, h, Nat.le_of_not_lt hdeep⟩

/-- Data that come to a table on the stack come through all tables before it. -/
theorem leads_root {S K : Nat} {e : Huft} (hstack : ∀ h < M.levels, OnStack C P heap₀ M h)
    (hlinks : ∀ h, h + 1 < M.levels → Linked C P M h) (hC : C.Ok)
    (hS : ∀ h < M.levels, S % 2 ^ (C.l * h) = M.x h) :
    ∀ {h : Nat}, h < M.levels → Leads P M.heap S (M.u h) K e →
      Leads P M.heap S (M.u 0) K e := by
  intro h
  induction h with
  | zero => exact fun _ hleads => hleads
  | succ h ih =>
    intro hh hleads
    have hon := hstack h (Nat.lt_of_succ_lt hh)
    have hon' := hstack (h + 1) hh
    obtain ⟨hfull, hpos, hcell⟩ := hlinks h hh
    refine ih (Nat.lt_of_succ_lt hh) (.link hon.made ?_ ?_ ?_ ?_ hpos ?_ hleads)
    · rw [hon.w, hon.pre]
      exact hS h (Nat.lt_of_succ_lt hh)
    · rw [hon.w]
      exact hon.room.trans hC.g_le
    · rw [hon.w, hon'.w, hfull, Nat.mul_succ]
    · rw [hfull]
      exact hC.l_pos
    · have hidx : P.idx S (M.u h) = M.x (h + 1) / 2 ^ (C.l * h) := by
        rw [Places.idx, hon.w, hfull, ← hS (h + 1) hh, Nat.mul_succ, Nat.pow_add,
          Nat.mod_mul_right_div_self]
      rw [hidx, hcell, hfull]

/-- The entry of the next code is written. -/
def withEntry (C : Coding) (k : Nat) (M : Making) : Making :=
  let w := C.l * (M.levels - 1)
  let e := (nextEntry C (k - w) M.p M.r).1
  { M with heap.cell := fillTable M.q M.z (k - w) e (M.i >>> w) M.heap.cell }

/-- The bits of the next code. -/
theorem Inv.i_eq (h : Inv C P heap₀ k r M) (hk : k ≤ C.g) :
    M.i = rev k (code (used C.c) k r) := by rw [h.i, Coding.val, rev_value hk]

/-- What the fill writes: the cells of the data that begin with the code. -/
theorem Inv.withEntry_cell (h : Inv C P heap₀ k r M) (hk : k ≤ C.g) (h1 : 1 ≤ k)
    (hkl : k ≤ C.l * M.levels) {t idx : Nat} :
    (withEntry C k M).heap.cell t idx =
      if t = M.q ∧ idx < M.z ∧
          idx % 2 ^ (k - C.l * (M.levels - 1)) = M.i / 2 ^ (C.l * (M.levels - 1)) then
        (nextEntry C (k - C.l * (M.levels - 1)) M.p M.r).1
      else M.heap.cell t idx := by
  have hpos : 0 < M.levels := by
    rcases Nat.eq_zero_or_pos M.levels with h0 | hpos
    · rw [h0, Nat.mul_zero] at hkl
      omega
    · exact hpos
  have habove := h.above (M.levels - 1) (by omega)
  have hi : M.i < 2 ^ k := h.i_eq hk ▸ rev_lt _ _
  have hsmall : M.i / 2 ^ (C.l * (M.levels - 1)) < 2 ^ (k - C.l * (M.levels - 1)) := by
    rw [Nat.div_lt_iff_lt_mul (Nat.two_pow_pos _), ← Nat.pow_add,
      Nat.sub_add_cancel (Nat.le_of_lt habove)]
    exact hi
  show fillTable _ _ _ _ _ _ t idx = _
  rw [fillTable_apply, Nat.shiftRight_eq_div_pow]
  refine if_congr (and_congr_right fun _ => ?_) rfl rfl
  rw [Nat.mod_eq_of_lt hsmall]
  constructor
  · rintro ⟨-, hz, hmod⟩
    exact ⟨hz, hmod⟩
  · rintro ⟨hz, hmod⟩
    exact ⟨hmod ▸ Nat.mod_le _ _, hz, hmod⟩

/-- **One code is done**: data that begin with it are led to its entry. -/
theorem Inv.withEntry_leads (hC : C.Ok) (h : Inv C P heap₀ k r M) (h1 : 1 ≤ k) (hk : k ≤ C.g)
    (hr : r < used C.c k) (hkl : k ≤ C.l * M.levels) :
    (∀ a < M.levels, OnStack C P heap₀ (withEntry C k M) a) ∧
      (∀ a, a + 1 < M.levels → Linked C P (withEntry C k M) a) ∧
      (∀ t < heap₀.count, (withEntry C k M).heap.cell t = heap₀.cell t) ∧
      ∀ k' r', Before k' r' k (r + 1) → 1 ≤ k' → k' ≤ C.g → r' < used C.c k' →
        ∀ S, Begins (used C.c) k' r' S → ∃ e, C.IsEntry (place (used C.c) k' r') e ∧
          Leads P (withEntry C k M).heap S (M.u 0) k' e := by
  have hlev : 0 < M.levels := by
    rcases Nat.eq_zero_or_pos M.levels with h0 | hpos
    · rw [h0, Nat.mul_zero] at hkl
      omega
    · exact hpos
  obtain ⟨n, hn⟩ : ∃ n, M.levels = n + 1 := Nat.exists_eq_add_of_le' hlev
  have htop := h.stack n (by omega)
  obtain ⟨hq, hz⟩ := h.top hkl
  have hcell : ∀ t idx, (withEntry C k M).heap.cell t idx = _ := fun t idx =>
    h.withEntry_cell hk h1 hkl
  rw [hn, Nat.add_sub_cancel] at hq hcell
  rw [hq] at hz hcell
  have habove := h.above n (by omega)
  have hstack : ∀ a < M.levels, OnStack C P heap₀ (withEntry C k M) a := fun a ha =>
    (h.stack a ha).congr rfl rfl (Nat.le_refl _) rfl ⟨rfl, rfl, rfl⟩
  have hlinks : ∀ a, a + 1 < M.levels → Linked C P (withEntry C k M) a := by
    intro a ha
    obtain ⟨hfull, hpos, hlink⟩ := h.links a ha
    refine ⟨hfull, hpos, ?_⟩
    show (withEntry C k M).heap.cell (M.u a) _ = _
    rw [hcell, if_neg (fun hc => h.u_ne hC (by omega) (by omega) (by omega) hc.1)]
    exact hlink
  refine ⟨hstack, hlinks, ?_, ?_⟩
  · intro t ht
    funext idx
    rw [hcell, if_neg, h.old t ht]
    rintro ⟨rfl, -⟩
    exact Nat.not_lt.2 htop.new ht
  have hd : k - C.l * n ≤ P.bits (M.u n) := by
    rcases htop.fits with hl | hall
    · rw [hn, Nat.mul_succ] at hkl
      omega
    · have hle := hall k r h1 hk hr (by rw [htop.w, htop.pre, ← htop.code, h.i])
      rw [htop.w] at hle
      omega
  intro k' r' hbef h1' hk' hr' S hS
  by_cases hsame : k' = k ∧ r' = r
  · obtain ⟨rfl, rfl⟩ := hsame
    -- the code itself: through the stack to its cell
    have hSi : S % 2 ^ k' = M.i := by rw [h.i_eq hk]; exact hS
    have hSx : ∀ a < M.levels, S % 2 ^ (C.l * a) = M.x a := by
      intro a ha
      have hdvd : 2 ^ (C.l * a) ∣ 2 ^ k' :=
        Nat.pow_dvd_pow 2 (Nat.le_of_lt (h.above a ha))
      rw [← (h.stack a ha).code, ← hSi, Nat.mod_mod_of_dvd _ hdvd]
    have hidx : P.idx S (M.u n) % 2 ^ (k' - C.l * n) = M.i / 2 ^ (C.l * n) := by
      have hk'' : 2 ^ k' = 2 ^ (C.l * n) * 2 ^ (k' - C.l * n) := by
        rw [← Nat.pow_add, Nat.add_sub_cancel' (Nat.le_of_lt habove)]
      rw [Places.idx, htop.w, Nat.mod_mod_of_dvd _ (Nat.pow_dvd_pow 2 hd), ← hSi, hk'',
        Nat.mod_mul_right_div_self]
    have hlt : P.idx S (M.u n) < M.z :=
      Nat.lt_of_lt_of_le (Nat.mod_lt _ (Nat.two_pow_pos _)) hz
    have hentry : (withEntry C k' M).heap.cell (M.u n) (P.idx S (M.u n)) =
        (nextEntry C (k' - C.l * n) M.p M.r).1 := by rw [hcell, if_pos ⟨rfl, hlt, hidx⟩]
    refine ⟨(nextEntry C (k' - C.l * n) M.p M.r).1, ⟨k' - C.l * n, M.r, by rw [h.p]⟩, ?_⟩
    have hb : (nextEntry C (k' - C.l * n) M.p M.r).1.b = k' - C.l * n := by
      have hbyte : (k' - C.l * n) % 256 = k' - C.l * n := by
        have := hC.g_le
        unfold bmax at this
        omega
      unfold nextEntry
      split
      · exact hbyte
      · split <;> exact hbyte
    have hleaf : Leads P (withEntry C k' M).heap S (M.u n)
        (P.w (M.u n) + ((withEntry C k' M).heap.cell (M.u n) (P.idx S (M.u n))).b)
        ((withEntry C k' M).heap.cell (M.u n) (P.idx S (M.u n))) := by
      refine .leaf htop.made ?_ ?_ ?_
      · rw [htop.w, htop.pre]
        exact hSx n (by omega)
      · rw [htop.w]
        exact htop.room.trans hC.g_le
      · rw [hentry, hb]
        exact ⟨Nat.sub_pos_of_lt habove, hd⟩
    rw [hentry, hb, htop.w, Nat.add_sub_cancel' (Nat.le_of_lt habove)] at hleaf
    exact leads_root (M := withEntry C k' M) hstack hlinks hC hSx (show n < M.levels by omega) hleaf
  · -- a code before: none of its cells is written
    have hbef' : Before k' r' k r := by
      unfold Before at hbef ⊢
      omega
    obtain ⟨e, he, hleads⟩ := h.done k' r' hbef' h1' hk' hr' S hS
    refine ⟨e, he, hleads.congr (Nat.le_refl _) (fun _ _ => ⟨rfl, rfl, rfl⟩) ?_⟩
    intro t _ hpre
    rw [hcell, if_neg]
    rintro ⟨rfl, -, hidx⟩
    refine not_begins_of_before hC.complete hbef' hr' hk hr hS ?_
    rw [Places.idx, htop.w, Nat.mod_mod_of_dvd _ (Nat.pow_dvd_pow 2 hd)] at hidx
    rw [htop.w, htop.pre, ← htop.code] at hpre
    have hk'' : 2 ^ k = 2 ^ (C.l * n) * 2 ^ (k - C.l * n) := by
      rw [← Nat.pow_add, Nat.add_sub_cancel' (Nat.le_of_lt habove)]
    show S % 2 ^ k = _
    rw [hk'', Nat.mod_mul, hpre, hidx, Nat.mod_add_div, h.i_eq hk]

/-- Across the end of a part of the numbers the next code begins with a new part. -/
theorem dvd_of_div_ne {v d m : Nat} (hd : d ≤ m) (hv : 2 ^ d ∣ v)
    (hne : (v + 2 ^ d) / 2 ^ m ≠ v / 2 ^ m) : 2 ^ m ∣ v + 2 ^ d := by
  obtain ⟨c, rfl⟩ := hv
  obtain ⟨e, rfl⟩ := Nat.exists_eq_add_of_le hd
  have hpos := Nat.two_pow_pos d
  have hone : 2 ^ d * c + 2 ^ d = 2 ^ d * (c + 1) := by ring
  rw [hone, Nat.pow_add, Nat.mul_div_mul_left _ _ hpos, Nat.mul_div_mul_left _ _ hpos] at hne
  rw [hone, Nat.pow_add]
  refine Nat.mul_dvd_mul_left _ ?_
  by_contra hcon
  exact hne (Nat.succ_div_of_not_dvd hcon)

/-- **The step of the main loop.** -/
theorem Inv.oneCode (hC : C.Ok) (h : Inv C P heap₀ k r M) (h1 : 1 ≤ k) (hk : k ≤ C.g)
    (hr : r < used C.c k) :
    ∃ P', Inv C P' heap₀ k (r + 1) (oneCode C k (used C.c k - 1 - r) M) := by
  obtain ⟨P', h', hkl⟩ := h.newTables hC h1 hk hr
  have hM : Gzip.oneCode C k (used C.c k - 1 - r) M =
      { withEntry C k (Gzip.newTables C k (used C.c k - 1 - r) k M) with
        r := (nextEntry C (k - C.l * ((Gzip.newTables C k (used C.c k - 1 - r) k M).levels - 1))
          (Gzip.newTables C k (used C.c k - 1 - r) k M).p
          (Gzip.newTables C k (used C.c k - 1 - r) k M).r).1
        p := (nextEntry C (k - C.l * ((Gzip.newTables C k (used C.c k - 1 - r) k M).levels - 1))
          (Gzip.newTables C k (used C.c k - 1 - r) k M).p
          (Gzip.newTables C k (used C.c k - 1 - r) k M).r).2
        i := increment k (Gzip.newTables C k (used C.c k - 1 - r) k M).i
        levels := backUp C.l (increment k (Gzip.newTables C k (used C.c k - 1 - r) k M).i)
          (Gzip.newTables C k (used C.c k - 1 - r) k M).x
          (Gzip.newTables C k (used C.c k - 1 - r) k M).levels } := rfl
  rw [hM]
  generalize Gzip.newTables C k (used C.c k - 1 - r) k M = N at h' hkl ⊢
  clear hM h
  have hlev : 0 < N.levels := by
    rcases Nat.eq_zero_or_pos N.levels with h0 | hpos
    · rw [h0, Nat.mul_zero] at hkl
      omega
    · exact hpos
  obtain ⟨hstack, hlinks, hold, hdone⟩ := h'.withEntry_leads hC h1 hk hr hkl
  obtain ⟨hpos, hle, htop, hpopped⟩ := backUp_spec (l := C.l) (i := increment k N.i) h'.x0 hlev
  set n := backUp C.l (increment k N.i) N.x N.levels with hn
  have hi : increment k N.i = rev C.g (C.val k (r + 1)) := by
    rw [h'.i_eq hk, increment_rev, Coding.val, rev_value hk]
    rfl
  have hval : C.val k (r + 1) = C.val k r + 2 ^ (C.g - k) := by
    rw [Coding.val, value_add, Nat.one_mul]
    rfl
  have hkeep : ∀ a < n, increment k N.i % 2 ^ (C.l * a) = N.x a := by
    intro a ha
    have hdvd : 2 ^ (C.l * a) ∣ 2 ^ (C.l * (n - 1)) :=
      Nat.pow_dvd_pow 2 (Nat.mul_le_mul_left _ (by omega))
    rw [← Nat.mod_mod_of_dvd _ hdvd, htop, ← (h'.stack (n - 1) (by omega)).code,
      Nat.mod_mod_of_dvd _ hdvd, (h'.stack a (by omega)).code]
  refine ⟨P', hi, h'.x0, h'.count, hold, ?_, ?_, ?_, ?_, ?_, ?_, ?_, ?_, ?_⟩
  · intro a ha
    have ha' : a < n := ha
    refine (hstack a (by omega)).congr rfl rfl (Nat.le_refl _) ?_ ⟨rfl, rfl, rfl⟩
    show increment k N.i % _ = N.i % _
    rw [hkeep a ha', (h'.stack a (by omega)).code]
  · intro a ha
    have ha' : a + 1 < n := ha
    obtain ⟨hfull, hb, hcell⟩ := hlinks a (by omega)
    exact ⟨hfull, hb, hcell⟩
  · exact fun _ => h'.root hlev
  · intro h0
    have h0' : n = 0 := h0
    omega
  · intro a ha
    have ha' : a < n := ha
    exact h'.above a (by omega)
  · show 2 ^ (C.g - C.l * n) ∣ C.val k (r + 1)
    rcases Nat.lt_or_eq_of_le hle with hlt | heq
    · -- the tables that were left are behind the code
      have hbehind := h'.above n hlt
      have hne := hpopped n (Nat.le_refl n) hlt
      rw [hval]
      refine dvd_of_div_ne (by omega) dvd_value ?_
      intro hsame
      apply hne
      rw [← (h'.stack n hlt).code, hi, h'.i]
      have hlt' : C.val k r < 2 ^ C.g := by
        have := hC.val_lt hk hr
        have := Nat.two_pow_pos (C.g - k)
        omega
      rcases Nat.lt_or_eq_of_le (hC.val_lt hk hr) with hin | hend
      · rw [mod_eq_rev_iff (by omega) hlt', rev_rev, hval, Nat.mod_eq_of_lt hin]
        exact hsame
      · rw [hend, Nat.pow_div (by omega) Nat.two_pos] at hsame
        have hdiv : C.val k r / 2 ^ (C.g - C.l * n) < 2 ^ (C.l * n) := by
          rw [Nat.div_lt_iff_lt_mul (Nat.two_pow_pos _), ← Nat.pow_add,
            Nat.add_sub_cancel' (by omega)]
          exact hlt'
        rw [← hsame, Nat.sub_sub_self (by omega)] at hdiv
        exact absurd hdiv (Nat.lt_irrefl _)
    · rw [heq]
      exact Nat.dvd_trans (Nat.pow_dvd_pow 2 (by omega)) (dvd_value (k := k))
  · intro hkn
    have hkn' : k ≤ C.l * n := hkn
    have heq : n = N.levels := by
      by_contra hcon
      have := h'.above n (by omega)
      omega
    show N.q = N.u (n - 1) ∧ _
    rw [heq]
    exact h'.top hkl
  · show (nextEntry C _ N.p N.r).2 = _
    have hplace : place (used C.c) k (r + 1) = place (used C.c) k r + 1 := rfl
    have hp := h'.p
    unfold nextEntry
    split
    · show N.p = _
      omega
    · split
      · show N.p + 1 = _
        omega
      · show N.p + 1 = _
        omega
  · exact hdone

/-- The codes of one length. -/
theorem Inv.codesOf (hC : C.Ok) (h1 : 1 ≤ k) (hk : k ≤ C.g) :
    ∀ {a r : Nat} {P : Places} {M : Making}, r + a = used C.c k → Inv C P heap₀ k r M →
      ∃ P', Inv C P' heap₀ k (used C.c k) (codesOf C k a M) := by
  intro a
  induction a with
  | zero =>
    intro r P M hr h
    obtain rfl : r = used C.c k := hr
    exact ⟨P, h⟩
  | succ a ih =>
    intro r P M hr h
    obtain ⟨P', h'⟩ := h.oneCode hC h1 hk (by omega)
    have ha : used C.c k - 1 - r = a := by omega
    rw [ha] at h'
    exact ih (by omega) h'

/-- The next length begins where this one ends. -/
theorem Inv.next_length (h : Inv C P heap₀ k (used C.c k) M) (h1 : 1 ≤ k) (hk : k < C.g) :
    Inv C P heap₀ (k + 1) 0 M := by
  have hval : C.val (k + 1) 0 = C.val k (used C.c k) := value_succ hk
  refine ⟨?_, h.x0, h.count, h.old, h.stack, h.links, h.root, ?_, ?_, ?_, ?_, h.p, ?_⟩
  · rw [hval]
    exact h.i
  · intro h0
    obtain ⟨-, hzero, hpos, -⟩ := h.first h0
    omega
  · exact fun a ha => Nat.lt_succ_of_lt (h.above a ha)
  · rw [hval]
    exact h.dvd
  · exact fun hk' => h.top (Nat.le_of_succ_le hk')
  · intro k' r' hbef h1' hk' hr' S hS
    refine h.done k' r' ?_ h1' hk' hr' S hS
    unfold Before at hbef ⊢
    rcases Nat.lt_or_ge k' k with hlt | hge
    · exact Or.inl hlt
    · obtain rfl : k' = k := by omega
      exact Or.inr ⟨rfl, hr'⟩

/-- **The main loop**: every code is led to its entry, and the tables that were
there stay. -/
theorem lengthsFrom_leads (hC : C.Ok) :
    ∀ (left : Nat) {k : Nat} {P : Places} {M : Making}, k + left = C.g → 1 ≤ k → Inv C P heap₀ k 0 M →
      ∃ P' M', lengthsFrom C (left + 1) k M = M' ∧ Inv C P' heap₀ C.g (used C.c C.g) M' := by
  intro left
  induction left with
  | zero =>
    intro k P M hk h1 h
    obtain rfl : k = C.g := hk
    have hused : used C.c C.g = C.c C.g := used_of_pos h1
    obtain ⟨P', h'⟩ := Inv.codesOf (a := C.c C.g) hC h1 (Nat.le_refl _) (by rw [hused, Nat.zero_add]) h
    exact ⟨P', _, rfl, h'⟩
  | succ left ih =>
    intro k P M hk h1 h
    have hused : used C.c k = C.c k := used_of_pos h1
    obtain ⟨P', h'⟩ := Inv.codesOf (a := C.c k) hC h1 (by omega) (by rw [hused, Nat.zero_add]) h
    obtain ⟨P'', M', hM', h''⟩ := ih (by omega) (by omega) (h'.next_length h1 (by omega))
    exact ⟨P'', M', hM', h''⟩

end

end Gentoox.Gzip
