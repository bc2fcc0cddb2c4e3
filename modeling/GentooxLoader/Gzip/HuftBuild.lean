import GentooxLoader.Base.PrefixCodes
import Mathlib.Data.Nat.Bitwise
import Mathlib.Logic.Function.Basic

/-!
# `huft_build` (lib/gzip/inflate.c)

From the number of bits of each code the tables are made that decode them: a
table for the first `l` bits, and tables behind it for the longer codes.  A
table is known by its number here; what lies in the memory before is arbitrary.
`v` is not set beyond the used codes, and the dummy codes that fill up an
incomplete set take their values from there.

    counts_apply        how many codes have so many bits
    increment_rev       the next code, counted from its other end
    fillTable_apply     the cells that the fill writes
    sortValues_place    each value is at its code's place
-/

namespace Gentoox.Gzip

open BitOrder PrefixCodes

/-! ## Algorithm -/

def bmax : Nat := 16

/-- The union in `struct huft`. -/
inductive Val
  | n (base : Nat)
  | t (table : Nat)
  deriving Repr, DecidableEq

structure Huft where
  e : Nat
  b : Nat
  v : Val
  deriving Repr, DecidableEq

/-- The memory of `gzip_malloc`: table `t` holds `cell t`, `count` is the next. -/
structure Heap where
  count : Nat
  cell : Nat → Nat → Huft

def store (cell : Nat → Nat → Huft) (q j : Nat) (r : Huft) : Nat → Nat → Huft :=
  Function.update cell q (Function.update (cell q) j r)

/-- `c[*p]++`. -/
def counts : List Nat → (Nat → Nat) → Nat → Nat
  | [], c => c
  | k :: b, c => counts b (Function.update c k (c k + 1))

def minLength (c : Nat → Nat) : Nat :=
  ((List.range' 1 bmax).find? fun j => c j != 0).getD (bmax + 1)

def maxLength (c : Nat → Nat) : Nat :=
  ((List.range' 1 bmax).reverse.find? fun i => c i != 0).getD 0

/-- The loop over `y`; `none` is bad input. -/
def fillOut (c : Nat → Nat) : Nat → Nat → Int → Option Int
  | 0, i, y => if y - c i < 0 then none else some (y - c i)
  | left + 1, j, y => if y - c j < 0 then none else fillOut c left (j + 1) ((y - c j) * 2)

/-- The starting offsets `x[1]` to `x[g]`. -/
def offsets (c : Nat → Nat) : Nat → Nat
  | 0 => 0
  | 1 => 0
  | k + 2 => offsets c (k + 1) + c (k + 1)

/-- `v[x[j]++] = i`. -/
def sortValues : List Nat → Nat → (Nat → Nat) → (Nat → Nat) → (Nat → Nat) × (Nat → Nat)
  | [], _, x, v => (x, v)
  | j :: b, i, x, v =>
    if j ≠ 0 then sortValues b (i + 1) (Function.update x j (x j + 1)) (Function.update v (x j) i)
    else sortValues b (i + 1) x v

/-- What the first half sets and the main loop only reads. -/
structure Coding where
  c : Nat → Nat
  v : Nat → Nat
  n : Nat
  s : Nat
  d : List Nat
  e : List Nat
  l : Nat
  g : Nat

/-- The variables of the main loop.  `levels` is `h + 1`, and `w` is `l * h`. -/
structure Making where
  heap : Heap
  t : Option Nat
  u : Nat → Nat
  x : Nat → Nat
  levels : Nat
  q : Nat
  z : Nat
  i : Nat
  p : Nat
  r : Huft

/-- `while (++j < z)`: a table of more bits as long as the codes do not use it up. -/
def moreBits (c : Nat → Nat) (w z f j : Nat) : Nat :=
  if j + 1 < z then
    if 2 * f ≤ c (w + (j + 1)) then j + 1 else moreBits c w z (2 * f - c (w + (j + 1))) (j + 1)
  else j + 1
termination_by z - j

/-- `for (; j < z; j += f) q[j] = r` with `f` a power of 2. -/
def fillTable (q z d : Nat) (r : Huft) (j : Nat) (cell : Nat → Nat → Huft) : Nat → Nat → Huft :=
  if j < z then fillTable q z d r (j + 2 ^ d) (store cell q j r) else cell
termination_by z - j
decreasing_by
  have := Nat.two_pow_pos d
  omega

/-- Backwards increment of the `k`-bit code `i`. -/
def increment : Nat → Nat → Nat
  | 0, i => i
  | k + 1, i => if i &&& 2 ^ k ≠ 0 then increment k (i ^^^ 2 ^ k) else i ^^^ 2 ^ k

/-- Backup over finished tables: how many stay. -/
def backUp (l i : Nat) (x : Nat → Nat) : Nat → Nat
  | 0 => 0
  | h + 1 => if i % 2 ^ (l * h) ≠ x h then backUp l i x h else h + 1

section
variable (C : Coding)

/-- The bits of the table behind `w` bits, for a code of `k` bits that `a` more follow. -/
def tableBits (w k a : Nat) : Nat :=
  let z := if C.g - w > C.l then C.l else C.g - w
  let j := k - w
  if 2 ^ j > a + 1 then moreBits C.c w z (2 ^ j - (a + 1)) j else j

def newTable (k a : Nat) (M : Making) : Making :=
  let w := C.l * M.levels
  let j := tableBits C w k a
  let q := M.heap.count
  let made := { M with
    heap.count := q + 1
    u := Function.update M.u M.levels q
    z := 2 ^ j
    q := q
    levels := M.levels + 1 }
  match M.levels with
  | 0 => { made with t := some q }
  | h + 1 =>
    -- connect to the last table
    let r : Huft := { e := 16 + j, b := C.l, v := .t q }
    { made with
      x := Function.update M.x (h + 1) M.i
      r := r
      heap.cell := store M.heap.cell (made.u h) (M.i >>> (w - C.l)) r }

/-- `while (k > w + l)`; `k` turns are enough, as `l` is not 0. -/
def newTables (k a : Nat) : Nat → Making → Making
  | 0, M => M
  | fuel + 1, M => if k > C.l * M.levels then newTables k a fuel (newTable C k a M) else M

/-- The entry for the next value, and where the values go on.  Behind the ends of `d` and
`e` zeros are read. -/
def nextEntry (b p : Nat) (r : Huft) : Huft × Nat :=
  let r := { r with b := b % 256 }
  if p ≥ C.n then ({ r with e := 99 }, p)
  else if C.v p < C.s then
    ({ r with e := if C.v p < 256 then 16 else 15, v := .n (C.v p % 65536) }, p + 1)
  else
    ({ r with e := C.e.getD (C.v p - C.s) 0 % 256, v := .n (C.d.getD (C.v p - C.s) 0) }, p + 1)

/-- One code of `k` bits, with `a` more of them to come. -/
def oneCode (k a : Nat) (M : Making) : Making :=
  let M := newTables C k a k M
  let w := C.l * (M.levels - 1)
  let (r, p) := nextEntry C (k - w) M.p M.r
  let i := increment k M.i
  { M with
    r := r
    p := p
    heap.cell := fillTable M.q M.z (k - w) r (M.i >>> w) M.heap.cell
    i := i
    levels := backUp C.l i M.x M.levels }

def codesOf (k : Nat) : Nat → Making → Making
  | 0, M => M
  | a + 1, M => codesOf k a (oneCode C k a M)

/-- The lengths from `k` on, so many of them. -/
def lengthsFrom : Nat → Nat → Making → Making
  | 0, _, M => M
  | left + 1, k, M => lengthsFrom left (k + 1) (codesOf C k (C.c k) M)

end

/-- What `huft_build` returns and sets; `t` is `none` for `NULL`. -/
structure Built where
  ret : Nat
  t : Option Nat
  m : Nat
  heap : Heap

/-- `v` and `r` are what lies on the stack.  `b` is not empty. -/
def huftBuild (b : List Nat) (s : Nat) (d e : List Nat) (m : Nat) (heap : Heap) (v : Nat → Nat)
    (r : Huft) : Built :=
  let n := b.length
  let c := counts b fun _ => 0
  if c 0 = n then ⟨0, none, 0, heap⟩
  else
    let j := minLength c
    let i := maxLength c
    let l := if m < j then j else m
    let l := if l > i then i else l
    match fillOut c (i - j) j (2 ^ j) with
    | none => ⟨2, none, l, heap⟩
    | some y =>
      let c := Function.update c i (c i + y.toNat)
      let sorted := sortValues b 0 (offsets c) v
      let C : Coding := ⟨c, sorted.2, n, s, d, e, l, i⟩
      let M := lengthsFrom C (i + 1 - j) j
        ⟨heap, none, fun _ => 0, Function.update sorted.1 0 0, 0, 0, 0, 0, 0, r⟩
      ⟨if y ≠ 0 ∧ i ≠ 1 then 1 else 0, M.t, l, M.heap⟩

/-! ## Counting and sorting -/

theorem counts_apply (b : List Nat) (c : Nat → Nat) (k : Nat) : counts b c k = c k + b.count k := by
  induction b generalizing c with
  | nil => rfl
  | cons j b ih =>
    rw [counts, ih, List.count_cons]
    by_cases h : k = j
    · subst h
      rw [Function.update_self, beq_self_eq_true, if_pos rfl]
      omega
    · rw [Function.update_of_ne h, if_neg (by simpa using fun hjk => h hjk.symm)]
      omega

theorem offsets_eq (c : Nat → Nat) (k : Nat) : offsets c k = offset (used c) k := by
  induction k using offsets.induct with
  | case1 => rfl
  | case2 => rfl
  | case3 k ih =>
    show offsets c (k + 1) + c (k + 1) = offset (used c) (k + 1) + used c (k + 1)
    rw [ih, used_of_pos (Nat.succ_pos k)]

/-- The values sorted so far: `x` is where each length goes on, and what was put
down is there still. -/
structure Sorting (c : Nat → Nat) (b : List Nat) (i : Nat) (x v : Nat → Nat) : Prop where
  put : ∀ j < i, ∀ k, b[j]? = some k → 0 < k → v (place (used c) k ((b.take j).count k)) = j
  done : ∀ k, 0 < k → x k = offset (used c) k + (b.take i).count k

theorem Sorting.step {c : Nat → Nat} {b : List Nat} {i k : Nat} {x v : Nat → Nat}
    (hc : ∀ k, 0 < k → b.count k ≤ c k) (h : Sorting c b i x v) (hk : b[i]? = some k) :
    Sorting c b (i + 1) (if k ≠ 0 then Function.update x k (x k + 1) else x)
      (if k ≠ 0 then Function.update v (x k) i else v) := by
  obtain ⟨hi, rfl⟩ := List.getElem?_eq_some_iff.1 hk
  have htake : b.take (i + 1) = b.take i ++ [b[i]] := List.take_succ_eq_append_getElem hi
  have hcount : ∀ j k, b[j]? = some k → 0 < k → (b.take j).count k < c k := by
    intro j k hj hk
    obtain ⟨hj', rfl⟩ := List.getElem?_eq_some_iff.1 hj
    have hsub : ((b.take (j + 1)).count b[j]) ≤ b.count b[j] :=
      (List.take_sublist (j + 1) b).count_le _
    rw [List.take_succ_eq_append_getElem hj', List.count_append, List.count_singleton_self] at hsub
    have := hc _ hk
    omega
  by_cases h0 : b[i] = 0
  · rw [if_neg (not_not.2 h0), if_neg (not_not.2 h0)]
    refine ⟨fun j hj k hjk hk => ?_, fun k hk => ?_⟩
    · have hne : j ≠ i := by
        rintro rfl
        rw [List.getElem?_eq_getElem hi, Option.some.injEq] at hjk
        omega
      exact h.put j (by omega) k hjk hk
    · have hne : b[i] ≠ k := by omega
      rw [htake, List.count_append, List.count_singleton, if_neg (by simpa using hne), Nat.add_zero]
      exact h.done k hk
  · rw [if_pos h0, if_pos h0]
    have hpos : 0 < b[i] := Nat.pos_of_ne_zero h0
    refine ⟨fun j hj k hjk hk => ?_, fun k hk => ?_⟩
    · have hplace : x b[i] = place (used c) b[i] ((b.take i).count b[i]) := h.done _ hpos
      rcases Nat.lt_or_ge j i with hlt | hge
      · rw [Function.update_of_ne]
        · exact h.put j hlt k hjk hk
        · rw [hplace]
          intro heq
          -- two places are the same only for one code
          have hboth := place_inj (c := used c)
            (by rw [used_of_pos hk]; exact hcount j k hjk hk)
            (by rw [used_of_pos hpos]; exact hcount i _ (List.getElem?_eq_getElem hi) hpos) heq
          obtain ⟨rfl, hrank⟩ := hboth
          have hmono : (b.take (j + 1)).count b[i] ≤ (b.take i).count b[i] := by
            have hsub : b.take (j + 1) = (b.take i).take (j + 1) := by
              rw [List.take_take, Nat.min_eq_left (Nat.succ_le_of_lt hlt)]
            rw [hsub]
            exact (List.take_sublist _ _).count_le _
          obtain ⟨hj', hjv⟩ := List.getElem?_eq_some_iff.1 hjk
          rw [List.take_succ_eq_append_getElem hj', hjv, List.count_append,
            List.count_singleton_self] at hmono
          omega
      · obtain rfl : j = i := by omega
        rw [List.getElem?_eq_getElem hi, Option.some.injEq] at hjk
        subst hjk
        rw [hplace, Function.update_self]
    · rw [htake, List.count_append]
      by_cases hkk : k = b[i]
      · subst hkk
        rw [Function.update_self, List.count_singleton_self, h.done _ hpos, Nat.add_assoc]
      · rw [Function.update_of_ne hkk, List.count_singleton, if_neg (by simpa using Ne.symm hkk),
          Nat.add_zero]
        exact h.done k hk

theorem Sorting.sortValues {c : Nat → Nat} {b : List Nat} (hc : ∀ k, 0 < k → b.count k ≤ c k)
    {l : List Nat} {i : Nat} {x v : Nat → Nat} (h : Sorting c b i x v) (hl : b.drop i = l) :
    Sorting c b b.length (sortValues l i x v).1 (sortValues l i x v).2 := by
  induction l generalizing i x v with
  | nil =>
    have hlen : b.length ≤ i := List.drop_eq_nil_iff.1 hl
    have hall : ∀ k, (b.take b.length).count k = (b.take i).count k := by
      intro k
      rw [List.take_length, List.take_of_length_le hlen]
    refine ⟨fun j hj k hjk hk => h.put j (by omega) k hjk hk, fun k hk => ?_⟩
    rw [hall]
    exact h.done k hk
  | cons k l ih =>
    have hk : b[i]? = some k := by
      rw [← List.head?_drop, hl]
      rfl
    have hrest : b.drop (i + 1) = l := by rw [← List.tail_drop, hl, List.tail_cons]
    have hstep := h.step hc hk
    unfold Gzip.sortValues
    by_cases h0 : k = 0
    · rw [if_neg (not_not.2 h0)] at *
      rw [if_neg (not_not.2 h0)] at hstep
      exact ih hstep hrest
    · rw [if_pos h0] at *
      rw [if_pos h0] at hstep
      exact ih hstep hrest

/-- **Each value is at the place of its code.** -/
theorem sortValues_place {c : Nat → Nat} {b : List Nat} (hc : ∀ k, 0 < k → b.count k ≤ c k)
    (v : Nat → Nat) {j k : Nat} (hj : b[j]? = some k) (hk : 0 < k) :
    (sortValues b 0 (offsets c) v).2 (place (used c) k ((b.take j).count k)) = j := by
  have hstart : Sorting c b 0 (offsets c) v :=
    ⟨fun j hj => absurd hj (Nat.not_lt_zero j), fun k _ => by simp [offsets_eq]⟩
  have hend := hstart.sortValues hc (l := b) rfl
  exact hend.put j (List.getElem?_eq_some_iff.1 hj).1 k hj hk

/-! ## The shortest and the longest code -/

theorem minLength_spec {c : Nat → Nat} (h : ∃ k, 1 ≤ k ∧ k ≤ bmax ∧ c k ≠ 0) :
    1 ≤ minLength c ∧ minLength c ≤ bmax ∧ c (minLength c) ≠ 0 ∧
      ∀ k, 1 ≤ k → k < minLength c → c k = 0 := by
  obtain ⟨k, h1, h2, hk⟩ := h
  cases hfind : (List.range' 1 bmax).find? fun j => c j != 0 with
  | none =>
    have hall := List.find?_eq_none.1 hfind k (List.mem_range'_1.2 ⟨h1, by omega⟩)
    simp [hk] at hall
  | some j =>
    have hmin : minLength c = j := by rw [minLength, hfind, Option.getD_some]
    have hj := List.mem_range'_1.1 (List.mem_of_find?_eq_some hfind)
    have hc := List.find?_some hfind
    rw [hmin]
    refine ⟨hj.1, by omega, by simpa using hc, fun m hm hlt => ?_⟩
    obtain ⟨_, i, hi, hget, hbefore⟩ := List.find?_eq_some_iff_getElem.1 hfind
    rw [List.getElem_range', Nat.one_mul] at hget
    have hm' := hbefore (m - 1) (by omega)
    rw [List.getElem_range', Nat.one_mul, Nat.add_sub_cancel' hm] at hm'
    simpa using hm'

theorem maxLength_spec {c : Nat → Nat} (h : ∃ k, 1 ≤ k ∧ k ≤ bmax ∧ c k ≠ 0) :
    1 ≤ maxLength c ∧ maxLength c ≤ bmax ∧ c (maxLength c) ≠ 0 ∧
      ∀ k, maxLength c < k → k ≤ bmax → c k = 0 := by
  obtain ⟨k, h1, h2, hk⟩ := h
  cases hfind : (List.range' 1 bmax).reverse.find? fun i => c i != 0 with
  | none =>
    have hall := List.find?_eq_none.1 hfind k
      (List.mem_reverse.2 (List.mem_range'_1.2 ⟨h1, by omega⟩))
    simp [hk] at hall
  | some j =>
    have hmax : maxLength c = j := by rw [maxLength, hfind, Option.getD_some]
    have hj := List.mem_range'_1.1 (List.mem_reverse.1 (List.mem_of_find?_eq_some hfind))
    have hc := List.find?_some hfind
    rw [hmax]
    refine ⟨hj.1, by omega, by simpa using hc, fun m hm hle => ?_⟩
    obtain ⟨_, i, hi, hget, hbefore⟩ := List.find?_eq_some_iff_getElem.1 hfind
    rw [List.length_reverse, List.length_range'] at hi
    rw [List.getElem_reverse, List.getElem_range', Nat.one_mul, List.length_range'] at hget
    have hm' := hbefore (bmax - m) (by omega)
    rw [List.getElem_reverse, List.getElem_range', Nat.one_mul, List.length_range'] at hm'
    have hidx : 1 + (bmax - 1 - (bmax - m)) = m := by omega
    rw [hidx] at hm'
    simpa using hm'

/-! ## Filling out the codes -/

section
variable {c : Nat → Nat}

/-- How many codes of `k` bits are over after those of `k` bits and less. -/
def spare (c : Nat → Nat) (k : Nat) : Int := 2 ^ k - firstCode (used c) k - c k

theorem spare_succ {k : Nat} (h : 0 < k) : spare c (k + 1) = 2 * spare c k - c (k + 1) := by
  unfold spare
  rw [firstCode, used_of_pos h, pow_succ]
  push_cast
  ring

/-- Once there are too many codes there are too many of all longer lengths. -/
theorem spare_neg {k k' : Nat} (h : 0 < k) (hk : k ≤ k') (hneg : spare c k < 0) : spare c k' < 0 := by
  induction k', hk using Nat.le_induction with
  | base => exact hneg
  | succ m hm ih =>
    rw [spare_succ (by omega)]
    omega

theorem fillOut_eq {left j : Nat} {y : Int} (hj : 0 < j) (hy : y = 2 ^ j - firstCode (used c) j) :
    fillOut c left j y =
      if spare c (j + left) < 0 then none else some (spare c (j + left)) := by
  induction left generalizing j y with
  | zero =>
    subst hy
    rfl
  | succ left ih =>
    have hspare : y - c j = spare c j := by
      subst hy
      rfl
    have hnext : (y - c j) * 2 = 2 ^ (j + 1) - firstCode (used c) (j + 1) := by
      rw [hspare, spare, firstCode, used_of_pos hj, pow_succ]
      push_cast
      ring
    rw [fillOut, ih (Nat.succ_pos j) hnext, hspare, Nat.add_right_comm j 1 left, Nat.add_assoc]
    split
    · rw [if_pos (spare_neg hj (Nat.le_add_right j _) ‹_›)]
    · rfl

/-- Before the shortest length there is no code. -/
theorem firstCode_eq_zero {k : Nat} (h : ∀ j, 1 ≤ j → j < k → c j = 0) :
    firstCode (used c) k = 0 := by
  induction k with
  | zero => rfl
  | succ k ih =>
    have hused : used c k = 0 := by
      unfold used
      split
      · rfl
      · exact h k (by omega) (Nat.lt_succ_self k)
    rw [firstCode, ih (fun j h1 h2 => h j h1 (Nat.lt_succ_of_lt h2)), hused]

end

/-! ## The size of a table -/

theorem moreBits_spec {c : Nat → Nat} {g w z f j T : Nat} (hz : w + z ≤ g) (hpos : 0 < w + j)
    (hT : value (used c) g (w + j) (used c (w + j)) + f * 2 ^ (g - (w + j)) = T) :
    j + 1 ≤ moreBits c w z f j ∧ (moreBits c w z f j ≤ z ∨ moreBits c w z f j = j + 1) ∧
      (z ≤ moreBits c w z f j ∨ T ≤ value (used c) g (w + moreBits c w z f j)
        (used c (w + moreBits c w z f j))) := by
  induction f, j using moreBits.induct c w z with
  | case1 f j hlt hle =>
    have hres : moreBits c w z f j = j + 1 := by rw [moreBits, if_pos hlt, if_pos hle]
    have hhalf : 2 ^ (g - (w + j)) = 2 * 2 ^ (g - (w + (j + 1))) := by
      rw [← Nat.pow_succ']
      congr 1
      omega
    refine ⟨hres.ge, Or.inl (by omega), Or.inr ?_⟩
    rw [hres, ← hT, ← Nat.add_assoc w j 1, ← value_succ (by omega), hhalf]
    have hval := value_add (used c) g (w + j + 1) 0 (2 * f)
    have hmono : value (used c) g (w + j + 1) (0 + 2 * f) ≤
        value (used c) g (w + j + 1) (used c (w + j + 1)) := by
      rw [Nat.zero_add, used_of_pos (Nat.succ_pos _)]
      exact Nat.mul_le_mul_right _ (Nat.add_le_add_left hle _)
    calc value (used c) g (w + j + 1) 0 + f * (2 * 2 ^ (g - (w + (j + 1))))
        = value (used c) g (w + j + 1) (0 + 2 * f) := by
          rw [hval, Nat.add_assoc w j 1]
          ring
      _ ≤ _ := hmono
  | case2 f j hlt hle ih =>
    have hres : moreBits c w z f j = moreBits c w z (2 * f - c (w + (j + 1))) (j + 1) := by
      rw [moreBits, if_pos hlt, if_neg hle]
    have hhalf : 2 ^ (g - (w + j)) = 2 * 2 ^ (g - (w + (j + 1))) := by
      rw [← Nat.pow_succ']
      congr 1
      omega
    have hnext : value (used c) g (w + (j + 1)) (used c (w + (j + 1))) +
        (2 * f - c (w + (j + 1))) * 2 ^ (g - (w + (j + 1))) = T := by
      have hval := value_add (used c) g (w + (j + 1)) 0 (used c (w + (j + 1)))
      rw [Nat.zero_add, used_of_pos (show 0 < w + (j + 1) by omega)] at hval
      rw [used_of_pos (show 0 < w + (j + 1) by omega), hval, ← Nat.add_assoc w j 1,
        value_succ (by omega), Nat.add_assoc w j 1, Nat.add_assoc, ← Nat.add_mul,
        Nat.add_sub_cancel' (by omega), ← hT, hhalf]
      ring
    obtain ⟨h1, h2, h3⟩ := ih (by omega) hnext
    rw [hres]
    exact ⟨by omega, Or.inl (by omega), h3⟩
  | case3 f j hlt =>
    have hres : moreBits c w z f j = j + 1 := by rw [moreBits, if_neg hlt]
    rw [hres]
    exact ⟨Nat.le_refl _, Or.inr rfl, Or.inl (by omega)⟩

/-! ## The cells -/

@[simp] theorem store_apply (cell : Nat → Nat → Huft) (q j : Nat) (r : Huft) (t idx : Nat) :
    store cell q j r t idx = if t = q ∧ idx = j then r else cell t idx := by
  unfold store
  by_cases ht : t = q
  · subst ht
    by_cases hi : idx = j
    · subst hi
      simp
    · simp [hi]
  · simp [ht]

theorem fillTable_apply (q z d : Nat) (r : Huft) (j : Nat) (cell : Nat → Nat → Huft) (t idx : Nat) :
    fillTable q z d r j cell t idx =
      if t = q ∧ j ≤ idx ∧ idx < z ∧ idx % 2 ^ d = j % 2 ^ d then r else cell t idx := by
  have hpos := Nat.two_pow_pos d
  induction j, cell using fillTable.induct q z d r with
  | case1 j cell hlt ih =>
    rw [fillTable, if_pos hlt, ih, Nat.add_mod_right, store_apply]
    by_cases hidx : idx = j
    · subst hidx
      by_cases ht : t = q
      · rw [if_neg (by omega), if_pos ⟨ht, rfl⟩, if_pos ⟨ht, Nat.le_refl _, hlt, rfl⟩]
      · rw [if_neg (fun h => ht h.1), if_neg (fun h => ht h.1), if_neg (fun h => ht h.1)]
    · rw [if_neg (fun h : t = q ∧ idx = j => hidx h.2)]
      refine if_congr (and_congr_right fun _ => ?_) rfl rfl
      constructor
      · rintro ⟨h1, h2, h3⟩
        exact ⟨by omega, h2, h3⟩
      · rintro ⟨h1, h2, h3⟩
        -- of the same remainder and behind `j`, so a whole step behind
        have hstep : j + 2 ^ d ≤ idx := by
          have h := Nat.div_add_mod idx (2 ^ d)
          have h' := Nat.div_add_mod j (2 ^ d)
          have hdiv : j / 2 ^ d < idx / 2 ^ d := by
            by_contra hcon
            have := Nat.mul_le_mul_left (2 ^ d) (Nat.le_of_not_lt hcon)
            omega
          have := Nat.mul_le_mul_left (2 ^ d) (Nat.succ_le_of_lt hdiv)
          rw [Nat.mul_succ] at this
          omega
        exact ⟨hstep, h2, h3⟩
  | case2 j cell hlt =>
    rw [fillTable, if_neg hlt, if_neg]
    rintro ⟨_, h1, h2, _⟩
    omega

theorem nextEntry_of_lt {C : Coding} {b p : Nat} {r : Huft} (hp : p < C.n) :
    (nextEntry C b p r).1 =
      if C.v p < C.s then ⟨if C.v p < 256 then 16 else 15, b % 256, .n (C.v p % 65536)⟩
      else ⟨C.e.getD (C.v p - C.s) 0 % 256, b % 256, .n (C.d.getD (C.v p - C.s) 0)⟩ := by
  unfold nextEntry
  rw [if_neg (Nat.not_le.2 hp)]
  split <;> rfl

/-! ## The next code -/

theorem and_two_pow_ne_zero {k y : Nat} (hy : y < 2 ^ k) (b : Nat) (hb : b < 2) :
    (b * 2 ^ k + y) &&& 2 ^ k ≠ 0 ↔ b = 1 := by
  rw [Nat.and_two_pow, Nat.testBit_eq_decide_div_mod_eq]
  have hdiv : (b * 2 ^ k + y) / 2 ^ k = b := by
    rw [Nat.mul_comm, Nat.mul_add_div (Nat.two_pow_pos k), Nat.div_eq_of_lt hy, Nat.add_zero]
  rw [hdiv, Nat.mod_eq_of_lt hb]
  by_cases h : b = 1
  · simp [h]
  · simp [h]

theorem xor_two_pow {k y : Nat} (hy : y < 2 ^ k) : y ^^^ 2 ^ k = 2 ^ k + y := by
  rw [← Nat.mul_one (2 ^ k), Nat.two_pow_add_eq_or_of_lt hy, Nat.mul_one]
  apply Nat.eq_of_testBit_eq
  intro i
  rw [Nat.testBit_xor, Nat.testBit_or, Nat.testBit_two_pow]
  by_cases h : k = i
  · subst h
    simp [Nat.testBit_lt_two_pow hy]
  · simp [h]

/-- **Counting from the other end.** -/
theorem increment_rev (k x : Nat) : increment k (rev k x) = rev k (x + 1) := by
  induction k generalizing x with
  | zero => rfl
  | succ k ih =>
    have hy := rev_lt k (x / 2)
    have hand := and_two_pow_ne_zero hy (x % 2) (Nat.mod_lt x Nat.two_pos)
    rw [increment, rev]
    rcases Nat.mod_two_eq_zero_or_one x with hx | hx
    · have hodd : (x + 1) % 2 = 1 ∧ (x + 1) / 2 = x / 2 := by omega
      rw [if_neg (by rw [hand]; omega), hx, Nat.zero_mul, Nat.zero_add, xor_two_pow hy, rev,
        hodd.1, hodd.2, Nat.one_mul]
    · have heven : (x + 1) % 2 = 0 ∧ (x + 1) / 2 = x / 2 + 1 := by omega
      rw [if_pos (hand.2 hx), hx, Nat.one_mul, ← xor_two_pow hy, Nat.xor_assoc, Nat.xor_self,
        Nat.xor_zero, ih, rev, heven.1, heven.2, Nat.zero_mul, Nat.zero_add]

theorem backUp_spec {l i levels : Nat} {x : Nat → Nat} (h0 : x 0 = 0) (h : 0 < levels) :
    0 < backUp l i x levels ∧ backUp l i x levels ≤ levels ∧
      i % 2 ^ (l * (backUp l i x levels - 1)) = x (backUp l i x levels - 1) ∧
      ∀ h, backUp l i x levels ≤ h → h < levels → i % 2 ^ (l * h) ≠ x h := by
  induction levels with
  | zero => exact absurd h (Nat.lt_irrefl 0)
  | succ n ih =>
    rw [backUp]
    by_cases hne : i % 2 ^ (l * n) ≠ x n
    · have hn : 0 < n := by
        rcases Nat.eq_zero_or_pos n with rfl | hn
        · simp [h0, Nat.mod_one] at hne
        · exact hn
      rw [if_pos hne]
      obtain ⟨h1, h2, h3, h4⟩ := ih hn
      refine ⟨h1, by omega, h3, fun m hm hlt => ?_⟩
      rcases Nat.lt_or_eq_of_le (Nat.le_of_lt_succ hlt) with hlt' | rfl
      · exact h4 m hm hlt'
      · exact hne
    · rw [if_neg hne]
      exact ⟨Nat.succ_pos n, Nat.le_refl _, not_not.1 hne, fun m hm hlt => absurd hlt (by omega)⟩

end Gentoox.Gzip
