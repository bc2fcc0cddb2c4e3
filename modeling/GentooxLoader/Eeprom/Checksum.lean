import Mathlib.Algebra.BigOperators.Group.List.Basic
import Mathlib.Data.List.GetD
import GentooxLoader.Eeprom.BootEEPROM

/-!
# What the EEPROM's checksum detects (lib/eeprom/BootEEPROM.c)

Each byte of the checksum is the high byte of a sum of 16 bit words.  A data byte
is the high byte of one of these words, so a change of it shows, but for the last:
shifted round to the front it is only the low byte of the first word, and a change
of it shows if there is another carry.

    eepromCRC_eq_iff       two checksums are equal ↔ the four sums have the same
                           second byte
    eepromCRC_set_ne_iff   one byte changed: the checksum changes ↔ it is not the
                           last, or one of the two values carries
    last_byte_unseen       the last byte of a block of zeros
-/

namespace Gentoox.Eeprom

open Cells Lib

/-! ## Sums -/

section
variable {α : Type*} [DecidableEq α] {f g : α → Nat}

/-- Two sums over a list that differ in one place. -/
theorem sum_map_one {l : List α} (hl : l.Nodup) {x : α} (hx : x ∈ l)
    (hne : ∀ y ∈ l, y ≠ x → f y = g y) : (l.map f).sum + g x = (l.map g).sum + f x := by
  have hrest : (l.erase x).map f = (l.erase x).map g := by
    apply List.map_congr_left
    intro y hy
    obtain ⟨hyx, hyl⟩ := hl.mem_erase_iff.1 hy
    exact hne y hyl hyx
  rw [← List.sum_map_erase f hx, ← List.sum_map_erase g hx, hrest]
  omega

end

/-- The `unsigned short` at `l` of the shifted data. -/
def wordAt (data : List UInt8) (l : Nat) : Nat :=
  (data.getD (if l = 0 then data.length - 1 else l - 1) 0).toNat +
    256 * if l + 1 < data.length then (data.getD l 0).toNat else 0

/-- The places of the words that go into byte `pos` of the checksum. -/
def places (n pos : Nat) : List Nat := List.range' pos ((n + 3 - pos) / 4) 4

def wordSum (data : List UInt8) (pos : Nat) : Nat :=
  ((places data.length pos).map (wordAt data)).sum

theorem mem_places {n pos l : Nat} (hpos : pos < 4) : l ∈ places n pos ↔ l < n ∧ l % 4 = pos := by
  unfold places
  rw [List.mem_range']
  constructor
  · rintro ⟨i, hi, rfl⟩
    omega
  · rintro ⟨hl, hmod⟩
    exact ⟨l / 4, by omega, by omega⟩

theorem nodup_places (n pos : Nat) : (places n pos).Nodup := by
  unfold places
  exact List.nodup_range' 4

theorem shiftedData_concat (l : List UInt8) (x : UInt8) :
    shiftedData (l ++ [x]) = x :: (l ++ List.replicate 4 0) := by
  simp [shiftedData]

theorem toNat_short (low high : UInt8) :
    (low.toUInt16 + high.toUInt16 * 2 ^ 8).toNat = low.toNat + 256 * high.toNat := by
  have := low.toNat_lt
  have := high.toNat_lt
  rw [UInt16.toNat_add, UInt16.toNat_mul, UInt8.toNat_toUInt16, UInt8.toNat_toUInt16]
  show (low.toNat + high.toNat * 2 ^ 8 % 2 ^ 16) % 2 ^ 16 = _
  omega

theorem shortAt_toNat (data : List UInt8) {l : Nat} (hl : l < data.length) :
    (shortAt (shiftedData data) l).toNat = wordAt data l := by
  obtain rfl | ⟨front, x, rfl⟩ := List.eq_nil_or_concat' data
  · exact absurd hl (Nat.not_lt_zero l)
  rw [List.length_append, List.length_singleton] at hl
  have hlow : (shiftedData (front ++ [x])).getD l 0 =
      (front ++ [x]).getD (if l = 0 then (front ++ [x]).length - 1 else l - 1) 0 := by
    rw [shiftedData_concat]
    cases l with
    | zero => simp
    | succ l =>
      rw [List.getD_cons_succ, List.getD_append _ _ _ _ (by omega), if_neg (Nat.succ_ne_zero l),
        Nat.add_sub_cancel, List.getD_append _ _ _ _ (by omega)]
  have hhigh : ((shiftedData (front ++ [x])).getD (l + 1) 0).toNat =
      if l + 1 < (front ++ [x]).length then ((front ++ [x]).getD l 0).toNat else 0 := by
    rw [shiftedData_concat, List.getD_cons_succ, List.length_append, List.length_singleton]
    split
    · rw [List.getD_append _ _ _ _ (by omega), List.getD_append _ _ _ _ (by omega)]
    · obtain rfl : l = front.length := by omega
      simp
  unfold wordAt
  rw [← hlow, ← hhigh]
  exact toNat_short _ _

/-- The subtractions come to one. -/
theorem foldl_sub (d : List UInt8) (ls : List Nat) (v : UInt16) :
    ((ls.foldl (fun v l => v - shortAt d l) v).toNat + (ls.map fun l => (shortAt d l).toNat).sum) %
      65536 = v.toNat := by
  induction ls generalizing v with
  | nil =>
    have := v.toNat_lt
    simp only [List.foldl_nil, List.map_nil, List.sum_nil]
    omega
  | cons l ls ih =>
    rw [List.foldl_cons, List.map_cons, List.sum_cons]
    have hstep := ih (v - shortAt d l)
    rw [UInt16.toNat_sub] at hstep
    have := (shortAt d l).toNat_lt
    have := v.toNat_lt
    omega

theorem high_byte (v : UInt16) : (((v &&& 0xFF00) >>> 8).toUInt8).toNat = v.toNat / 256 := by
  have := v.toNat_lt
  rw [UInt16.toNat_toUInt8, UInt16.toNat_shiftRight, UInt16.toNat_and]
  show (v.toNat &&& 0xFF00) >>> 8 % 256 = v.toNat / 256
  rw [Nat.shiftRight_and_distrib]
  show (v.toNat >>> 8 &&& 2 ^ 8 - 1) % 256 = v.toNat / 256
  rw [Nat.and_two_pow_sub_one_eq_mod, Nat.shiftRight_eq_div_pow]
  omega

/-! ## The four bytes -/

/-- A byte of the checksum is the second byte of its sum, taken from 255. -/
theorem crcByte_toNat (data : List UInt8) {pos : Nat} (hpos : pos < 4) :
    (((crcPosVal (shiftedData data) data.length pos &&& 0xFF00) >>> 8).toUInt8).toNat =
      255 - wordSum data pos / 256 % 256 := by
  have hsum : (places data.length pos).map (fun l => (shortAt (shiftedData data) l).toNat) =
      (places data.length pos).map (wordAt data) := by
    apply List.map_congr_left
    intro l hl
    exact shortAt_toNat data ((mem_places hpos).1 hl).1
  have hfold := foldl_sub (shiftedData data) (places data.length pos) 0xFFFF
  rw [hsum] at hfold
  have hval : ((crcPosVal (shiftedData data) data.length pos).toNat + wordSum data pos) % 65536 =
      65535 := hfold
  have := (crcPosVal (shiftedData data) data.length pos).toNat_lt
  rw [high_byte]
  omega

theorem eepromCRC_eq_iff (data data' : List UInt8) : eepromCRC data' = eepromCRC data ↔
    ∀ pos, pos < 4 → wordSum data' pos / 256 % 256 = wordSum data pos / 256 % 256 := by
  unfold eepromCRC
  rw [List.map_inj_left]
  refine ⟨fun h pos hpos => ?_, fun h pos hpos => ?_⟩
  · have hbyte := congrArg UInt8.toNat (h pos (List.mem_range.2 hpos))
    rw [crcByte_toNat data' hpos, crcByte_toNat data hpos] at hbyte
    omega
  · have hpos := List.mem_range.1 hpos
    apply UInt8.toNat_inj.1
    rw [crcByte_toNat data' hpos, crcByte_toNat data hpos, h pos hpos]

/-! ## One byte changed -/

/-- The bytes 3, 7, 11, … before the last: the low bytes of the words that the
last byte is summed with. -/
def fourthBytes (data : List UInt8) : Nat :=
  ((List.range' 3 ((data.length - 1) / 4) 4).map fun i => (data.getD i 0).toNat).sum

/-- The low bytes come to more than a byte if the last one is `b`. -/
def Carries (data : List UInt8) (b : UInt8) : Prop := 256 ≤ fourthBytes data % 256 + b.toNat

instance (data : List UInt8) (b : UInt8) : Decidable (Carries data b) :=
  inferInstanceAs (Decidable (_ ≤ _))

theorem sum_map_mod (ls : List Nat) (f g : Nat → Nat) :
    (ls.map fun l => f l + 256 * g l).sum % 256 = (ls.map f).sum % 256 := by
  induction ls with
  | nil => rfl
  | cons l ls ih =>
    simp only [List.map_cons, List.sum_cons]
    omega

section
variable {data : List UInt8} {i l : Nat} {b : UInt8}

theorem getD_set (hi : i < data.length) (j : Nat) :
    (data.set i b).getD j 0 = if j = i then b else data.getD j 0 := by
  rw [List.getD_eq_getElem?_getD, List.getElem?_set]
  split
  · rename_i hij
    rw [if_pos hij.symm]
    simp
  · rename_i hij
    rw [if_neg (Ne.symm hij), List.getD_eq_getElem?_getD]

/-- The word that has byte `i` as its high byte. -/
theorem wordAt_set_high (hi : i + 1 < data.length) :
    wordAt (data.set i b) i + 256 * (data.getD i 0).toNat = wordAt data i + 256 * b.toNat := by
  have hlow : (if i = 0 then data.length - 1 else i - 1) ≠ i := by
    split <;> omega
  unfold wordAt
  rw [List.length_set, getD_set (by omega), getD_set (by omega), if_neg hlow, if_pos hi, if_pos hi,
    if_pos rfl]
  omega

/-- The word that the last byte is shifted round to. -/
theorem wordAt_set_low (hi : i + 1 = data.length) :
    wordAt (data.set i b) 0 + (data.getD i 0).toNat = wordAt data 0 + b.toNat := by
  have hlast : data.length - 1 = i := by omega
  have hhigh : (if 0 + 1 < data.length then ((data.set i b).getD 0 0).toNat else 0) =
      if 0 + 1 < data.length then (data.getD 0 0).toNat else 0 := by
    split
    · rw [getD_set (by omega), if_neg (by omega)]
    · rfl
  unfold wordAt
  rw [List.length_set, if_pos rfl, hhigh, hlast, getD_set (by omega), if_pos rfl]
  omega

/-- The words without byte `i`. -/
theorem wordAt_set_of_ne (hi : i < data.length) (hhigh : l = i → l + 1 = data.length)
    (hlow : l ≠ i + 1) (hfirst : l = 0 → i + 1 ≠ data.length) :
    wordAt (data.set i b) l = wordAt data l := by
  have hplace : (if l = 0 then data.length - 1 else l - 1) ≠ i := by
    split
    · have := hfirst ‹_›
      omega
    · omega
  have hsame : (if l + 1 < data.length then ((data.set i b).getD l 0).toNat else 0) =
      if l + 1 < data.length then (data.getD l 0).toNat else 0 := by
    split
    · rw [getD_set hi, if_neg fun h => by have := hhigh h; omega]
    · rfl
  unfold wordAt
  rw [List.length_set, getD_set hi, if_neg hplace, hsame]

/-! ## The two kinds of byte -/

/-- A byte before the last moves the second byte of its sum. -/
theorem wordSum_set (hi : i + 1 < data.length) :
    wordSum (data.set i b) (i % 4) + 256 * (data.getD i 0).toNat =
      wordSum data (i % 4) + 256 * b.toNat := by
  have hmem : i ∈ places data.length (i % 4) :=
    (mem_places (Nat.mod_lt _ (by decide))).2 ⟨by omega, rfl⟩
  have hone : wordSum (data.set i b) (i % 4) + wordAt data i =
      wordSum data (i % 4) + wordAt (data.set i b) i := by
    unfold wordSum
    rw [List.length_set]
    refine sum_map_one (nodup_places _ _) hmem fun l hl hne => ?_
    obtain ⟨-, hmod⟩ := (mem_places (Nat.mod_lt _ (by decide))).1 hl
    exact wordAt_set_of_ne (by omega) (fun h => absurd h hne) (by omega) (fun _ => by omega)
  have := wordAt_set_high (b := b) hi
  omega

/-- The last byte moves its sum by less. -/
theorem wordSum_set_last (hi : i + 1 = data.length) :
    wordSum (data.set i b) 0 + (data.getD i 0).toNat = wordSum data 0 + b.toNat := by
  have hmem : 0 ∈ places data.length 0 := (mem_places (by decide)).2 ⟨by omega, rfl⟩
  have hone : wordSum (data.set i b) 0 + wordAt data 0 =
      wordSum data 0 + wordAt (data.set i b) 0 := by
    unfold wordSum
    rw [List.length_set]
    refine sum_map_one (nodup_places _ _) hmem fun l hl hne => ?_
    obtain ⟨hlt, -⟩ := (mem_places (by decide)).1 hl
    exact wordAt_set_of_ne (by omega) (fun h => by omega) (by omega) (fun h => absurd h hne)
  have := wordAt_set_low (b := b) hi
  omega

theorem wordSum_set_others (hi : i + 1 = data.length) {pos : Nat} (hpos : pos < 4) (h0 : pos ≠ 0) :
    wordSum (data.set i b) pos = wordSum data pos := by
  unfold wordSum
  rw [List.length_set]
  congr 1
  apply List.map_congr_left
  intro l hl
  obtain ⟨hlt, hmod⟩ := (mem_places hpos).1 hl
  exact wordAt_set_of_ne (by omega) (fun h => by omega) (by omega) (fun h => by omega)

/-- The low byte of the sum with the last byte in it. -/
theorem wordSum_mod (hi : i + 1 = data.length) :
    wordSum data 0 % 256 = (fourthBytes data + (data.getD i 0).toNat) % 256 := by
  have hplaces : places data.length 0 =
      0 :: (List.range' 3 ((data.length - 1) / 4) 4).map (1 + ·) := by
    unfold places
    rw [List.map_add_range', show (data.length + 3 - 0) / 4 = (data.length - 1) / 4 + 1 by omega,
      List.range'_succ]
  have hrest : (((List.range' 3 ((data.length - 1) / 4) 4).map (1 + ·)).map (wordAt data)).sum % 256 =
      fourthBytes data % 256 := by
    rw [List.map_map]
    refine Eq.trans ?_ (sum_map_mod _ _ fun l =>
      if 1 + l + 1 < data.length then (data.getD (1 + l) 0).toNat else 0)
    congr 2
    apply List.map_congr_left
    intro l _
    simp only [Function.comp_apply, wordAt]
    rw [if_neg (by omega), Nat.add_sub_cancel_left]
  have hfirst : wordAt data 0 % 256 = (data.getD i 0).toNat % 256 := by
    unfold wordAt
    rw [if_pos rfl, show data.length - 1 = i by omega]
    omega
  unfold wordSum
  rw [hplaces, List.map_cons, List.sum_cons]
  omega

end

/-! ## Top theorem -/

/-- **One byte changed.**  The checksum changes too exactly if the byte is not the
last, or one of its two values makes a carry and the other does not. -/
theorem eepromCRC_set_ne_iff (data : List UInt8) {i : Nat} (hi : i < data.length) {b : UInt8}
    (hb : b ≠ data[i]) : eepromCRC (data.set i b) ≠ eepromCRC data ↔
      i + 1 < data.length ∨ ¬ (Carries data data[i] ↔ Carries data b) := by
  have hold : data.getD i 0 = data[i] := by simp [hi]
  have hne : b.toNat ≠ data[i].toNat := fun h => hb (UInt8.toNat_inj.1 h)
  have := b.toNat_lt
  have := data[i].toNat_lt
  rw [Ne, eepromCRC_eq_iff]
  rcases Nat.lt_or_ge (i + 1) data.length with hlt | hge
  · have hsum := wordSum_set (b := b) hlt
    rw [hold] at hsum
    refine iff_of_true (fun h => ?_) (.inl hlt)
    have := h (i % 4) (Nat.mod_lt _ (by decide))
    omega
  · have hlast : i + 1 = data.length := by omega
    have hsum := wordSum_set_last (b := b) hlast
    have hmod := wordSum_mod hlast
    rw [hold] at hsum hmod
    have hzero : (∀ pos, pos < 4 → wordSum (data.set i b) pos / 256 % 256 =
        wordSum data pos / 256 % 256) ↔
          wordSum (data.set i b) 0 / 256 % 256 = wordSum data 0 / 256 % 256 := by
      refine ⟨fun h => h 0 (by decide), fun h pos hpos => ?_⟩
      rcases Nat.eq_zero_or_pos pos with rfl | hpos0
      · exact h
      · rw [wordSum_set_others hlast hpos (by omega)]
    rw [hzero, or_iff_right (by omega)]
    unfold Carries
    generalize wordSum (data.set i b) 0 = sum' at hsum ⊢
    generalize wordSum data 0 = sum at hsum hmod ⊢
    generalize fourthBytes data = low at hmod ⊢
    omega

theorem eepromCRC_set_ne_iff_first :
    eepromCRC ((List.replicate 0x28 0).set 0 1) ≠ eepromCRC (List.replicate 0x28 0) :=
  (eepromCRC_set_ne_iff (List.replicate 0x28 0) (i := 0) (by decide) (by decide)).2
    (.inl (by decide))

/-- **The last byte.**  In a section of zeros it can be anything. -/
theorem last_byte_unseen : ¬ ∀ (data : List UInt8) (i : Nat) (hi : i < data.length) (b : UInt8),
    b ≠ data[i] → eepromCRC (data.set i b) ≠ eepromCRC data := by
  intro h
  refine h (List.replicate 0x28 0) 0x27 (by decide) 1 (by decide) ?_
  decide +kernel

end Gentoox.Eeprom
