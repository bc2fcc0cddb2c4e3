import GentooxLoader.Eeprom.BootEEPROM

/-!
# The EEPROM's image in RAM, all of it (lib/eeprom/BootEEPROM.c)

Both setters store the data they write to the device in `eeprom` too, but not
the checksum.  So the image falls behind the device with the first checksum that
is not the one already there:

    mirrors_next            one call: the image keeps up ↔ the checksum stays
    mirrors_iff             any calls: it never falls behind ↔ each checksum stays
    widescreen_unmirrored   one call on an EEPROM of zeros, and it does
-/

namespace Gentoox.Eeprom

open Cells Lib

/-- `eeprom` is the 256 bytes of the device. -/
def Mirrors (s : State) : Prop := ∀ i, i < 0x100 → s.eeprom i = s.device 0x54 i

/-- The section with the setting in it has the checksum that stands in front of it. -/
def SumStays (s : State) : Setting → Prop
  | .widescreen enable =>
    read s.eeprom 0x60 4 =
      eepromCRC (read (write s.eeprom 0x96 [if enable ≠ 0 then 1 else 0]) 0x64 0x5b)
  | .videoStandard standard =>
    read s.eeprom 0x30 4 = eepromCRC (read (write s.eeprom 0x58 (le32 standard)) 0x34 0x28)

/-! ## One call -/

/-- The data go to both, the checksum to the device alone. -/
theorem unsealed {m image : Nat → UInt8} {c e : Nat} {l data : List UInt8}
    (hsame : ∀ i, i < 0x100 → image i = m i) (hc : c + 4 ≤ 0x100) (hl : c + 4 ≤ e) :
    (∀ i, i < 0x100 → write image e l i = write (write m e l) c (eepromCRC data) i) ↔
      read image c 4 = eepromCRC data := by
  have hdata : ∀ i, i < 0x100 → write image e l i = write m e l i := by
    intro i hi
    unfold write
    rw [hsame i hi]
  rw [agree_write_iff hdata (by rw [length_eepromCRC]; exact hc), length_eepromCRC,
    read_write_of_outside _ _ _ _ _ (.inl hl)]

theorem mirrors_next {ok : Nat → Bool} (hok : Succeeds ok) {s t : State} {a : Setting}
    (h : Mirrors s) (ht : (settings ok).next s a = some t) : Mirrors t ↔ SumStays s a := by
  unfold Mirrors SumStays
  cases a with
  | widescreen enable =>
    cases ht
    obtain ⟨heeprom, hdevice⟩ := widescreen_device hok s enable
    rw [heeprom, hdevice]
    exact unsealed h (by decide) (by decide)
  | videoStandard standard =>
    cases ht
    obtain ⟨heeprom, hdevice⟩ := videoStandard_device hok s standard
    rw [heeprom, hdevice]
    exact unsealed h (by decide) (by decide)

/-! ## Top theorem -/

/-- **The image of the device.**  With every SMBus write completing within its
tries, and from equality, the image is the device after each of any calls exactly
when each of them gives its section the checksum that the image has for it. -/
theorem mirrors_iff (ok : Nat → Bool) (hok : Succeeds ok) {s t : State} (hs : Mirrors s)
    {calls : List Setting} (hrun : (settings ok).run s calls = some t) :
    (settings ok).Throughout Mirrors s calls ↔ (settings ok).Along SumStays s calls :=
  Machine.throughout_iff_along (fun _ _ _ h ht => mirrors_next hok h ht) hs hrun

/-- Widescreen off, where it is off. -/
theorem mirrors_iff_off :
    (settings fun _ => true).Throughout Mirrors blankEeprom [.widescreen 0] := by
  have hok : Succeeds fun _ => true := fun _ => ⟨0, by decide, rfl⟩
  obtain ⟨t, hrun⟩ : ∃ t, (settings fun _ => true).run blankEeprom [.widescreen 0] = some t :=
    ⟨_, rfl⟩
  refine (mirrors_iff _ hok (fun _ _ => rfl) hrun).2 ⟨?_, fun _ _ => trivial⟩
  unfold SumStays
  decide +kernel

/-- **One call.**  Widescreen on, on an EEPROM of zeros that its image equals. -/
theorem widescreen_unmirrored : ¬ ∀ (ok : Nat → Bool) (s t : State) (calls : List Setting),
    Succeeds ok → Mirrors s → (settings ok).run s calls = some t → Mirrors t := by
  intro h
  have hok : Succeeds fun _ => true := fun _ => ⟨0, by decide, rfl⟩
  have hmirrors := h (fun _ => true) blankEeprom _ [.widescreen 1] hok (fun _ _ => rfl) rfl 0x62
    (by decide)
  revert hmirrors
  decide +kernel

end Gentoox.Eeprom
