import GentooxLoader.Base.Machine
import GentooxLoader.Lib.Digest

/-!
# The EEPROM and its image in RAM (lib/eeprom/BootEEPROM.c)

Two settings change bytes of the EEPROM and the checksum over the section they
are in.  The checksum is computed from the image in RAM, and written with the
data byte by byte to fixed addresses of the device; the image's own checksums
stay as they are.

    mirrored_next         the image has the device's bytes in both sections
    checksums_reachable   both checksums of the device are right after any calls
-/

namespace Gentoox.Eeprom

open Cells Lib

/-! ## Algorithm -/

/-- The fields of `EEPROMDATA`. -/
inductive Field where
  | hmacSha1Hash
  | confounder
  | hddKkey
  | xbeRegion
  | checksum2
  | serialNumber
  | macAddress
  | unknown2
  | onlineKey
  | videoStandard
  | unknown3
  | checksum3
  | timeZoneBias
  | timeZoneStdName
  | timeZoneDltName
  | unknown4
  | timeZoneStdDate
  | timeZoneDltDate
  | unknown5
  | timeZoneStdBias
  | timeZoneDltBias
  | languageID
  | videoFlags
  | audioFlags
  | parentalControlGames
  | parentalControlPwd
  | parentalControlMovies
  | xboxLiveIPAddress
  | xboxLiveDNS
  | xboxLiveGateWay
  | xboxLiveSubNetMask
  | otherSettings
  | dvdPlaybackKitZone
  | unknown6
  deriving DecidableEq

/-- In the order of the declaration, with their sizes. -/
def eepromData : List (Field × Nat) :=
  [(.hmacSha1Hash, 20), (.confounder, 8), (.hddKkey, 16), (.xbeRegion, 4), (.checksum2, 4),
    (.serialNumber, 12), (.macAddress, 6), (.unknown2, 2), (.onlineKey, 16), (.videoStandard, 4),
    (.unknown3, 4), (.checksum3, 4), (.timeZoneBias, 4), (.timeZoneStdName, 4),
    (.timeZoneDltName, 4), (.unknown4, 8), (.timeZoneStdDate, 4), (.timeZoneDltDate, 4),
    (.unknown5, 8), (.timeZoneStdBias, 4), (.timeZoneDltBias, 4), (.languageID, 4),
    (.videoFlags, 4), (.audioFlags, 4), (.parentalControlGames, 4), (.parentalControlPwd, 4),
    (.parentalControlMovies, 4), (.xboxLiveIPAddress, 4), (.xboxLiveDNS, 4),
    (.xboxLiveGateWay, 4), (.xboxLiveSubNetMask, 4), (.otherSettings, 4),
    (.dvdPlaybackKitZone, 4), (.unknown6, 64)]

def Field.offset (f : Field) : Nat := ((eepromData.takeWhile (·.1 ≠ f)).map (·.2)).sum

/-- The registers of the devices on the bus, the image `eeprom`, and how many
transfers were tried. -/
structure State where
  device : UInt8 → Nat → UInt8
  eeprom : Nat → UInt8
  tries : Nat

/-- The bytes of a transfer. -/
def smbusBytes (size : UInt8) (data : UInt32) : List UInt8 :=
  if size = 4 then le32 data
  else if size = 2 then (le32 data).take 2
  else (le32 data).take 1

/-- `ok` tells which transfers the bus completes; the last argument is `nRetriesToLive`. -/
def writeToSMBus (ok : Nat → Bool) (address bRegister size : UInt8) (data : UInt32) :
    State → Nat → Bool × State
  | s, 0 => (false, s)
  | s, n + 1 =>
    if ok s.tries then
      (true, { s with
        device := Function.update s.device address
          (write (s.device address) bRegister.toNat (smbusBytes size data))
        tries := s.tries + 1 })
    else writeToSMBus ok address bRegister size data { s with tries := s.tries + 1 } n

/-- Calls of `WriteToSMBus` for the EEPROM, one after the other, with register,
size and data; nobody looks at the results. -/
def writeAll (ok : Nat → Bool) (s : State) (l : List (UInt8 × UInt8 × UInt32)) : State :=
  l.foldl (fun s w => (writeToSMBus ok 0x54 w.1 w.2.1 w.2.2 s 50).2) s

/-- The data circle shifted one byte right, with four zeros behind it. -/
def shiftedData (data : List UInt8) : List UInt8 :=
  data.drop (data.length - 1) ++ data.take (data.length - 1) ++ List.replicate 4 0

/-- The `unsigned short` at `l`. -/
def shortAt (d : List UInt8) (l : Nat) : UInt16 :=
  (d.getD l 0).toUInt16 + (d.getD (l + 1) 0).toUInt16 * 2 ^ 8

/-- `for (l=pos; l<dataLen; l+=4)` -/
def crcPosVal (d : List UInt8) (dataLen pos : Nat) : UInt16 :=
  (List.range' pos ((dataLen + 3 - pos) / 4) 4).foldl (fun v l => v - shortAt d l) 0xFFFF

def eepromCRC (data : List UInt8) : List UInt8 :=
  (List.range 4).map fun pos =>
    ((crcPosVal (shiftedData data) data.length pos &&& 0xFF00) >>> 8).toUInt8

def eepromSetWidescreen (ok : Nat → Bool) (enable : Int) (s : State) : State :=
  let flag : UInt8 := if enable ≠ 0 then 1 else 0
  let s := writeAll ok s [(0x96, 0, flag.toUInt32)]
  let s := { s with eeprom := Function.update s.eeprom (Field.videoFlags.offset + 2) flag }
  let sum := eepromCRC (read s.eeprom Field.timeZoneBias.offset 0x5b)
  writeAll ok s [(0x60, 1, (sum.getD 0 0).toUInt32), (0x61, 1, (sum.getD 1 0).toUInt32),
    (0x62, 1, (sum.getD 2 0).toUInt32), (0x63, 1, (sum.getD 3 0).toUInt32)]

def eepromSetVideoStandard (ok : Nat → Bool) (standard : UInt32) (s : State) : State :=
  let s := writeAll ok s ((List.range 4).map fun i =>
    (UInt8.ofNat (0x58 + i), 1, (standard >>> UInt32.ofNat (8 * i)).toUInt8.toUInt32))
  let s := { s with eeprom := write s.eeprom Field.videoStandard.offset (le32 standard) }
  let sum := eepromCRC (read s.eeprom Field.serialNumber.offset 0x28)
  writeAll ok s [(0x30, 0, (sum.getD 0 0).toUInt32), (0x31, 0, (sum.getD 1 0).toUInt32),
    (0x32, 0, (sum.getD 2 0).toUInt32), (0x33, 0, (sum.getD 3 0).toUInt32)]

/-- A call of one of the two. -/
inductive Setting where
  | widescreen (enable : Int)
  | videoStandard (standard : UInt32)

/-- Both checksums of the device are those of their sections. -/
def ChecksumsValid (device : Nat → UInt8) : Prop :=
  read device 0x30 4 = eepromCRC (read device 0x34 0x28) ∧
    read device 0x60 4 = eepromCRC (read device 0x64 0x5b)

/-- Any calls, from right checksums and an image equal to the device. -/
def settings (ok : Nat → Bool) : Machine State Setting where
  init s := ChecksumsValid (s.device 0x54) ∧ ∀ i, i < 0x100 → s.eeprom i = s.device 0x54 i
  next s a :=
    match a with
    | .widescreen enable => some (eepromSetWidescreen ok enable s)
    | .videoStandard standard => some (eepromSetVideoStandard ok standard s)

/-! ## The bus -/

/-- No call of `WriteToSMBus` runs out of tries. -/
def Succeeds (ok : Nat → Bool) : Prop := ∀ k, ∃ j, j < 50 ∧ ok (k + j) = true

section
variable {ok : Nat → Bool}

theorem writeToSMBus_ok {address bRegister size : UInt8} {data : UInt32} : ∀ {n : Nat} {s : State},
    (∃ j, j < n ∧ ok (s.tries + j) = true) →
    ∃ k, writeToSMBus ok address bRegister size data s n = (true, { s with
      device := Function.update s.device address
        (write (s.device address) bRegister.toNat (smbusBytes size data))
      tries := k }) := by
  intro n
  induction n with
  | zero =>
    rintro s ⟨j, hj, -⟩
    omega
  | succ n ih =>
    rintro s ⟨j, hj, hok⟩
    unfold writeToSMBus
    split
    · exact ⟨_, rfl⟩
    · rename_i hno
      have hj0 : j ≠ 0 := by
        rintro rfl
        exact hno hok
      refine ih ⟨j - 1, by omega, ?_⟩
      show ok (s.tries + 1 + (j - 1)) = true
      rw [show s.tries + 1 + (j - 1) = s.tries + j by omega]
      exact hok

/-- Transfers of single bytes end up in their registers. -/
theorem writeAll_ok (hok : Succeeds ok) (l : List (UInt8 × UInt8 × UInt32))
    (hsize : ∀ w ∈ l, w.2.1 = 0 ∨ w.2.1 = 1) (s : State) :
    (writeAll ok s l).device 0x54 =
        l.foldl (fun m w => Function.update m w.1.toNat w.2.2.toUInt8) (s.device 0x54) ∧
      (writeAll ok s l).eeprom = s.eeprom := by
  induction l generalizing s with
  | nil => exact ⟨rfl, rfl⟩
  | cons w l ih =>
    obtain ⟨k, hk⟩ : ∃ k, writeToSMBus ok 0x54 w.1 w.2.1 w.2.2 s 50 = _ :=
      writeToSMBus_ok (hok s.tries)
    have hbytes : smbusBytes w.2.1 w.2.2 = [w.2.2.toUInt8] := by
      rcases hsize w List.mem_cons_self with h | h <;> rw [h] <;> rfl
    have hstep : writeAll ok s (w :: l) = writeAll ok (writeToSMBus ok 0x54 w.1 w.2.1 w.2.2 s 50).2 l :=
      rfl
    obtain ⟨hdevice, heeprom⟩ := ih (fun w' hw' => hsize w' (List.mem_cons_of_mem w hw'))
      (writeToSMBus ok 0x54 w.1 w.2.1 w.2.2 s 50).2
    rw [hstep, hdevice, heeprom, hk]
    refine ⟨?_, rfl⟩
    rw [List.foldl_cons]
    simp only [Function.update_self, hbytes, write_cons, write_nil]

end

/-! ## Sections and their checksums -/

@[simp] theorem length_eepromCRC (data : List UInt8) : (eepromCRC data).length = 4 := by
  simp [eepromCRC]

/-- The four bytes of a checksum, stored one by one. -/
theorem write_sum (m : Nat → UInt8) (a : Nat) (data : List UInt8) :
    Function.update (Function.update (Function.update (Function.update m
        a ((eepromCRC data).getD 0 0)) (a + 1) ((eepromCRC data).getD 1 0))
        (a + 2) ((eepromCRC data).getD 2 0)) (a + 3) ((eepromCRC data).getD 3 0) =
      write m a (eepromCRC data) := by
  have hsum : eepromCRC data = [(eepromCRC data).getD 0 0, (eepromCRC data).getD 1 0,
      (eepromCRC data).getD 2 0, (eepromCRC data).getD 3 0] := rfl
  conv_rhs => rw [hsum, write_cons, write_cons, write_cons, write_cons, write_nil]

section
variable {ok : Nat → Bool} (hok : Succeeds ok) (s : State)

include hok

theorem widescreen_device (enable : Int) :
    (eepromSetWidescreen ok enable s).eeprom = write s.eeprom 0x96 [if enable ≠ 0 then 1 else 0] ∧
      (eepromSetWidescreen ok enable s).device 0x54 =
        write (write (s.device 0x54) 0x96 [if enable ≠ 0 then 1 else 0]) 0x60
          (eepromCRC (read (write s.eeprom 0x96 [if enable ≠ 0 then 1 else 0]) 0x64 0x5b)) := by
  simp only [write_cons, write_nil]
  unfold eepromSetWidescreen
  simp only
  generalize (if enable ≠ 0 then 1 else 0 : UInt8) = flag
  obtain ⟨hdevice, heeprom⟩ := writeAll_ok hok [(0x96, 0, flag.toUInt32)] (by simp) s
  rw [(writeAll_ok hok _ (by simp) _).1, (writeAll_ok hok _ (by simp) _).2, heeprom]
  refine ⟨rfl, ?_⟩
  simp only [List.foldl_cons, List.foldl_nil, hdevice, UInt8.toUInt8_toUInt32]
  exact write_sum _ 0x60 _

theorem videoStandard_device (standard : UInt32) :
    (eepromSetVideoStandard ok standard s).eeprom = write s.eeprom 0x58 (le32 standard) ∧
      (eepromSetVideoStandard ok standard s).device 0x54 =
        write (write (s.device 0x54) 0x58 (le32 standard)) 0x30
          (eepromCRC (read (write s.eeprom 0x58 (le32 standard)) 0x34 0x28)) := by
  unfold eepromSetVideoStandard
  simp only
  obtain ⟨hdevice, heeprom⟩ := writeAll_ok hok ((List.range 4).map fun i =>
    (UInt8.ofNat (0x58 + i), 1, (standard >>> UInt32.ofNat (8 * i)).toUInt8.toUInt32)) (by simp) s
  rw [(writeAll_ok hok _ (by simp) _).1, (writeAll_ok hok _ (by simp) _).2, heeprom]
  refine ⟨rfl, ?_⟩
  have hbytes : write (s.device 0x54) 0x58 (le32 standard) =
      ((List.range 4).map fun i => (UInt8.ofNat (0x58 + i), (1 : UInt8),
        (standard >>> UInt32.ofNat (8 * i)).toUInt8.toUInt32)).foldl
          (fun m w => Function.update m w.1.toNat w.2.2.toUInt8) (s.device 0x54) := by
    rw [le32, write_cons, write_cons, write_cons, write_cons, write_nil]
    have h0 : standard >>> UInt32.ofNat (8 * 0) = standard := UInt32.shiftRight_zero
    simp only [List.range_succ, List.range_zero, List.nil_append, List.cons_append, List.map_cons,
      List.map_nil, List.foldl_cons, List.foldl_nil, UInt8.toUInt8_toUInt32, h0]
    rfl
  simp only [List.foldl_cons, List.foldl_nil, hdevice, UInt8.toUInt8_toUInt32]
  rw [hbytes]
  exact write_sum _ 0x30 _

end

/-- After a change and a new checksum in front of the section, both computed
from an image that agrees with the device there, they still agree and the
checksum is that of the section. -/
theorem resealed {m image : Nat → UInt8} {c a n : Nat} (hc : c + 4 ≤ a)
    (h : read image a n = read m a n) (e : Nat) (l : List UInt8) :
    let m' := write (write m e l) c (eepromCRC (read (write image e l) a n))
    read (write image e l) a n = read m' a n ∧ read m' c 4 = eepromCRC (read m' a n) := by
  have hsum := length_eepromCRC (read (write image e l) a n)
  have hsame : read (write image e l) a n =
      read (write (write m e l) c (eepromCRC (read (write image e l) a n))) a n := by
    refine (read_write_congr h e l).trans (read_write_of_outside _ _ _ _ _ (Or.inr ?_)).symm
    rw [hsum]
    exact hc
  refine ⟨hsame, ?_⟩
  rw [← hsame, read_write_of_length hsum]

/-- A block away from the change and the checksum. -/
theorem untouched {m : Nat → UInt8} {c e b k : Nat} {l data : List UInt8}
    (hl : b + k ≤ e ∨ e + l.length ≤ b) (hc : b + k ≤ c ∨ c + 4 ≤ b) :
    read (write (write m e l) c (eepromCRC data)) b k = read m b k := by
  rw [read_write_of_outside _ _ _ _ _ (by rw [length_eepromCRC]; exact hc),
    read_write_of_outside _ _ _ _ _ hl]

/-! ## Runs -/

/-- The image has the bytes of both sections. -/
def Mirrored (s : State) : Prop :=
  read s.eeprom 0x34 0x28 = read (s.device 0x54) 0x34 0x28 ∧
    read s.eeprom 0x64 0x5b = read (s.device 0x54) 0x64 0x5b

theorem mirrored_next {ok : Nat → Bool} (hok : Succeeds ok) {s t : State} {a : Setting}
    (h : Mirrored s ∧ ChecksumsValid (s.device 0x54)) (ht : (settings ok).next s a = some t) :
    Mirrored t ∧ ChecksumsValid (t.device 0x54) := by
  obtain ⟨⟨hm2, hm3⟩, hc2, hc3⟩ := h
  unfold Mirrored ChecksumsValid
  cases a with
  | widescreen enable =>
    cases ht
    obtain ⟨heeprom, hdevice⟩ := widescreen_device hok s enable
    rw [heeprom, hdevice]
    generalize (if enable ≠ 0 then 1 else 0 : UInt8) = flag
    obtain ⟨hmirror, hsum⟩ := resealed (c := 0x60) (by decide) hm3 0x96 [flag]
    refine ⟨⟨?_, hmirror⟩, ?_, hsum⟩
    · rw [untouched (by simp) (by decide), read_write_of_outside _ _ _ _ _ (by simp)]
      exact hm2
    · rw [untouched (by simp) (by decide), untouched (by simp) (by decide)]
      exact hc2
  | videoStandard standard =>
    cases ht
    obtain ⟨heeprom, hdevice⟩ := videoStandard_device hok s standard
    rw [heeprom, hdevice]
    obtain ⟨hmirror, hsum⟩ := resealed (c := 0x30) (by decide) hm2 0x58 (le32 standard)
    refine ⟨⟨hmirror, ?_⟩, hsum, ?_⟩
    · rw [untouched (by simp [le32]) (by decide), read_write_of_outside _ _ _ _ _ (by simp [le32])]
      exact hm3
    · rw [untouched (by simp [le32]) (by decide), untouched (by simp [le32]) (by decide)]
      exact hc3

/-! ## Top theorem -/

/-- **The checksums of the EEPROM.**  From right checksums and an image equal to
the device, and with every SMBus write completing within its tries, both
checksums of the device are right after any calls of the two functions. -/
theorem checksums_reachable (ok : Nat → Bool) (hok : Succeeds ok) (s : State)
    (hs : (settings ok).Reachable s) : ChecksumsValid (s.device 0x54) := by
  have hinit : ∀ s, (settings ok).init s → Mirrored s ∧ ChecksumsValid (s.device 0x54) := by
    rintro s ⟨hvalid, heq⟩
    refine ⟨⟨?_, ?_⟩, hvalid⟩
    · exact (read_eq_iff _ _ _ _ _).2 fun i hi => heq _ (by omega)
    · exact (read_eq_iff _ _ _ _ _).2 fun i hi => heq _ (by omega)
  exact (Machine.invariant hinit (fun _ _ _ h ht => mirrored_next hok h ht) s hs).2

/-- An EEPROM of zeros with their checksums, and its image. -/
def blankEeprom : State where
  device _ := fill (fill (fun _ => 0) 0x30 0xff 4) 0x60 0xff 4
  eeprom := fill (fill (fun _ => 0) 0x30 0xff 4) 0x60 0xff 4
  tries := 0

theorem checksums_reachable_blank : ∃ s,
    (settings fun k => k % 2 = 1).run blankEeprom [.widescreen 1, .videoStandard 0x00800300] =
        some s ∧ ChecksumsValid (s.device 0x54) := by
  have hok : Succeeds fun k => decide (k % 2 = 1) := by
    intro k
    rcases Nat.mod_two_eq_zero_or_one k with h | h
    · exact ⟨1, by decide, decide_eq_true (by omega)⟩
    · exact ⟨0, by decide, decide_eq_true h⟩
  have hinit : (settings fun k => k % 2 = 1).init blankEeprom :=
    ⟨⟨by decide +kernel, by decide +kernel⟩, fun _ _ => rfl⟩
  obtain ⟨s, hrun⟩ : ∃ s, (settings fun k => k % 2 = 1).run blankEeprom
      [.widescreen 1, .videoStandard 0x00800300] = some s := ⟨_, rfl⟩
  exact ⟨s, hrun, checksums_reachable _ hok s ((Machine.Reachable.of_init hinit).run hrun)⟩

end Gentoox.Eeprom
