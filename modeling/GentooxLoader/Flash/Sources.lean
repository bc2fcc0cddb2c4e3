import GentooxLoader.Base.Machine
import GentooxLoader.MemoryLayout
import GentooxLoader.Fatx.Directory
import GentooxLoader.Flash.Reflash
import GentooxLoader.Iso.Iso9660
import GentooxLoader.Net.NetFlash
import GentooxLoader.Net.WebBoot

/-!
# The four sources of a BIOS image

An image comes from a disc (`bootLoadFlashCD`), from the hard drive
(`hddFlashMenuInit`, `flashBiosFromHDD`) or over the network, from a browser or
a server.  Each source tests the size in its own way, on a length of its own.
The machine `console` runs all four from the menu and keeps the calls of
`BootReflashAndReset`.

    flashed_legal_iff   all calls of a run have a legal size ↔ each disc and
                        each file flashed has one
    disc_of_256_bytes   `imageSize%256` lets a disc with 256 bytes through
-/

namespace Gentoox.Flash

open Cells Lib Fatx Net

/-! ## Algorithm -/

/-- What the hardware and the library around the program do. -/
structure World where
  hdd : Fatx.Env
  disc : Iso.Env
  malloc : Nat → UInt32 → Option (Int → UInt8)
  /-- The lengths of netflash's `http_files`. -/
  files : Nat → Int

def sectorSystem : UInt32 := 0x00465400
def systemSize : UInt64 := 0x1f400000

def imagePath : List UInt8 := chars ['/', 'i', 'm', 'a', 'g', 'e', '.', 'b', 'i', 'n']
def biosDir : List UInt8 := chars ['B', 'I', 'O', 'S']
def biosPath : List UInt8 := chars ['\\', 'B', 'I', 'O', 'S', '\\']

section
variable (w : World) (fuel : Nat)

/-- Up to `n` tries to find the image. -/
def tryImage : Nat → (Nat → UInt8) → Nat → Option (Bool × (Nat → UInt8) × Nat)
  | 0, ram, reads => some (false, ram, reads)
  | n + 1, ram, reads =>
    match Iso.bootIso9660GetFile w.disc fuel imagePath kernelPmCode.toNat 0x10 ram reads with
    | none => none
    | some (imageSize, ram, reads) =>
      if imageSize > 0 then some (true, ram, reads) else tryImage n ram reads

/-- The part of `BootLoadFlashCD` before the image is read in full. -/
def findImage (ram : Nat → UInt8) (reads : Nat) : Option (Bool × (Nat → UInt8) × Nat) :=
  match tryImage w fuel 16 (fill ram kernelSetup.toNat 0 4096) reads with
  | none => none
  | some (true, ram, reads) => some (true, ram, reads)
  -- the tray is opened and closed again
  | some (false, ram, reads) => tryImage w fuel 48 ram reads

def bootLoadFlashCD (ram : Nat → UInt8) (reads : Nat) :
    Option (Option Reflash × (Nat → UInt8) × Nat) :=
  match findImage w fuel ram reads with
  | none => none
  | some (false, ram, reads) => some (none, ram, reads)
  | some (true, ram, reads) =>
    match Iso.bootIso9660GetFile w.disc fuel imagePath kernelPmCode.toNat (4 * 256 * 1024) ram
        reads with
    | none => none
    | some (imageSize, ram, reads) =>
      if imageSize < 0 then some (none, ram, reads)
      else if imageSize > 0 ∧ imageSize ≤ 4 * 256 * 1024 ∧ imageSize % 256 = 0 then
        some (some ⟨read ram kernelPmCode.toNat imageSize.toNat, 0, UInt32.ofInt imageSize⟩, ram, reads)
      else some (none, ram, reads)

/-- The loop over the names; those of a good size become items. -/
def biosItems (p : FATXPartition) : List (List UInt8) → FATXFILEINFO → Nat →
    Option (List (List UInt8) × Nat)
  | [], _, reads => some ([], reads)
  | fname :: fnames, fileinfo, reads =>
    match fatxFindFile w.hdd p fuel fname fatxRootFatCluster fileinfo reads with
    | none => none
    | some (res, fileinfo, reads) =>
      match biosItems p fnames fileinfo reads with
      | none => none
      | some (items, reads) =>
        if res && fileinfo.fileSize % (256 * 1024) == 0 then some (fname :: items, reads)
        else some (items, reads)

/-- The items that flash a file; `eax` is what a call of `FATXFindDir` without
a return value leaves. -/
def hddFlashMenuInit (eax : Int) (fileinfo : FATXFILEINFO) (reads : Nat) :
    Option (List (List UInt8) × Nat) :=
  match openFATXPartition w.hdd w.malloc 0 sectorSystem systemSize reads with
  | none => none
  | some (none, reads) => some ([], reads)
  | some (some p, reads) =>
    match fatxFindDir w.hdd p fuel fatxRootFatCluster biosDir reads with
    | none => none
    | some (ret, reads) =>
      let dcluster := ret.getD eax
      if dcluster ≠ -1 ∧ dcluster ≠ 1 then
        match fatxListDir w.hdd p fuel dcluster 256 biosPath reads with
        | none => none
        | some (fnames, reads) => biosItems w fuel p fnames fileinfo reads
      else some ([], reads)

def flashBiosFromHDD (fname : List UInt8) (fileinfo : FATXFILEINFO) (ram : Nat → UInt8)
    (reads : Nat) : Option (Option Reflash × Nat) :=
  match openFATXPartition w.hdd w.malloc 0 sectorSystem systemSize reads with
  | none => none
  | some (partition, reads) =>
    match loadFATXFilefixed w.hdd partition fuel fname fileinfo (fun i => ram (0x100000 + i)) reads with
    | none => none
    | some (res, fileinfo, reads) =>
      if res then
        some (some ⟨read fileinfo.buffer 0 fileinfo.fileSize.toNat, 0, fileinfo.fileSize⟩, reads)
      else some (none, reads)

end

/-! ## The machine -/

inductive Mode where
  | menu
  | netflash (s : NetFlash)
  | webupdate (s : WebUpdate)
  /-- An endless loop, or a restart. -/
  | off

structure Console where
  mode : Mode
  items : List (List UInt8)
  reads : Nat
  discReads : Nat
  ram : Nat → UInt8
  flashed : List Reflash

inductive Event where
  | hddFlashMenuInit (fuel : Nat) (eax : Int) (fileinfo : FATXFILEINFO)
  | flashBiosFromHDD (item fuel : Nat) (fileinfo : FATXFILEINFO)
  /-- `back` if the chip is left alone or reads otherwise afterwards. -/
  | flashBiosFromCD (fuel : Nat) (back : Bool)
  | enableNetflash
  | netflash (e : NetFlash.Event)
  | enableWebupdate
  | webupdate (p : Option Chain)

def Console.flash (n : Console) (f : Reflash) : Console := { n with flashed := n.flashed ++ [f] }

def startUpdate (ram : Nat → UInt8) : WebUpdate :=
  webupdateInit
    { recv :=
        { head := false, eoh := false, c := ⟨0, 0, 0, 0⟩, header := fun _ => 0, hLen := 0
          buf := fun i => ram (initrdStart.toNat + i), fileLen := 0, progCheck := 0 }
      contLen := 0
      fraction := 0 }

def consoleNext (w : World) (n : Console) (e : Event) : Option Console :=
  match n.mode, e with
  | .menu, .hddFlashMenuInit fuel eax fileinfo =>
    (hddFlashMenuInit w fuel eax fileinfo n.reads).map fun r =>
      { n with items := r.1, reads := r.2 }
  | .menu, .flashBiosFromHDD item fuel fileinfo =>
    (n.items[item]?).bind fun fname =>
      (flashBiosFromHDD w fuel fname fileinfo n.ram n.reads).map fun r =>
        { n with mode := .off, reads := r.2, flashed := n.flashed ++ r.1.toList }
  | .menu, .flashBiosFromCD fuel back =>
    (bootLoadFlashCD w fuel n.ram n.discReads).map fun r =>
      { n with
        mode := if r.1.isSome && !back then .off else .menu
        ram := r.2.1
        discReads := r.2.2
        flashed := n.flashed ++ r.1.toList }
  | .menu, .enableNetflash => some { n with mode := .netflash ⟨n.ram, fun _ => none⟩ }
  | .netflash s, .netflash e =>
    (s.next w.files e).map fun r =>
      match r with
      | .ok s => { n with mode := .netflash s }
      | .error f => { n.flash f with mode := .off }
  | .menu, .enableWebupdate => some { n with mode := .webupdate (startUpdate n.ram) }
  | .webupdate s, .webupdate p =>
    match recvBIOS s p with
    | .ok s => some { n with mode := .webupdate s }
    | .error (.reflash f) => some { n.flash f with mode := .off }
    | .error _ => some { n with mode := .off }
  | _, _ => none

def console (w : World) : Machine Console Event where
  init n := ∃ ram, n = ⟨.menu, [], 0, 0, ram, []⟩
  next := consoleNext w

/-! ## The hard drive -/

/-- If the file is found and its chain holds it, its size is legal. -/
def FileFine (w : World) (fuel : Nat) (fname : List UInt8) (fileinfo : FATXFILEINFO) (reads : Nat) :
    Prop :=
  ∀ p reads', openFATXPartition w.hdd w.malloc 0 sectorSystem systemSize reads = some (some p, reads') →
    ∀ found reads'', fatxFindFile w.hdd p fuel fname fatxRootFatCluster fileinfo reads' =
      some (true, found, reads'') →
    ∀ cs, Clusters p found.clusterId cs → found.fileSize.toNat ≤ cs.length * 0x4000 →
    Legal found.fileSize

theorem flashBiosFromHDD_iff {w : World} {fuel : Nat} {fname : List UInt8} {fileinfo : FATXFILEINFO}
    {ram : Nat → UInt8} {reads : Nat} {r : Option Reflash × Nat}
    (h : flashBiosFromHDD w fuel fname fileinfo ram reads = some r) :
    (∀ f ∈ r.1, Legal f.dwLength) ↔ FileFine w fuel fname fileinfo reads := by
  unfold flashBiosFromHDD at h
  unfold FileFine
  cases hopen : openFATXPartition w.hdd w.malloc 0 sectorSystem systemSize reads with
  | none => simp [hopen] at h
  | some opened =>
    obtain ⟨partition, reads'⟩ := opened
    simp only [hopen] at h
    cases partition with
    | none =>
      obtain rfl : (none, reads') = r := Option.some.inj h
      simp
    | some p =>
      have hp : Opened p := ⟨_, _, _, _, _, _, _, hopen⟩
      constructor
      · intro hlegal p' reads'' hp' found reads3 hfind cs hcs hsize
        cases hp'
        split at h
        · cases h
        rename_i res fi reads4 hload
        obtain ⟨ds, hds, hret, hfi⟩ := loadFATX_of_found hp hfind hload
        rw [hcs.unique hds] at hsize
        obtain rfl : res = true := hret.2 hsize
        cases h
        rw [← hfi]
        exact hlegal _ rfl
      · intro hfine f hf
        split at h
        · cases h
        rename_i res fi reads4 hload
        cases res with
        | false =>
          cases h
          cases hf
        | true =>
          cases h
          obtain rfl := Option.some.inj hf
          obtain ⟨p', found, reads3, hp', hfind, -⟩ := loadFATX_eq_true hload
          cases hp'
          obtain ⟨cs, hcs, hret, hfi⟩ := loadFATX_of_found hp hfind hload
          rw [hfi]
          exact hfine p reads' rfl found reads3 hfind cs hcs (hret.1 rfl)

/-! ## The disc -/

/-- A length that the test of `BootLoadFlashCD` refuses, or a legal one. -/
def SizeFine (n : UInt32) : Prop := 0 < n → n ≤ 0x100000 → n % 256 = 0 → n % 0x40000 = 0

/-- The length of `image.bin` as it is read in full: its size, or for 1 MiB and
more the dword at the address 1 MiB, which the search has loaded. -/
def DiscFine (w : World) (fuel : Nat) (ram : Nat → UInt8) (reads : Nat) : Prop :=
  ∀ ram' reads', findImage w fuel ram reads = some (true, ram', reads') →
    ∀ dir reads'', Iso.lookUp w.disc fuel imagePath reads' = some (some dir, reads'') →
    SizeFine (Iso.bytesRead dir.size (4 * 256 * 1024) ram')

/-- The test, for a length seen as an `int`. -/
theorem tested_iff (n : UInt32) :
    ¬ signed n < 0 ∧ (signed n > 0 ∧ signed n ≤ 4 * 256 * 1024 ∧ signed n % 256 = 0) ↔
      0 < n ∧ n ≤ 0x100000 ∧ n % 256 = 0 := by
  have hmod : (n % 256).toNat = n.toNat % 256 := UInt32.toNat_mod ..
  have h0 : n % 256 = 0 ↔ n.toNat % 256 = 0 := by
    rw [← UInt32.toNat_inj, hmod]
    rfl
  have h1 : 0 < n ↔ 0 < n.toNat := Iff.rfl
  have h2 : n ≤ 0x100000 ↔ n.toNat ≤ 0x100000 := Iff.rfl
  rw [h0, h1, h2]
  have := n.toNat_lt
  unfold signed
  split <;> omega

/-- What comes of a length. -/
theorem tested_cases {n : UInt32} {image : List UInt8} {ram : Nat → UInt8} {reads : Nat}
    {r : Option Reflash × (Nat → UInt8) × Nat}
    (h : (if signed n < 0 then some (none, ram, reads)
      else if signed n > 0 ∧ signed n ≤ 4 * 256 * 1024 ∧ signed n % 256 = 0 then
        some (some ⟨image, 0, UInt32.ofInt (signed n)⟩, ram, reads)
      else some (none, ram, reads)) = some r) :
    (∀ f ∈ r.1, Legal f.dwLength) ↔ SizeFine n := by
  have htest := tested_iff n
  split_ifs at h with hneg hsize
  · cases h
    have : ¬ (0 < n ∧ n ≤ 0x100000 ∧ n % 256 = 0) := fun hc => (htest.2 hc).1 hneg
    simp only [Option.not_mem_none, false_imp_iff, implies_true, true_iff]
    exact fun h1 h2 h3 => absurd ⟨h1, h2, h3⟩ this
  · cases h
    obtain ⟨h1, h2, h3⟩ := htest.1 ⟨hneg, hsize⟩
    simp only [Option.mem_def, Option.some.injEq, forall_eq', ofInt_signed]
    exact ⟨fun h _ _ _ => h.2.1, fun h => ⟨h1, h h1 h2 h3, h2⟩⟩
  · cases h
    have : ¬ (0 < n ∧ n ≤ 0x100000 ∧ n % 256 = 0) := fun hc => hsize (htest.2 hc).2
    simp only [Option.not_mem_none, false_imp_iff, implies_true, true_iff]
    exact fun h1 h2 h3 => absurd ⟨h1, h2, h3⟩ this

theorem bootLoadFlashCD_iff {w : World} {fuel : Nat} {ram : Nat → UInt8} {reads : Nat}
    {r : Option Reflash × (Nat → UInt8) × Nat} (h : bootLoadFlashCD w fuel ram reads = some r) :
    (∀ f ∈ r.1, Legal f.dwLength) ↔ DiscFine w fuel ram reads := by
  unfold bootLoadFlashCD at h
  split at h
  · cases h
  · rename_i ram' reads' hfind
    cases h
    simp [DiscFine, hfind]
  · rename_i ram' reads' hfind
    have hfine : DiscFine w fuel ram reads ↔ ∀ dir reads'',
        Iso.lookUp w.disc fuel imagePath reads' = some (some dir, reads'') →
          SizeFine (Iso.bytesRead dir.size (4 * 256 * 1024) ram') := by
      unfold DiscFine
      rw [hfind]
      exact ⟨fun h => h ram' reads' rfl, fun h _ _ heq => by cases heq; exact h⟩
    rw [hfine]
    split at h
    · cases h
    rename_i imageSize ram3 reads3 hget
    obtain ⟨reads4, ⟨hlook, hsize⟩ | ⟨dir, hlook, hsize, -⟩⟩ := Iso.bootIso9660GetFile_cases hget
    · simp only at hsize
      rw [if_pos (by omega)] at h
      cases h
      simp [hlook]
    · simp only at hsize
      rw [Iso.readFile_bytes] at hsize
      have hone : (∀ dir' reads'', Iso.lookUp w.disc fuel imagePath reads' = some (some dir', reads'') →
          SizeFine (Iso.bytesRead dir'.size (4 * 256 * 1024) ram')) ↔
          SizeFine (Iso.bytesRead dir.size (4 * 256 * 1024) ram') := by
        rw [hlook]
        exact ⟨fun h => h dir reads4 rfl, fun h _ _ heq => by cases heq; exact h⟩
      rw [hone]
      generalize Iso.bytesRead dir.size (4 * 256 * 1024) ram' = n at hsize
      subst hsize
      exact tested_cases h

/-! ## Top theorem -/

/-- Which steps flash legal sizes only. -/
def Fine (w : World) (n : Console) : Event → Prop
  | .flashBiosFromHDD item fuel fileinfo =>
    ∀ fname, n.items[item]? = some fname → FileFine w fuel fname fileinfo n.reads
  | .flashBiosFromCD fuel _ => DiscFine w fuel n.ram n.discReads
  | _ => True

/-- What netflash has in hand is legal. -/
def ConsoleInv (n : Console) : Prop := ∀ s, n.mode = .netflash s → NetFlash.LegalConns s

def AllLegal (n : Console) : Prop := ∀ f ∈ n.flashed, Legal f.dwLength

/-- The step to `n'` flashes one image at most, a legal one exactly if it is fine. -/
def FlashesFine (w : World) (n : Console) (e : Event) (n' : Console) : Prop :=
  ∃ r : Option Reflash, n'.flashed = n.flashed ++ r.toList ∧
    ((∀ f ∈ r, Legal f.dwLength) ↔ Fine w n e)

theorem forall_mem_append_iff {l : List Reflash} {r : Option Reflash} :
    (∀ f ∈ l ++ r.toList, Legal f.dwLength) ↔
      (∀ f ∈ l, Legal f.dwLength) ∧ ∀ f ∈ r, Legal f.dwLength := by
  simp only [List.mem_append, Option.mem_toList, Option.mem_def, or_imp, forall_and]

section
variable {w : World} {n n' : Console} {e : Event}

/-- A step ends without netflash, or in a legal state of it. -/
theorem consoleInv_of_mode (h : ∀ s, n.mode ≠ .netflash s) : ConsoleInv n :=
  fun s hs => absurd hs (h s)

/-- A step that flashes nothing. -/
theorem flashesFine_none (hflashed : n'.flashed = n.flashed) (hfine : Fine w n e) :
    FlashesFine w n e n' :=
  ⟨none, by simp [hflashed], by simp [hfine]⟩

/-- A step that flashes a legal image. -/
theorem flashesFine_some {f : Reflash} (hflashed : n'.flashed = n.flashed ++ [f])
    (hlegal : Legal f.dwLength) (hfine : Fine w n e) : FlashesFine w n e n' :=
  ⟨some f, hflashed, by simp [hlegal, hfine]⟩

theorem consoleNext_menu (hmode : n.mode = .menu) (hn : consoleNext w n e = some n') :
    ConsoleInv n' ∧ FlashesFine w n e n' := by
  cases e with
  | hddFlashMenuInit fuel eax fileinfo =>
    simp only [consoleNext, hmode] at hn
    obtain ⟨r, -, rfl⟩ := Option.map_eq_some_iff.1 hn
    exact ⟨consoleInv_of_mode (by simp), flashesFine_none rfl trivial⟩
  | flashBiosFromHDD item fuel fileinfo =>
    simp only [consoleNext, hmode] at hn
    obtain ⟨fname, hitem, hn⟩ := Option.bind_eq_some_iff.1 hn
    obtain ⟨r, hr, rfl⟩ := Option.map_eq_some_iff.1 hn
    refine ⟨consoleInv_of_mode (by simp), r.1, rfl, (flashBiosFromHDD_iff hr).trans ?_⟩
    constructor
    · intro h fname' hitem'
      rw [hitem] at hitem'
      cases hitem'
      exact h
    · exact fun h => h fname hitem
  | flashBiosFromCD fuel back =>
    simp only [consoleNext, hmode] at hn
    obtain ⟨r, hr, rfl⟩ := Option.map_eq_some_iff.1 hn
    refine ⟨consoleInv_of_mode fun s => ?_, r.1, rfl, bootLoadFlashCD_iff hr⟩
    simp only
    split <;> simp
  | enableNetflash =>
    simp only [consoleNext, hmode] at hn
    cases hn
    refine ⟨fun s hs => ?_, flashesFine_none rfl trivial⟩
    cases hs
    exact fun k hs hk => by cases hk
  | enableWebupdate =>
    simp only [consoleNext, hmode] at hn
    cases hn
    exact ⟨consoleInv_of_mode (by simp), flashesFine_none rfl trivial⟩
  | netflash e => simp [consoleNext, hmode] at hn
  | webupdate p => simp [consoleNext, hmode] at hn

theorem consoleNext_netflash {s : NetFlash} (hmode : n.mode = .netflash s) (hi : ConsoleInv n)
    (hn : consoleNext w n e = some n') : ConsoleInv n' ∧ FlashesFine w n e n' := by
  cases e with
  | netflash e =>
    simp only [consoleNext, hmode] at hn
    obtain ⟨r, hr, rfl⟩ := Option.map_eq_some_iff.1 hn
    have hlegal := NetFlash.next_legal (hi s hmode) hr
    cases r with
    | ok s' =>
      refine ⟨fun t ht => ?_, flashesFine_none rfl trivial⟩
      cases ht
      exact hlegal
    | error f => exact ⟨consoleInv_of_mode (by simp), flashesFine_some rfl hlegal trivial⟩
  | _ => simp [consoleNext, hmode] at hn

theorem consoleNext_webupdate {s : WebUpdate} (hmode : n.mode = .webupdate s)
    (hn : consoleNext w n e = some n') : ConsoleInv n' ∧ FlashesFine w n e n' := by
  cases e with
  | webupdate p =>
    simp only [consoleNext, hmode] at hn
    cases p with
    | some p =>
      cases hn
      exact ⟨consoleInv_of_mode (by simp), flashesFine_none rfl trivial⟩
    | none =>
      simp only [recvBIOS, flashBIOS] at hn
      split_ifs at hn with hsize
      · cases hn
        exact ⟨consoleInv_of_mode (by simp), flashesFine_none rfl trivial⟩
      · cases hn
        have hlegal : Legal (UInt32.ofNat s.recv.fileLen) := legal_of_exact (by omega)
        exact ⟨consoleInv_of_mode (by simp), flashesFine_some rfl hlegal trivial⟩
  | _ => simp [consoleNext, hmode] at hn

/-- What one step does, by the mode it is taken in. -/
theorem consoleNext_spec (hi : ConsoleInv n) (hn : consoleNext w n e = some n') :
    ConsoleInv n' ∧ FlashesFine w n e n' := by
  cases hmode : n.mode with
  | menu => exact consoleNext_menu hmode hn
  | netflash s => exact consoleNext_netflash hmode hi hn
  | webupdate s => exact consoleNext_webupdate hmode hn
  | off => cases e <;> simp [consoleNext, hmode] at hn

theorem consoleNext_legal (hi : ConsoleInv n) (hn : consoleNext w n e = some n') :
    AllLegal n' ↔ AllLegal n ∧ Fine w n e := by
  obtain ⟨-, r, hflashed, hfine⟩ := consoleNext_spec hi hn
  unfold AllLegal
  rw [hflashed, forall_mem_append_iff, hfine]

end

/-- **Four sources, one flash.**  All the calls of a run have a legal size
exactly when each disc and each file that was flashed has one; the two network
sources never call with another. -/
theorem flashed_legal_iff (w : World) {n n' : Console} {es : List Event} (h : (console w).init n)
    (hrun : (console w).run n es = some n') :
    (∀ f ∈ n'.flashed, Legal f.dwLength) ↔ (console w).Along (Fine w) n es := by
  obtain ⟨ram, rfl⟩ := h
  have hinv : ConsoleInv ⟨.menu, [], 0, 0, ram, []⟩ := fun s hs => by cases hs
  have hiff := Machine.run_iff_along (M := console w) (G := Fine w) (P := AllLegal)
    (fun _ _ _ hi hn => (consoleNext_spec hi hn).1) (fun _ _ _ hi hn => consoleNext_legal hi hn) hinv hrun
  have hstart : AllLegal ⟨.menu, [], 0, 0, ram, []⟩ := fun f hf => by cases hf
  exact hiff.trans (and_iff_right hstart)

/-- A disc with nothing but an `image.bin` of this size. -/
def imageDisc (size : List UInt8) : Iso.Env where
  readSector _ block :=
    if block = 16 then (0, List.replicate 158 0 ++ [18, 0, 0, 0, 0, 0, 0, 0, 0, 8, 0, 0])
    else if block = 18 then
      (0, [44, 0, 20, 0, 0, 0, 0, 0, 0, 0] ++ size ++ List.replicate 18 0 ++
        [9] ++ chars ['I', 'M', 'A', 'G', 'E', '.', 'B', 'I', 'N'])
    else (0, [])
  malloc _ _ := some fun _ => 0

/-- The hard drive is not read here. -/
def discWorld (size : List UInt8) : World where
  hdd := ⟨fun _ _ => ⟨List.replicate 512 0, List.length_replicate⟩, fun _ => true, fun _ _ => 0⟩
  disc := imageDisc size
  malloc _ _ := none
  files _ := 0

/-- A 1 at address 16, where the search takes the length of the image from. -/
def discConsole : Console := ⟨.menu, [], 0, 0, fun a => if a = 16 then 1 else 0, []⟩

theorem flashed_legal_iff_disc : ∃ n' : Console, n'.flashed.map (·.dwLength) = [0x40000] ∧
    ((∀ f ∈ n'.flashed, Legal f.dwLength) ↔
      (console (discWorld [0, 0, 4, 0])).Along (Fine (discWorld [0, 0, 4, 0])) discConsole
        [.flashBiosFromCD 3 false]) := by
  have hrun : (((console (discWorld [0, 0, 4, 0])).run discConsole [.flashBiosFromCD 3 false]).map
      fun n => n.flashed.map (·.dwLength)) = some [0x40000] := by
    decide +kernel
  obtain ⟨n', hn, hlen⟩ := Option.map_eq_some_iff.1 hrun
  exact ⟨n', hlen, flashed_legal_iff _ ⟨_, rfl⟩ hn⟩

/-- **256 bytes.**  The test of the disc asks for a multiple of 256 bytes where
the message speaks of 256K. -/
theorem disc_of_256_bytes : ∃ n', (console (discWorld [0, 1, 0, 0])).Reachable n' ∧
    ∃ f ∈ n'.flashed, f.dwLength = 256 ∧ ¬ Legal f.dwLength := by
  have hrun : (((console (discWorld [0, 1, 0, 0])).run discConsole [.flashBiosFromCD 3 false]).map
      fun n => n.flashed.map (·.dwLength)) = some [256] := by
    decide +kernel
  obtain ⟨n', hn, hlen⟩ := Option.map_eq_some_iff.1 hrun
  refine ⟨n', ⟨discConsole, _, ⟨_, rfl⟩, hn⟩, ?_⟩
  have hmem : (256 : UInt32) ∈ n'.flashed.map (·.dwLength) := by
    rw [hlen]
    exact List.mem_singleton.2 rfl
  obtain ⟨f, hf, heq⟩ := List.mem_map.1 hmem
  exact ⟨f, hf, heq, by rw [heq]; decide⟩

end Gentoox.Flash
