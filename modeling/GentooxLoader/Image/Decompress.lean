import GentooxLoader.Gzip.Gunzip
import GentooxLoader.Image.Retries

/-!
# The loader up to its jump (boot_rom/2bBootStartBios.c)

The ROM that was found is decompressed to where the cromwell runs, and the
cromwell is told what it was started from in 16 bytes of itself.

    placeCromwell_runs   what is there is the cromwell
    launch_started       a ROM that is a compressed file is run
    romcopy_runs         from the images that were built
-/

namespace Gentoox.Image

open Cells Lib Gzip

/-! ## Algorithm -/

/-- The output, and the config words in it. -/
def placeCromwell (ram : Nat → UInt8) (out : List UInt8) (s : Started) : Nat → UInt8 :=
  tellCromwell s (write ram cromwellMemoryPos out)

/-- The memory at the jump, unless the loader waits or halts. -/
def launch (junk : Heap → Junk) (fuel : Nat) (window : Nat → UInt8) (heap : Heap)
    (ram : Nat → UInt8) : Outcome → Option (Nat → UInt8)
  | .started s =>
    match decompressKernel s.bufferIN junk fuel window heap with
    | .ok g => some (placeCromwell ram g.output s)
    | .error _ => none
  | _ => none

/-! ## The cromwell -/

/-- The cromwell `out` is in the memory, started from this bank of an image of this type. -/
structure Runs (ram : Nat → UInt8) (out : List UInt8) (flashbank : Nat) (type : UInt32) : Prop where
  code : ∀ i x, out[i]? = some x → i < 0x20 ∨ 0x30 ≤ i → ram (cromwellMemoryPos + i) = x
  config : read ram (cromwellMemoryPos + 0x20) 16 =
    le32 1 ++ le32 1 ++ le32 (UInt32.ofNat flashbank) ++ le32 type

/-- **What is there is the cromwell.** -/
theorem placeCromwell_runs (ram : Nat → UInt8) (out rom : List UInt8) (flashbank : Nat)
    (type : UInt32) : Runs (placeCromwell ram out ⟨rom, 1, flashbank, type⟩) out flashbank type := by
  have hword : ∀ x : UInt32, (le32 x).length = 4 := fun x => rfl
  have hplaced : placeCromwell ram out ⟨rom, 1, flashbank, type⟩ =
      write (write ram cromwellMemoryPos out) (cromwellMemoryPos + 0x20)
        (le32 1 ++ le32 1 ++ le32 (UInt32.ofNat flashbank) ++ le32 type) := by
    rw [write_append, write_append, write_append]
    rfl
  rw [hplaced]
  constructor
  · intro i x hx hout
    obtain ⟨hi, rfl⟩ := List.getElem?_eq_some_iff.1 hx
    rw [write_of_outside, write_apply _ _ _ _ hi]
    simp only [List.length_append, hword]
    omega
  · exact read_write _ _ _

section
variable {junk : Heap → Junk} {fuel stop : Nat} {window : Nat → UInt8} {heap : Heap}
  {ram : Nat → UInt8} {rom out : List UInt8} {flashbank : Nat} {type : UInt32}

variable (junk window heap ram flashbank type) in
/-- A ROM that is a compressed file is run. -/
theorem launch_started (hlen : rom.length < 2 ^ 32) (h : Member rom out stop)
    (hchecked : Checked rom out stop) (hfuel : 8 * rom.length < fuel) :
    ∃ m, launch junk fuel window heap ram (.started ⟨rom, 1, flashbank, type⟩) = some m ∧
      Runs m out flashbank type := by
  obtain ⟨-, -, s, -, -, -, hout, hok, -⟩ := gunzip_eq junk hlen h (start_unread rom window heap)
    (start_win window heap) hfuel
  have hrun : decompressKernel rom junk fuel window heap = .ok s := hok hchecked
  refine ⟨placeCromwell ram s.output ⟨rom, 1, flashbank, type⟩, ?_, ?_⟩
  · unfold launch
    dsimp only
    rw [hrun]
  · rw [hout]
    exact placeCromwell_runs ram out rom flashbank type

/-! ## Top theorem -/

/-- **The cromwell that was built is the one that runs.**  If the ROM that `romcopy` puts into the
images is a compressed file of `out`, then the loader jumps to `out`, from either image, and from
that of 1 MiB with another bank 1 whose hash is wrong. -/
theorem romcopy_runs (d : Digests) {loader crom : Nat → UInt8} {romsize : UInt32} {n : Nat}
    (hfits : Fits loader romsize) (hn : (layout loader).sizeRamcopy.toNat ≤ n)
    (h : Member (read crom 0 romsize.toNat) out stop)
    (hchecked : Checked (read crom 0 romsize.toNat) out stop) (hfuel : 8 * romsize.toNat < fuel) :
    let pos := (layout loader).bootloaderpos.toNat
    let start := (layout loader).start.toNat
    let run := fun image size => launch junk fuel window heap ram (startup d image size pos n ram)
    let image1024 := (romcopy d loader crom romsize).2
    (∃ m, run (romcopy d loader crom romsize).1 bank = some m ∧ Runs m out 4 0) ∧
      (∃ m, run image1024 (4 * bank) = some m ∧ Runs m out 2 1) ∧
      ∀ image : Nat → UInt8, (∀ i, i < bank ∨ 2 * bank ≤ i → image i = image1024 i) →
        read image (bank + start) 20 ≠ (d.sha1 (read image (bank + start + 20) romsize.toNat)).toList →
        ∃ m, run image (4 * bank) = some m ∧ Runs m out 3 1 := by
  intro pos start run image1024
  have hlen : (read crom 0 romsize.toNat).length < 2 ^ 32 := by
    rw [length_read]
    exact romsize.toNat_lt
  have hfuel' : 8 * (read crom 0 romsize.toNat).length < fuel := by rwa [length_read]
  refine ⟨?_, ?_, fun image hsame hbad => ?_⟩
  · obtain ⟨m, hm, hruns⟩ := launch_started junk window heap ram 4 0 hlen h hchecked hfuel'
    refine ⟨m, ?_, hruns⟩
    rw [← hm, ← flash256_starts (d := d) hfits hn ram]
    rfl
  · obtain ⟨m, hm, hruns⟩ := launch_started junk window heap ram 2 1 hlen h hchecked hfuel'
    refine ⟨m, ?_, hruns⟩
    rw [← hm, ← flash1024_starts (d := d) hfits hn ram]
    rfl
  · obtain ⟨m, hm, hruns⟩ := launch_started junk window heap ram 3 1 hlen h hchecked hfuel'
    refine ⟨m, ?_, hruns⟩
    rw [← hm, ← fourBanks_starts_bank2 (d := d) hfits hsame hbad hn ram]

/-- A ROM of 23 bytes that is the file of eight letters `a`, from both images. -/
theorem romcopy_runs_sample :
    let crom := write (fun _ => 0) 0 (sample [0x46, 0x80, 0x84, 0xbf])
    let run := fun image size => launch zeroJunk 200 (fun _ => 0) zeroHeap (fun _ => 0)
      (startup digests image size (layout smallLoader).bootloaderpos.toNat 36 (fun _ => 0))
    (∃ m, run (romcopy digests smallLoader crom 23).1 bank = some m ∧
        Runs m (List.replicate 8 97) 4 0) ∧
      ∃ m, run (romcopy digests smallLoader crom 23).2 (4 * bank) = some m ∧
        Runs m (List.replicate 8 97) 2 1 := by
  intro crom run
  have hrom : read crom 0 (23 : UInt32).toNat = sample [0x46, 0x80, 0x84, 0xbf] := read_write _ _ _
  have hfits : Fits smallLoader 23 := by constructor <;> decide +kernel
  have h := @romcopy_runs zeroJunk 200 118 (fun _ => 0) zeroHeap (fun _ => 0) (List.replicate 8 97)
    digests smallLoader crom 23 36 hfits (by decide +kernel)
    (hrom ▸ sample_member _ List.mem_cons_self) (hrom ▸ sample_checked) (by decide)
  exact ⟨h.1, h.2.1⟩

end

end Gentoox.Image
