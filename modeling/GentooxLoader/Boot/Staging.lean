import GentooxLoader.Boot.LoadLinux
import GentooxLoader.Net.Connection
import GentooxLoader.Net.Session

/-!
# The staging area (INITRD_START to MAX_INITRD_END)

The heap begins where the area ends.  A file from the hard drive is loaded to
its start whatever its size, webboot stores the answer to a GET request there
until the server closes the connection, and netboot a body from 15 MiB on, from
where an initrd is copied to the start.

    staging_iff         nothing at or behind the end is written ↔ the file, the
                        answer, the body and the initrd have room
    heap_overwritten    a file of 33 MiB and a byte on the hard drive
-/

namespace Gentoox.Boot

open Cells Lib Fatx Net Streams

/-! ## Algorithm -/

section
variable (d : Drives) (fuel : Nat) (partition : FATXPartition) (filename : List UInt8)
  (ram : Nat → UInt8) (reads : Nat)

/-- The `fileinfo` that `loadFixed` starts with. -/
def clearedInfo : FATXFILEINFO := ⟨[], 0, 0, 0, fun i => ram (initrdStart.toNat + i)⟩

/-- The memory behind the `memset` of `LoadFATXFilefixed` and, if it comes back,
when it does. -/
def loadFixedStates : List (Nat → UInt8) :=
  match fatxFindFile d.hdd partition fuel filename fatxRootFatCluster (clearedInfo ram) reads with
  | some (true, found, _) =>
    fill ram initrdStart.toNat 0xff found.fileSize.toNat ::
      ((loadFixed d fuel partition filename ram reads).map fun r => r.2.2.1).toList
  | _ => []

end

/-- Whatever was in memory, what is at or behind `MAX_INITRD_END` stays. -/
def StaysBelow (states : (Nat → UInt8) → List (Nat → UInt8)) : Prop :=
  ∀ ram, ∀ m ∈ states ram, ∀ a, maxInitrdEnd.toNat ≤ a → m a = ram a

/-- The memory with what webboot has stored of an answer. -/
def answerStates (contLen fraction : Int) (s : Receive) (answer : List Chain) (ram : Nat → UInt8) :
    List (Nat → UInt8) :=
  [splice ram initrdStart.toNat (answer.foldl (Receive.data contLen fraction)
    { s with buf := fun i => ram (initrdStart.toNat + i) }).buf]

/-- The copy of an initrd in netboot's `close_conn`. -/
def initrdCopy (hs : HttpState) : Option Copy :=
  hs.dataStart.map fun start => ⟨initrdStart.toNat, start, (UInt32.ofInt hs.dataLen).toNat⟩

/-! ## The hard drive -/

section
variable {d : Drives} {fuel : Nat} {partition : FATXPartition} {filename : List UInt8}
  {ram : Nat → UInt8} {reads : Nat}

theorem splice_of_lt {a i : Nat} (buffer : Nat → UInt8) (h : i < a) : splice ram a buffer i = ram i :=
  if_neg (Nat.not_le.2 h)

theorem splice_of_ge {a i : Nat} (buffer : Nat → UInt8) (h : a ≤ i) :
    splice ram a buffer i = buffer (i - a) := if_pos h

/-- The search finds the same file whatever is in memory. -/
theorem find_cleared (ram ram' : Nat → UInt8) {found : FATXFILEINFO} {r : Nat}
    (h : fatxFindFile d.hdd partition fuel filename fatxRootFatCluster (clearedInfo ram) reads =
      some (true, found, r)) : ∃ found', fatxFindFile d.hdd partition fuel filename
        fatxRootFatCluster (clearedInfo ram') reads = some (true, found', r) ∧
      found'.fileSize = found.fileSize := by
  have hfind : findLoop d.hdd partition fuel
      ((filename.map fun c => if c = 0x5c then 0x2f else c).dropWhile (· == 0x2f))
      fatxRootFatCluster (d.hdd.stack reads) (clearedInfo ram) reads = some (true, found, r) := h
  have hsame : fatxFindFile d.hdd partition fuel filename fatxRootFatCluster (clearedInfo ram') reads =
      _ := findLoop_buffer (fun i => ram' (initrdStart.toNat + i)) fuel _ fatxRootFatCluster
        (d.hdd.stack reads) (clearedInfo ram) reads
  rw [hfind] at hsame
  exact ⟨_, hsame, rfl⟩

/-- The load writes the `fileSize` bytes from `INITRD_START` on and no others. -/
theorem loadFixed_outside {found : FATXFILEINFO} {r : Nat}
    (hfind : fatxFindFile d.hdd partition fuel filename fatxRootFatCluster (clearedInfo ram) reads =
      some (true, found, r)) {result : Bool × UInt32 × (Nat → UInt8) × Nat}
    (h : loadFixed d fuel partition filename ram reads = some result) {a : Nat}
    (ha : a < initrdStart.toNat ∨ initrdStart.toNat + found.fileSize.toNat ≤ a) :
    result.2.2.1 a = ram a := by
  obtain ⟨⟨ret, fileinfo, reads'⟩, hload, rfl⟩ := Option.map_eq_some_iff.1 h
  show splice ram initrdStart.toNat fileinfo.buffer a = ram a
  by_cases hlow : a < initrdStart.toNat
  · exact splice_of_lt _ hlow
  rw [splice_of_ge _ (Nat.not_lt.1 hlow)]
  have hdisk : fatxLoadFromDisk d.hdd partition fuel
      (prepared (fun _ _ i => ram (initrdStart.toNat + i)) 0xff r found) r =
        some (ret, fileinfo, reads') := by
    unfold loadFATXFilefixed loadFATX at hload
    have hfind' : fatxFindFile d.hdd partition fuel filename fatxRootFatCluster
        ⟨[], 0, 0, 0, fun i => ram (initrdStart.toNat + i)⟩ reads = some (true, found, r) := hfind
    simp only [hfind', if_true] at hload
    exact hload
  have hout := loadLoop_outside _ _ _ _ _ _ _ hdisk (a - initrdStart.toNat)
    (.inr (by simp only [prepared]; omega))
  have hfill : fill (fun i => ram (initrdStart.toNat + i)) 0 0xff found.fileSize.toNat
      (a - initrdStart.toNat) = ram (initrdStart.toNat + (a - initrdStart.toNat)) :=
    fill_of_outside _ _ _ _ _ (.inr (by omega))
  rw [show initrdStart.toNat + (a - initrdStart.toNat) = a by omega] at hfill
  exact hout.trans hfill

theorem layout : initrdStart.toNat + maxInitrdSize.toNat = maxInitrdEnd.toNat := rfl

theorem loadFixed_below : StaysBelow (fun ram => loadFixedStates d fuel partition filename ram reads) ↔
    ∀ ram found r, fatxFindFile d.hdd partition fuel filename fatxRootFatCluster (clearedInfo ram)
      reads = some (true, found, r) → found.fileSize.toNat ≤ maxInitrdSize.toNat := by
  have hlayout := layout
  constructor
  · intro h ram found r hfind
    by_contra hbig
    -- on a memory of zeros the `memset` shows
    obtain ⟨found', hfind', hsize⟩ := find_cleared ram (fun _ => 0) hfind
    have hmem := h (fun _ => 0) (fill (fun _ => 0) initrdStart.toNat 0xff found'.fileSize.toNat)
      (by simp only [loadFixedStates, hfind']; exact List.mem_cons_self) maxInitrdEnd.toNat
      (Nat.le_refl _)
    rw [fill_apply _ _ _ _ _ (by rw [hsize]; omega)] at hmem
    cases hmem
  · intro h ram m hm a ha
    change m ∈ loadFixedStates d fuel partition filename ram reads at hm
    unfold loadFixedStates at hm
    split at hm
    · rename_i found r hfind
      have hfits := h ram found r hfind
      rcases List.mem_cons.1 hm with rfl | hm
      · exact fill_of_outside _ _ _ _ _ (.inr (by omega))
      · obtain ⟨result, hload, rfl⟩ := Option.map_eq_some_iff.1 (Option.mem_toList.1 hm)
        exact loadFixed_outside hfind hload (.inr (by omega))
    · cases hm

end

/-! ## webboot -/

section
variable {contLen fraction : Int} {b : Nat → UInt8} {s : Receive}

/-- What the loop has stored over `b`: `fileLen` bytes and a NUL behind them. -/
structure Stored (b : Nat → UInt8) (s : Receive) : Prop where
  nothing_yet : s.fileLen = 0 → s.buf = b
  nul : s.fileLen ≠ 0 → s.buf s.fileLen = 0
  behind : ∀ i, s.fileLen < i → s.buf i = b i

theorem Stored.congr {s' : Receive} (h : Stored b s) (hlen : s'.fileLen = s.fileLen)
    (hbuf : s'.buf = s.buf) : Stored b s' := by
  obtain ⟨h1, h2, h3⟩ := h
  refine ⟨?_, ?_, ?_⟩ <;> rw [hlen, hbuf] <;> assumption

theorem Stored.storeBody (contLen fraction : Int) (h : Stored b s) (x : UInt8) :
    Stored b (s.storeBody contLen fraction x) := by
  unfold Receive.storeBody
  split
  · refine ⟨fun hc => absurd hc (Nat.succ_ne_zero _), fun _ => Function.update_self .., fun i hi => ?_⟩
    simp only at hi ⊢
    rw [Function.update_of_ne (by omega), Function.update_of_ne (by omega)]
    exact h.behind i (by omega)
  · exact h

theorem Stored.byte (h : Stored b s) (x : UInt8) : Stored b (s.byte contLen fraction x) := by
  unfold Receive.byte
  have hshift : Stored b s.shift := by
    unfold Receive.shift
    split
    · exact h
    · exact h.congr rfl rfl
  have hheader : Stored b ({ s.shift with c := { s.shift.c with c3 := x } }.storeHeader x) := by
    unfold Receive.storeHeader
    split
    · exact hshift.congr rfl rfl
    · exact hshift.congr rfl rfl
  have hbody := hheader.storeBody contLen fraction x
  unfold Receive.findHeaderEnd
  simp only
  split
  · exact hbody.congr rfl rfl
  · exact hbody

theorem Stored.data (h : Stored b s) (p : Chain) : Stored b (s.data contLen fraction p) := by
  have hclear : Stored b s.clearWindow := by
    unfold Receive.clearWindow
    split
    · exact h
    · exact h.congr rfl rfl
  rw [data_eq]
  generalize p.flatten = t
  generalize s.clearWindow = s' at hclear
  induction t generalizing s' with
  | nil => exact hclear
  | cons x t ih => exact ih _ (hclear.byte x)

theorem Stored.answer (h : Stored b s) (answer : List Chain) :
    Stored b (answer.foldl (Receive.data contLen fraction) s) := by
  induction answer generalizing s with
  | nil => exact h
  | cons p answer ih => exact ih (h.data p)

/-- The answer and its NUL have room. -/
theorem answer_below (contLen fraction : Int) (hs : s.Found none) (answer : List Chain) :
    StaysBelow (answerStates contLen fraction s answer) ↔
      (received answer).length < maxInitrdSize.toNat := by
  have hlayout := layout
  have hpos : 0 < maxInitrdSize.toNat := by decide
  have hstored : ∀ b, Stored b (answer.foldl (Receive.data contLen fraction) { s with buf := b }) := by
    intro b
    have h0 : Stored b { s with buf := b } :=
      ⟨fun _ => rfl, fun hc => absurd hs.holds.1 hc, fun _ _ => rfl⟩
    exact h0.answer answer
  have hfound : ∀ b, (answer.foldl (Receive.data contLen fraction) { s with buf := b }).Found
      (afterPieces crlfcrlf (answer.map List.flatten)) := by
    intro b
    exact foldl_data contLen fraction answer (s := { s with buf := b }) ⟨hs.eoh, hs.head, hs.holds.1, rfl⟩
  constructor
  · intro h
    by_contra hbig
    -- the byte at the end of the area does not depend on what was there
    obtain ⟨v, hv⟩ : ∃ v : UInt8, ∀ b, (answer.foldl (Receive.data contLen fraction)
        { s with buf := b }).buf maxInitrdSize.toNat = v := by
      by_cases heq : (received answer).length = maxInitrdSize.toNat
      · refine ⟨0, fun b => ?_⟩
        have hlen := (hfound b).holds.1
        have hnul := (hstored b).nul
        rw [hlen] at hnul
        exact heq ▸ hnul (by show (received answer).length ≠ 0; omega)
      · refine ⟨(received answer).getD maxInitrdSize.toNat 0, fun b => ?_⟩
        have hread := (hfound b).holds.2
        change read _ 0 (received answer).length = received answer at hread
        rw [List.getD_eq_getElem?_getD, ← hread, getElem?_read _ _ _ _ (by omega), Nat.zero_add]
        rfl
    have hmem := h (fun _ => v + 1) _ (List.mem_singleton.2 rfl) maxInitrdEnd.toNat (Nat.le_refl _)
    rw [splice_of_ge _ (by omega), show maxInitrdEnd.toNat - initrdStart.toNat = maxInitrdSize.toNat
      by omega, hv] at hmem
    exact absurd hmem (by simp)
  · intro hroom ram m hm a ha
    obtain rfl := List.mem_singleton.1 hm
    rw [splice_of_ge _ (by omega)]
    have hb := (hstored fun i => ram (initrdStart.toNat + i)).behind (a - initrdStart.toNat)
      (by rw [(hfound _).holds.1]; show (received answer).length < _; omega)
    rw [hb, show initrdStart.toNat + (a - initrdStart.toNat) = a by omega]

end

/-! ## netboot -/

section
variable {files : Nat → Int} {l : Locals} {hs hs' : HttpState}

theorem headerLine_postdata (l : Locals) (buffer : Option Nat) (hs : HttpState) :
    (hs.headerLine l buffer).postdata = hs.postdata ∨ (hs.headerLine l buffer).postdata = buffer := by
  unfold HttpState.headerLine HttpState.endOfHeader
  simp only
  split_ifs <;> first
    | exact .inl rfl
    | exact .inr rfl
    | exact .inl (respond_same l hs).postdata

/-- Every body of netboot goes to the one buffer. -/
def OwnBuffer (hs : HttpState) : Prop := ∀ a, hs.postdata = some a → a = postBuffer

theorem handleLine_ownBuffer {s : Server} (h : OwnBuffer hs)
    (hl : (netbootServer files l).handleLine s hs = some hs') : OwnBuffer hs' := by
  change Net.handleLine files l s hs = some hs' at hl
  unfold Net.handleLine at hl
  intro a ha
  split_ifs at hl
  · exact h a ((requestLine_same hl).postdata.symm.trans ha)
  · cases hl
    rcases headerLine_postdata l (some postBuffer) hs with he | he
    · exact h a (he.symm.trans ha)
    · exact Option.some.inj (ha.symm.trans he)

theorem byte_ownBuffer {s : Server} {n : Life} (h : OwnBuffer n.hs) (c : UInt8) :
    OwnBuffer (n.byte (netbootServer files l) l s c).hs := by
  unfold Life.byte HttpServer.recvByte
  cases hdata : n.hs.postdata with
  | none =>
    intro a ha
    simp only [headerByte] at ha
    split_ifs at ha
    · exact h a ha
    · split at ha
      · exact h a ha
      · rename_i hs' hl
        have hset : OwnBuffer
            { n.hs with lineBuf := Function.update n.hs.lineBuf n.hs.lineBufpos 0 } := h
        have hline : OwnBuffer hs' := handleLine_ownBuffer hset hl
        exact hline a ha
    · exact h a ((pushLine_same n.hs c).postdata.symm.trans ha)
  | some postdata =>
    intro a ha
    rw [(bodyByte_post (netboot_regular files l) l s n.hs postdata c).1] at ha
    exact h a ha

theorem ownBuffer_reachable {n : Life} (h : (netbootConnection files).Reachable n) : OwnBuffer n.hs := by
  refine KeepsConnection.reachable (P := fun n => OwnBuffer n.hs)
    ⟨fun lineBuf => ?_, fun l malloc s n c _ hn => byte_ownBuffer hn c, ?_⟩ h
  · intro a ha
    cases ha
  · intro n hs opened hn hsame _ _ a ha
    exact hn a (hsame.postdata.symm.trans ha)

theorem body_below {n : Life} (h : (netbootConnection files).Reachable n) :
    (∀ a ∈ stores n.touched, a < maxInitrdEnd.toNat) ↔ n.body.length ≤ 18 * 1024 * 1024 := by
  have hbody := body_reachable (fun l _ => netboot_regular files l) h
  have hplace : postBuffer + 18 * 1024 * 1024 = maxInitrdEnd.toNat := rfl
  cases hdata : n.hs.postdata with
  | none =>
    obtain ⟨hempty, hstores, -⟩ := hbody.none_yet hdata
    rw [hstores, hempty]
    exact iff_of_true (fun a ha => by cases ha) (Nat.zero_le _)
  | some postdata =>
    obtain rfl := ownBuffer_reachable h postdata hdata
    obtain ⟨-, hstores, -⟩ := hbody.some_sent _ hdata
    rw [hstores]
    constructor
    · intro hbelow
      by_contra hbig
      have hlast := hbelow (postBuffer + 18 * 1024 * 1024)
        (List.mem_range'_1.2 ⟨by omega, by omega⟩)
      omega
    · intro hroom a ha
      rw [List.mem_range'_1] at ha
      omega

/-- The call does this copy, and no other to the area. -/
theorem useUpload_copy {s : Server} {k : Copy} (hrole : s.postNum = 2) (hk : initrdCopy hs = some k) :
    (useUpload s hs).ram = copy s.ram k.dst s.ram k.src k.n := by
  obtain ⟨start, hstart, rfl⟩ := Option.map_eq_some_iff.1 hk
  unfold useUpload
  simp only [hstart]
  rw [if_neg (by omega), if_pos hrole]

/-- An initrd of a delimited body of at most 18 MiB has room. -/
theorem delimited_initrd_fits {s : Server}
    (hd : delimited s.ram postBuffer hs.postlen = true) (hlen : hs.postlen ≤ 18 * 1024 * 1024)
    {k : Copy} (hk : initrdCopy (handlePost l s hs postBuffer).2 = some k) :
    k.dst + k.n ≤ maxInitrdEnd.toNat := by
  have hlayout := layout
  have hroom : maxInitrdSize.toNat = 33 * 1024 * 1024 := rfl
  obtain ⟨blen, st, stop, hloc, h1, h2, h3⟩ := locate_delimited l hd
  obtain ⟨start, hstart, rfl⟩ := Option.map_eq_some_iff.1 hk
  simp only [handlePost, hloc]
  have hn : ((postBuffer + stop : Nat) : Int) - 2 - ((postBuffer + st : Nat) : Int) =
      ((stop - 2 - st : Nat) : Int) := by
    omega
  rw [hn, toNat_ofInt]
  omega

end

/-! ## Top theorem -/

/-- **Staging.**  Nothing at or behind `MAX_INITRD_END` is written: by a load
from the hard drive, exactly when the file found has room; by an answer for
webboot, when its body and a NUL have; by the bodies for netboot, when 18 MiB at
most come in on a connection; by the copy of an initrd, when its length has. -/
theorem staging_iff (d : Drives) (fuel : Nat) (partition : FATXPartition) (filename : List UInt8)
    (reads : Nat) (contLen fraction : Int) (files : Nat → Int) :
    (StaysBelow (fun ram => loadFixedStates d fuel partition filename ram reads) ↔
      ∀ ram found r, fatxFindFile d.hdd partition fuel filename fatxRootFatCluster
        (clearedInfo ram) reads = some (true, found, r) →
          found.fileSize.toNat ≤ maxInitrdSize.toNat) ∧
    (∀ s answer, s.Found none →
      (StaysBelow (answerStates contLen fraction s answer) ↔
        (received answer).length < maxInitrdSize.toNat)) ∧
    (∀ n, (netbootConnection files).Reachable n →
      ((∀ a ∈ stores n.touched, a < maxInitrdEnd.toNat) ↔ n.body.length ≤ 18 * 1024 * 1024)) ∧
    (∀ hs k, initrdCopy hs = some k →
      (k.dst + k.n ≤ maxInitrdEnd.toNat ↔ (UInt32.ofInt hs.dataLen).toNat ≤ maxInitrdSize.toNat)) := by
  refine ⟨loadFixed_below, ?_, ?_, ?_⟩
  · exact fun _ answer hs => answer_below contLen fraction hs answer
  · exact fun _ h => body_below h
  · intro hs k hk
    have hlayout := layout
    obtain ⟨start, -, rfl⟩ := Option.map_eq_some_iff.1 hk
    simp only
    omega

/-- A connection of netboot that has an upload of one byte in hand. -/
def oneByteUpload : HttpState :=
  { httpAccept (fun _ => 0) with dataStart := some postBuffer, dataLen := 1 }

theorem staging_iff_small :
    StaysBelow (answerStates 0 0 { bareReceive with head := false } [[shortResponse]]) ∧
    (∀ a ∈ stores (afterSegment (fun l _ => netbootServer (fun _ => 1) l) blankServer
      (overPost ['a', 'b'])).touched, a < maxInitrdEnd.toNat) ∧
    (∀ k, initrdCopy oneByteUpload = some k → k.dst + k.n ≤ maxInitrdEnd.toNat) := by
  have hfound : ({ bareReceive with head := false } : Receive).Found none := ⟨rfl, rfl, rfl, rfl⟩
  have hreach := afterSegment_reachable (fun l _ => netbootServer (fun _ => 1) l) blankServer
    (overPost ['a', 'b'])
  obtain ⟨-, hanswer, hbody, hcopy⟩ := staging_iff noDrives 3 smallPartition [0x61] 0 0 0 fun _ => 1
  refine ⟨(hanswer _ _ hfound).2 (by decide +kernel), ?_, fun k hk => ?_⟩
  · exact (hbody _ hreach).2 (by decide +kernel)
  · exact (hcopy _ k hk).2 (by decide)

/-- The small disk, with 33 MiB and a byte as the size of its file. -/
def bigFileDisk : Fatx.Env where
  sector drive block :=
    if block = 16 then
      paddedSector ([1, 0, 0x61] ++ List.replicate 41 0 ++ [2, 0, 0, 0, 1, 0, 0x10, 2]) 0
    else (smallDisk fun _ => false).sector drive block
  fails _ := false
  stack _ _ := 0

/-- **33 MiB and a byte.**  The first byte of the heap is overwritten. -/
theorem heap_overwritten : ∃ m ∈ loadFixedStates { noDrives with hdd := bigFileDisk } 3
    smallPartition [0x61] (fun _ => 0) 0, m maxInitrdEnd.toNat = 0xff := by
  have hsize : (fatxFindFile bigFileDisk smallPartition 3 [0x61] fatxRootFatCluster
      (clearedInfo fun _ => 0) 0).map (fun r => (r.1, r.2.1.fileSize)) = some (true, 0x2100001) := by
    decide +kernel
  obtain ⟨⟨ret, found, r⟩, hfind, he⟩ := Option.map_eq_some_iff.1 hsize
  simp only [Prod.mk.injEq] at he
  obtain ⟨rfl, hlen⟩ := he
  unfold loadFixedStates
  rw [hfind]
  refine ⟨_, List.mem_cons_self, fill_apply _ _ _ _ _ ?_⟩
  rw [hlen]
  decide

end Gentoox.Boot
