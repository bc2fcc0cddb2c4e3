import Mathlib.Data.List.GetD
import Mathlib.Data.List.ReduceOption
import GentooxLoader.Base.Machine
import GentooxLoader.Base.Words
import GentooxLoader.Iso.Tree

/-!
# Looking up a path (fs/cdrom/iso9660.c)

On a disc that holds a directory tree, `read_dir` is the walk through the tree
(`readDir_walk`): it reads the sectors of a directory, takes the records in their
order and skips the zeros behind the last record of a sector.  So a path that
names a record is found exactly when it goes through no directory whose name is
a single character (which the test for the special records takes for one of
them), and when no name that is built on the way overflows its buffer.

    readDir_walk   the code and the walk
    readDir_iff    what is named is found
-/

namespace Gentoox.Iso

open Cells Lib

/-! ## The records in the buffer -/

/-- The drive reads this disc, and there is memory. -/
structure Env.Serves (env : Env) (disc : UInt32 → List UInt8) : Prop where
  sector : ∀ reads block, env.readSector reads block = (0, disc block)
  malloc : ∀ reads size, ∃ buffer, env.malloc reads size = some buffer

/-- The records of a sector, and what is left of it. -/
def sectorItems (s : List Node) : List (Option Node) :=
  s.map some ++ if (records s).length = isoBlockSize then [] else [none]

/-- The records of a directory, with what is left of the sectors between them. -/
def items (sectors : List (List Node)) : List (Option Node) := sectors.flatMap sectorItems

/-- The buffer holds these records from `offset` on. -/
def Listed (buffer : Nat → UInt8) (size : Nat) : Nat → List (Option Node) → Prop
  | offset, [] => offset = size
  | offset, none :: items => offset < size ∧ buffer offset = 0 ∧
      Listed buffer size ((offset / isoBlockSize + 1) * isoBlockSize) items
  | offset, some n :: items => offset + n.entry.bytes.length ≤ size ∧
      (∀ i, i < n.entry.bytes.length → buffer (offset + i) = n.entry.dir i) ∧
      Listed buffer size (offset + n.entry.bytes.length) items

theorem reduceOption_items (sectors : List (List Node)) :
    (items sectors).reduceOption = sectors.flatten := by
  induction sectors with
  | nil => rfl
  | cons s sectors ih =>
    have hs : (sectorItems s).reduceOption = s := by
      unfold sectorItems
      rw [List.reduceOption_append]
      have hmap : (s.map some).reduceOption = s := by simp [List.reduceOption]
      split <;> simp [hmap]
    rw [items, List.flatMap_cons, List.reduceOption_append, hs, List.flatten_cons]
    exact congrArg _ ih

theorem length_sectorBytes {s : List Node} (h : (records s).length ≤ isoBlockSize) :
    (sectorBytes s).length = isoBlockSize := by
  rw [sectorBytes, List.length_append, List.length_replicate]
  omega

/-- The blocks that are read, one behind the other. -/
theorem readBlocks_spec {env : Env} {disc : UInt32 → List UInt8} (hserves : env.Serves disc) (n : Nat)
    (offset : UInt32) (i : Nat) (buffer : Nat → UInt8) (reads : Nat)
    (hlen : ∀ j, j < n → (disc (offset + UInt32.ofNat j)).length = isoBlockSize) :
    (∀ a, a < i * isoBlockSize → (readBlocks env n offset i buffer reads).1 a = buffer a) ∧
    ∀ j k, j < n → k < isoBlockSize →
      (readBlocks env n offset i buffer reads).1 ((i + j) * isoBlockSize + k) =
        (disc (offset + UInt32.ofNat j)).getD k 0 := by
  induction n generalizing offset i buffer reads with
  | zero => exact ⟨fun _ _ => rfl, fun j _ hj => absurd hj (Nat.not_lt_zero j)⟩
  | succ n ih =>
    have hnext : ∀ j, offset + 1 + UInt32.ofNat j = offset + UInt32.ofNat (j + 1) := by
      intro j
      rw [UInt32.ofNat_add, UInt32.add_assoc, UInt32.add_comm 1]
      rfl
    have hfirst : (disc offset).length = isoBlockSize := by
      have h0 := hlen 0 (Nat.succ_pos n)
      rwa [show offset + UInt32.ofNat 0 = offset from UInt32.add_zero offset] at h0
    obtain ⟨hbelow, hblocks⟩ := ih (offset + 1) (i + 1)
      (write buffer (i * isoBlockSize) (env.readSector reads offset).2) (reads + 1)
      (fun j hj => by rw [hnext]; exact hlen (j + 1) (Nat.succ_lt_succ hj))
    rw [readBlocks]
    rw [hserves.sector] at hbelow hblocks ⊢
    have hmul : (i + 1) * isoBlockSize = i * isoBlockSize + isoBlockSize := Nat.succ_mul _ _
    constructor
    · intro a ha
      rw [hbelow a (by omega), write_of_lt _ _ _ _ ha]
    · intro j k hj hk
      cases j with
      | zero =>
        rw [Nat.add_zero i, hbelow _ (by omega), write_apply _ _ _ _ (by rw [hfirst]; exact hk),
          List.getD_eq_getElem?_getD, show offset + UInt32.ofNat 0 = offset from UInt32.add_zero offset,
          List.getElem?_eq_getElem (by rw [hfirst]; exact hk)]
        rfl
      | succ j =>
        rw [show i + (j + 1) = i + 1 + j by omega, ← hnext]
        exact hblocks j k (by omega) hk

theorem listed_le {buffer : Nat → UInt8} {size : Nat} {items : List (Option Node)} {offset : Nat}
    (h : Listed buffer size offset items) : offset ≤ size := by
  cases items with
  | nil => exact h.le
  | cons n items =>
    cases n with
    | none => exact h.1.le
    | some n => exact (Nat.le_add_right _ _).trans h.1

/-- A sector at `base`, from the records `suf` on. -/
theorem listed_sector {buffer : Nat → UInt8} {size k : Nat} {s : List Node} {rest : List (Option Node)}
    (hfits : (records s).length ≤ isoBlockSize)
    (hbytes : ∀ j, j < isoBlockSize → buffer (k * isoBlockSize + j) = (sectorBytes s).getD j 0)
    (hrest : Listed buffer size ((k + 1) * isoBlockSize) rest) (pre suf : List Node) (hs : s = pre ++ suf) :
    Listed buffer size (k * isoBlockSize + (records pre).length)
      (suf.map some ++ (if (records s).length = isoBlockSize then [] else [none]) ++ rest) := by
  have hmul : (k + 1) * isoBlockSize = k * isoBlockSize + isoBlockSize := Nat.succ_mul _ _
  have hle := listed_le hrest
  induction suf generalizing pre with
  | nil =>
    obtain rfl : s = pre := by rw [hs, List.append_nil]
    rw [List.map_nil, List.nil_append]
    by_cases hfull : (records s).length = isoBlockSize
    · rw [if_pos hfull, List.nil_append, hfull, ← hmul]
      exact hrest
    · rw [if_neg hfull, List.singleton_append]
      refine ⟨by omega, ?_, ?_⟩
      · rw [hbytes _ (by omega), sectorBytes, List.getD_append_right _ _ _ _ (Nat.le_refl _)]
        simp
      · have hdiv : (k * isoBlockSize + (records s).length) / isoBlockSize = k := by
          rw [Nat.add_comm, Nat.add_mul_div_right _ _ (by decide), Nat.div_eq_of_lt (by omega),
            Nat.zero_add]
        rw [hdiv]
        exact hrest
  | cons n suf ih =>
    have hpre : records (pre ++ [n]) = records pre ++ n.entry.bytes := by simp [records]
    have hall : records s = records pre ++ (n.entry.bytes ++ records suf) := by
      rw [hs]
      simp [records]
    have hlen := congrArg List.length hall
    rw [List.length_append, List.length_append] at hlen
    have hnext := ih (pre ++ [n]) (by rw [hs]; simp)
    rw [hpre, List.length_append, ← Nat.add_assoc] at hnext
    refine ⟨by omega, fun i hi => ?_, hnext⟩
    rw [Nat.add_assoc, hbytes _ (by omega), sectorBytes, List.getD_append _ _ _ _ (by omega), hall,
      List.getD_append_right _ _ _ _ (by omega), Nat.add_sub_cancel_left, List.getD_append _ _ _ _ hi]
    rfl

theorem listed_items {buffer : Nat → UInt8} {size : Nat} {sectors : List (List Node)} {k : Nat}
    (hfits : ∀ s ∈ sectors, (records s).length ≤ isoBlockSize)
    (hbytes : ∀ i s, sectors[i]? = some s → ∀ j, j < isoBlockSize →
      buffer ((k + i) * isoBlockSize + j) = (sectorBytes s).getD j 0)
    (hsize : size = (k + sectors.length) * isoBlockSize) :
    Listed buffer size (k * isoBlockSize) (items sectors) := by
  induction sectors generalizing k with
  | nil =>
    rw [List.length_nil, Nat.add_zero] at hsize
    exact hsize.symm
  | cons s sectors ih =>
    have hrest : Listed buffer size ((k + 1) * isoBlockSize) (items sectors) := by
      refine ih (fun t ht => hfits t (List.mem_cons_of_mem _ ht)) (fun i t ht j hj => ?_) ?_
      · rw [Nat.add_assoc, Nat.add_comm 1 i]
        exact hbytes (i + 1) t ht j hj
      · rw [hsize, List.length_cons, Nat.add_assoc, Nat.add_comm 1]
    have hall := listed_sector (hfits s List.mem_cons_self) (hbytes 0 s rfl) hrest [] s rfl
    rwa [show (records []).length = 0 from rfl, Nat.add_zero] at hall

/-- The sectors of a directory are in the buffer once they are read. -/
theorem listed_of_holds {env : Env} {disc : UInt32 → List UInt8} {dirRead : Record}
    {sectors : List (List Node)} (hserves : env.Serves disc) (h : Holds disc dirRead sectors)
    (buffer : Nat → UInt8) (reads : Nat) :
    Listed (readBlocks env (dirRead.size >>> 11).toNat dirRead.extent 0 buffer reads).1
      dirRead.size.toNat 0 (items sectors) := by
  have hcount : (dirRead.size >>> 11).toNat = sectors.length := by
    rw [UInt32.toNat_shiftRight]
    show dirRead.size.toNat >>> (11 % 32) = _
    rw [Nat.shiftRight_eq_div_pow, h.size]
    exact Nat.mul_div_cancel _ (by decide)
  have hblock : ∀ j, j < sectors.length → ∃ s, sectors[j]? = some s ∧ s ∈ sectors := fun j hj =>
    ⟨sectors[j], List.getElem?_eq_getElem hj, List.getElem_mem hj⟩
  obtain ⟨-, hbytes⟩ := readBlocks_spec hserves (dirRead.size >>> 11).toNat dirRead.extent 0 buffer reads
    (fun j hj => by
      rw [hcount] at hj
      obtain ⟨s, hs, hmem⟩ := hblock j hj
      rw [h.block j s hs, length_sectorBytes (h.fits s hmem)])
  have hlisted : Listed (readBlocks env (dirRead.size >>> 11).toNat dirRead.extent 0 buffer reads).1
      dirRead.size.toNat (0 * isoBlockSize) (items sectors) := by
    refine listed_items h.fits (fun i s hs j hj => ?_) (by rw [h.size, Nat.zero_add])
    have hi : i < sectors.length := (List.getElem?_eq_some_iff.1 hs).1
    rw [hbytes i j (by rw [hcount]; exact hi) hj, h.block i s hs]
  rwa [Nat.zero_mul] at hlisted

/-! ## One record -/

/-- What the search returns, by the outcome of the walk. -/
def Outcome.result : Outcome → Except Fault (Option Record)
  | found e => .ok (some (copy (fun _ => 0) 0 e.dir 0 recordSize))
  | missing => .ok none
  | overflow => .error .overflow

theorem Entry.long (e : Entry) : recordSize < e.bytes.length := by
  have hpos : 0 < (e.bytes.getD 32 0).toNat := UInt8.lt_iff_toNat_lt.1 e.nameLen_pos
  have hle := e.name_le
  show 33 < e.bytes.length
  omega

/-- The length byte of a record. -/
theorem Entry.length_ne_zero (e : Entry) : e.dir 0 ≠ 0 := by
  intro h
  have hlen := e.length_eq
  rw [show e.bytes.getD 0 0 = 0 from h] at hlen
  have hlong := e.long
  rw [hlen] at hlong
  exact absurd hlong (Nat.not_lt_zero _)

/-- Memory that holds the bytes of a record has its fields. -/
theorem fields_of_bytes {e : Entry} {dir : Record} (h : ∀ i, i < e.bytes.length → dir i = e.dir i) :
    dir.extent = e.dir.extent ∧ dir.size = e.dir.size ∧ dir.flags = e.dir.flags ∧
      dir.nameLen = e.dir.nameLen ∧ dir.name = e.dir.name ∧
      copy (fun _ => 0) 0 dir 0 recordSize = copy (fun _ => 0) 0 e.dir 0 recordSize := by
  have hlong : 33 < e.bytes.length := e.long
  have hlen : dir.nameLen = e.dir.nameLen := h 32 (by omega)
  refine ⟨?_, ?_, h 25 (by omega), hlen, ?_, ?_⟩
  · unfold Record.extent longAt
    rw [h 2 (by omega), h (2 + 1) (by omega), h (2 + 2) (by omega), h (2 + 3) (by omega)]
  · unfold Record.size longAt
    rw [h 10 (by omega), h (10 + 1) (by omega), h (10 + 2) (by omega), h (10 + 3) (by omega)]
  · unfold Record.name
    rw [hlen]
    refine read_congr fun i _ hi => h i ?_
    exact hi.trans_le e.name_le
  · unfold copy
    rw [read_congr fun i _ hi => h i (by rw [Nat.zero_add] at hi; exact hi.trans hlong)]

section
variable {env : Env} {search filename newfilename : List UInt8} {buffer : Nat → UInt8}
  {readSize offset : UInt32} {reads : Nat}

variable (env search newfilename reads) in
/-- A turn over a record. -/
theorem dirLoop_record (fuel : Nat) (hlt : offset < readSize) {e : Entry}
    (hbytes : ∀ i, i < e.bytes.length → buffer (offset.toNat + i) = e.dir i) {name : List UInt8}
    (hname : (if e.dir 33 ≠ 0 ∧ e.dir 33 ≠ 1 then filename ++ e.component else newfilename) = name) :
    dirLoop env search (fuel + 1) buffer readSize offset filename newfilename reads =
      if nameBuffer ≤ name.length then .error .overflow
      else if name = search then .ok (some (copy (fun _ => 0) 0 e.dir 0 recordSize), reads)
      else if e.dir.flags &&& isDir ≠ 0 ∧ e.dir.nameLen > 1 ∧ name.length < search.length ∧
          name <+: search ∧ search[name.length]? = some 0x2f then
        match env.malloc reads e.dir.size with
        | none => .ok (none, reads)
        | some buffer =>
          dirLoop env search fuel (readBlocks env (e.dir.size >>> 11).toNat e.dir.extent 0 buffer reads).1
            e.dir.size 0 name [] (readBlocks env (e.dir.size >>> 11).toNat e.dir.extent 0 buffer reads).2
      else dirLoop env search fuel buffer readSize (offset + (e.dir 0).toUInt32) filename name reads := by
  have hlong : 33 < e.bytes.length := e.long
  have h0 := hbytes 0 (by omega)
  have h33 := hbytes 33 hlong
  obtain ⟨h1, h2, h3, h4, h5, h6⟩ := fields_of_bytes hbytes
  rw [dirLoop, if_pos hlt]
  simp only [h0, h33, h1, h2, h3, h4, h5, h6, if_neg e.length_ne_zero]
  rw [← hname]
  rfl

theorem prefix_concat_iff {p s : List UInt8} {c : UInt8} :
    p.length < s.length ∧ p <+: s ∧ s[p.length]? = some c ↔ p ++ [c] <+: s := by
  constructor
  · rintro ⟨-, ⟨t, rfl⟩, hc⟩
    rw [List.getElem?_append_right (Nat.le_refl _), Nat.sub_self] at hc
    cases t with
    | nil => cases hc
    | cons d t =>
      obtain rfl : d = c := Option.some.inj hc
      exact ⟨t, by simp⟩
  · rintro ⟨t, rfl⟩
    simp

/-- Where the next sector begins, in a directory of whole sectors. -/
theorem nextSector_toNat (hlt : offset < readSize) (hwhole : readSize.toNat % isoBlockSize = 0) :
    ((offset + 2048) &&& 0xfffff800).toNat = (offset.toNat / isoBlockSize + 1) * isoBlockSize := by
  have hsize := readSize.toNat_lt
  have hlt' : offset.toNat < readSize.toNat := hlt
  have hblock : isoBlockSize = 2048 := rfl
  rw [hblock] at hwhole ⊢
  have hadd : (offset + 2048).toNat = offset.toNat + 2048 := by
    rw [UInt32.toNat_add]
    exact Nat.mod_eq_of_lt (show offset.toNat + 2048 < 2 ^ 32 by omega)
  rw [Words.and_mask (offset + 2048) (k := 11) (by decide) rfl, hadd]
  show (offset.toNat + 2048) / 2048 * 2048 = _
  omega

theorem dirLoop_padding (fuel : Nat) (hlt : offset < readSize) (h0 : buffer offset.toNat = 0) :
    dirLoop env search (fuel + 1) buffer readSize offset filename newfilename reads =
      dirLoop env search fuel buffer readSize ((offset + 2048) &&& 0xfffff800) filename newfilename
        reads := by
  rw [dirLoop, if_pos hlt]
  simp only [Nat.add_zero, h0, if_true]

end

/-! ## The code and the walk -/

section
variable {env : Env} {disc : UInt32 → List UInt8} {search : List UInt8}

theorem flags_iff {n : Node} (h : WellFormed disc n) (hnamed : n.named = true) :
    n.entry.dir.flags &&& isDir ≠ 0 ↔ n.isDirectory = true := by
  cases h with
  | special => cases hnamed
  | file hname hflags => exact iff_of_false (fun h => h hflags) (by rintro ⟨⟩)
  | directory hname hflags => exact iff_of_true hflags rfl

/-- The record that comes next, and the place behind it. -/
theorem listed_record {node : Node} {items : List (Option Node)} {buffer : Nat → UInt8}
    {readSize offset : UInt32} (h : Listed buffer readSize.toNat offset.toNat (some node :: items)) :
    offset < readSize ∧
      (∀ i, i < node.entry.bytes.length → buffer (offset.toNat + i) = node.entry.dir i) ∧
      Listed buffer readSize.toNat (offset + (node.entry.dir 0).toUInt32).toNat items := by
  obtain ⟨hle, hbytes, hnext⟩ := h
  have hoffset : (offset + (node.entry.dir 0).toUInt32).toNat =
      offset.toNat + node.entry.bytes.length := by
    rw [UInt32.toNat_add, UInt8.toNat_toUInt32, node.entry.length_eq]
    have hsize := readSize.toNat_lt
    rw [node.entry.length_eq] at hle
    exact Nat.mod_eq_of_lt (Nat.lt_of_le_of_lt hle hsize)
  refine ⟨?_, hbytes, ?_⟩
  · have hlong := node.entry.long
    rw [UInt32.lt_iff_toNat_lt]
    omega
  · rw [hoffset]
    exact hnext

section
variable {node : Node} {filename rest newfilename : List UInt8} {buffer : Nat → UInt8}
  {readSize offset : UInt32} {reads : Nat}

/-- A special record keeps the name, and its own is a single character. -/
theorem dirLoop_special (fuel : Nat) (hnode : WellFormed disc node) (hnamed : node.named = false)
    (hlt : offset < readSize)
    (hbytes : ∀ i, i < node.entry.bytes.length → buffer (offset.toNat + i) = node.entry.dir i)
    (hne : newfilename ≠ search) (hshort : newfilename.length < nameBuffer) :
    dirLoop env search (fuel + 1) buffer readSize offset filename newfilename reads =
      dirLoop env search fuel buffer readSize (offset + (node.entry.dir 0).toUInt32) filename
        newfilename reads := by
  have hspecial : ¬ (node.entry.dir 33 ≠ 0 ∧ node.entry.dir 33 ≠ 1) ∧
      node.entry.dir.nameLen = 1 := by
    cases hnode with
    | special hfirst hlen => exact ⟨fun h => hfirst.elim h.1 h.2, hlen⟩
    | file => cases hnamed
    | directory => cases hnamed
  have hone : ¬ node.entry.dir.nameLen > 1 := by
    rw [hspecial.2]
    decide
  rw [dirLoop_record _ _ _ _ fuel hlt hbytes (if_neg hspecial.1), if_neg (Nat.not_le.2 hshort),
    if_neg hne, if_neg fun h => hone h.2.1]

variable (newfilename) in
/-- A named record does what the walk does. -/
theorem dirLoop_named (fuel : Nat) (hnode : WellFormed disc node) (hnamed : node.named = true)
    (hsearch : search = filename ++ rest) (hlt : offset < readSize)
    (hbytes : ∀ i, i < node.entry.bytes.length → buffer (offset.toNat + i) = node.entry.dir i)
    {memory : Nat → UInt8} (hmemory : env.malloc reads node.entry.dir.size = some memory) :
    let r := readBlocks env (node.entry.dir.size >>> 11).toNat node.entry.dir.extent 0 memory reads
    dirLoop env search (fuel + 1) buffer readSize offset filename newfilename reads =
      if nameBuffer ≤ (filename ++ node.entry.component).length then .error .overflow
      else if node.entry.component = rest then
        .ok (some (copy (fun _ => 0) 0 node.entry.dir 0 recordSize), reads)
      else if node.Entered rest then
        dirLoop env search fuel r.1 node.entry.dir.size 0 (filename ++ node.entry.component) [] r.2
      else dirLoop env search fuel buffer readSize (offset + (node.entry.dir 0).toUInt32) filename
        (filename ++ node.entry.component) reads := by
  have hname := (hnode.name hnamed).first
  have hfound : filename ++ node.entry.component = search ↔ node.entry.component = rest := by
    rw [hsearch, List.append_cancel_left_eq]
  have hentered : (node.entry.dir.flags &&& isDir ≠ 0 ∧ node.entry.dir.nameLen > 1 ∧
      (filename ++ node.entry.component).length < search.length ∧
      filename ++ node.entry.component <+: search ∧
      search[(filename ++ node.entry.component).length]? = some 0x2f) ↔ node.Entered rest := by
    rw [flags_iff hnode hnamed, prefix_concat_iff, hsearch, List.append_assoc,
      List.prefix_append_right_inj]
    rfl
  rw [dirLoop_record env search newfilename reads fuel hlt hbytes
    (if_pos (t := filename ++ node.entry.component) hname), hmemory]
  simp only [hfound, hentered]

end

/-- The path that is entered, and what is left of it below. -/
theorem Node.Entered.split {node : Node} {filename rest : List UInt8} (henter : node.Entered rest)
    (hsearch : search = filename ++ rest) :
    ∃ u, rest = node.entry.component ++ u ∧ search = filename ++ node.entry.component ++ u ∧
      u.length < rest.length ∧ [] ≠ search := by
  obtain ⟨u, rfl⟩ := (List.prefix_append _ _).trans henter.2.2
  refine ⟨u, rfl, by rw [hsearch, List.append_assoc], ?_, ?_⟩
  · rw [List.length_append, Entry.component, List.length_cons]
    omega
  · rw [hsearch, Entry.component]
    simp

/-- A named record ends the search, or it goes on below the record, or behind it. -/
theorem dirLoop_named_ends (hserves : env.Serves disc) {node : Node} {filename rest newfilename : List UInt8}
    {buffer : Nat → UInt8} {readSize offset : UInt32} {reads : Nat} (hnode : WellFormed disc node)
    (hnamed : node.named = true) (hsearch : search = filename ++ rest) (hlt : offset < readSize)
    (hbytes : ∀ i, i < node.entry.bytes.length → buffer (offset.toNat + i) = node.entry.dir i)
    {below behind : Outcome}
    (hbelow : node.Entered rest → ∀ memory : Nat → UInt8,
      let r := readBlocks env (node.entry.dir.size >>> 11).toNat node.entry.dir.extent 0 memory reads
      Fuel.Ends (fun fuel => (dirLoop env search fuel r.1 node.entry.dir.size 0
        (filename ++ node.entry.component) [] r.2).map Prod.fst) below.result)
    (hbehind : filename ++ node.entry.component ≠ search →
      (filename ++ node.entry.component).length < nameBuffer →
      Fuel.Ends (fun fuel => (dirLoop env search fuel buffer readSize
        (offset + (node.entry.dir 0).toUInt32) filename (filename ++ node.entry.component) reads).map
          Prod.fst) behind.result) :
    Fuel.Ends (fun fuel => (dirLoop env search fuel buffer readSize offset filename newfilename reads).map
      Prod.fst) (if nameBuffer ≤ (filename ++ node.entry.component).length then Outcome.overflow
        else if node.entry.component = rest then .found node.entry
        else if node.Entered rest then below else behind).result := by
  obtain ⟨memory, hmemory⟩ := hserves.malloc reads node.entry.dir.size
  have hstep (fuel : Nat) := dirLoop_named newfilename fuel hnode hnamed hsearch hlt hbytes hmemory
  by_cases hlong : nameBuffer ≤ (filename ++ node.entry.component).length
  · rw [if_pos hlong]
    refine Fuel.Ends.now fun fuel => ?_
    rw [hstep, if_pos hlong]
    rfl
  rw [if_neg hlong]
  by_cases hsame : node.entry.component = rest
  · rw [if_pos hsame]
    refine Fuel.Ends.now fun fuel => ?_
    rw [hstep, if_neg hlong, if_pos hsame]
    rfl
  rw [if_neg hsame]
  by_cases henter : node.Entered rest
  · rw [if_pos henter]
    refine Fuel.Ends.succ (hbelow henter memory) fun fuel => ?_
    rw [hstep, if_neg hlong, if_neg hsame, if_pos henter]
  · rw [if_neg henter]
    have hne : filename ++ node.entry.component ≠ search := by
      rw [hsearch, Ne, List.append_cancel_left_eq]
      exact hsame
    refine Fuel.Ends.succ (hbehind hne (Nat.not_le.1 hlong)) fun fuel => ?_
    rw [hstep, if_neg hlong, if_neg hsame, if_neg henter]

/-- **The loop** from a record on is the walk from there, by induction on what
is left of the path and on the records that are left. -/
theorem dirLoop_walk (hserves : env.Serves disc) {rest : List UInt8} {items : List (Option Node)}
    {filename newfilename : List UInt8} {buffer : Nat → UInt8} {readSize offset : UInt32} {reads : Nat}
    (hsearch : search = filename ++ rest) (hall : ∀ n ∈ items.reduceOption, WellFormed disc n)
    (hlisted : Listed buffer readSize.toNat offset.toNat items)
    (hwhole : readSize.toNat % isoBlockSize = 0) (hne : newfilename ≠ search)
    (hshort : newfilename.length < nameBuffer) :
    Fuel.Ends (fun fuel => (dirLoop env search fuel buffer readSize offset filename newfilename reads).map
      Prod.fst) (walk filename rest items.reduceOption).result := by
  induction hn : rest.length using Nat.strong_induction_on generalizing rest items filename newfilename
    buffer readSize offset reads with
  | _ n ih =>
    induction items generalizing newfilename offset with
    | nil =>
      refine Fuel.Ends.now fun fuel => ?_
      have hend : ¬ offset < readSize := by
        rw [UInt32.not_lt, UInt32.le_iff_toNat_le]
        exact Nat.le_of_eq hlisted.symm
      rw [dirLoop, if_neg hend, List.reduceOption_nil, walk]
      rfl
    | cons item items ihitems =>
      cases item with
      | none =>
        obtain ⟨hlt, h0, hnext⟩ := hlisted
        rw [List.reduceOption_cons_of_none] at hall ⊢
        rw [← nextSector_toNat hlt hwhole] at hnext
        refine Fuel.Ends.succ (ihitems hall hnext hne hshort) fun fuel => ?_
        rw [dirLoop_padding fuel hlt h0]
      | some node =>
        obtain ⟨hlt, hbytes, hnext⟩ := listed_record hlisted
        rw [List.reduceOption_cons_of_some] at hall ⊢
        have hnode := hall node List.mem_cons_self
        have hall' : ∀ n ∈ items.reduceOption, WellFormed disc n := fun n hn =>
          hall n (List.mem_cons_of_mem _ hn)
        rw [walk]
        cases hnamed : node.named with
        | false =>
          rw [if_neg Bool.false_ne_true]
          refine Fuel.Ends.succ (ihitems hall' hnext hne hshort) fun fuel => ?_
          rw [dirLoop_special fuel hnode hnamed hlt hbytes hne hshort]
        | true =>
          rw [if_pos rfl]
          refine dirLoop_named_ends hserves hnode hnamed hsearch hlt hbytes ?_ ?_
          · intro henter memory
            have htree := hnode.tree henter.1
            obtain ⟨u, rfl, hsearch', hshorter, hempty⟩ := henter.split hsearch
            rw [List.drop_left, ← reduceOption_items]
            refine ih u.length (hn ▸ hshorter) hsearch' ?_ (listed_of_holds hserves htree.holds memory reads) ?_
              hempty (by decide) rfl
            · rw [reduceOption_items]
              exact htree.wellFormed
            · rw [htree.holds.size]
              exact Nat.mul_mod_left _ _
          · intro hne' hshort'
            exact ihitems hall' hnext hne' hshort'

variable {dirRead : Record} {sectors : List (List Node)}

/-- **`read_dir`** on a disc that holds a tree. -/
theorem readDir_walk (hserves : env.Serves disc) (htree : Tree disc dirRead sectors) (hne : search ≠ [])
    (reads : Nat) : Fuel.Ends (fun fuel => (readDir env fuel dirRead search [] reads).map Prod.fst)
      (walk [] search sectors.flatten).result := by
  obtain ⟨memory, hmemory⟩ := hserves.malloc reads dirRead.size
  unfold readDir
  rw [hmemory, ← reduceOption_items]
  refine dirLoop_walk hserves (List.nil_append _).symm ?_ (listed_of_holds hserves htree.holds memory reads)
    ?_ hne.symm (by decide)
  · rw [reduceOption_items]
    exact htree.wellFormed
  · rw [htree.holds.size]
    exact Nat.mul_mod_left _ _

/-! ## Top theorem -/

/-- The record that is copied. -/
def Record.copied (dir : Record) : Record := copy (fun _ => 0) 0 dir 0 recordSize

theorem copied_read (dir : Record) : read dir.copied 0 recordSize = read dir 0 recordSize := by
  unfold Record.copied copy
  exact read_write_of_length (length_read _ _ _)

theorem copied_byte (dir : Record) {i : Nat} (hi : i < recordSize) : dir.copied i = dir i := by
  have hread := congrArg (fun l => l[i]?) (copied_read dir)
  rw [getElem?_read _ _ _ _ hi, getElem?_read _ _ _ _ hi, Nat.zero_add] at hread
  exact Option.some.inj hread

theorem copied_extent (dir : Record) : dir.copied.extent = dir.extent :=
  longAt_congr fun i hi => copied_byte dir (by unfold recordSize; omega)

theorem copied_size (dir : Record) : dir.copied.size = dir.size :=
  longAt_congr fun i hi => copied_byte dir (by unfold recordSize; omega)

/-- The look-up returns the extent of this record, and copies the record. -/
def Finds (env : Env) (dirRead : Record) (search : List UInt8) (reads : Nat) (e : Entry) : Prop :=
  ∃ d : Record,
    Fuel.Ends (fun fuel => (readDir env fuel dirRead search [] reads).map Prod.fst) (.ok (some d)) ∧
    d.extent = e.dir.extent ∧ read d 0 recordSize = e.bytes.take recordSize

/-- The look-up returns 0. -/
def Misses (env : Env) (dirRead : Record) (search : List UInt8) (reads : Nat) : Prop :=
  Fuel.Ends (fun fuel => (readDir env fuel dirRead search [] reads).map Prod.fst) (.ok none)

theorem finds_of_walk (hserves : env.Serves disc) (htree : Tree disc dirRead sectors) (hne : search ≠ [])
    (reads : Nat) {e : Entry} (h : walk [] search sectors.flatten = .found e) :
    Finds env dirRead search reads e := by
  have hends := readDir_walk hserves htree hne reads
  rw [h] at hends
  refine ⟨_, hends, copied_extent e.dir, ?_⟩
  · show read e.dir.copied 0 recordSize = _
    rw [copied_read]
    apply List.ext_getElem?
    intro i
    have hlong := e.long
    by_cases hi : i < recordSize
    · rw [getElem?_read _ _ _ _ hi, List.getElem?_take_of_lt hi, Nat.zero_add,
        List.getElem?_eq_getElem (hi.trans hlong)]
      exact congrArg some (List.getD_eq_getElem _ _ _)
    · rw [List.getElem?_eq_none (by rw [length_read]; omega),
        List.getElem?_eq_none (by rw [List.length_take]; omega)]

theorem walk_of_finds (hserves : env.Serves disc) (htree : Tree disc dirRead sectors) (hne : search ≠ [])
    {reads : Nat} {e : Entry} (h : Finds env dirRead search reads e) :
    ∃ e', walk [] search sectors.flatten = .found e' := by
  obtain ⟨d, hd, -, -⟩ := h
  have hresult := (readDir_walk hserves htree hne reads).unique hd
  cases hwalk : walk [] search sectors.flatten with
  | found e' => exact ⟨e', rfl⟩
  | missing =>
    rw [hwalk] at hresult
    cases hresult
  | overflow =>
    rw [hwalk] at hresult
    cases hresult

/-- **Looking up a path.**  What the path names is found, and 0 is returned where
it names nothing, exactly when no name that is built overflows and the path goes
through no directory with a name of a single character. -/
theorem readDir_iff (hserves : env.Serves disc) (htree : Tree disc dirRead sectors)
    (habsolute : search.head? = some 0x2f) (reads : Nat) :
    (∀ via e, Names sectors.flatten search via e → Finds env dirRead search reads e) ∧
      ((∀ via e, ¬ Names sectors.flatten search via e) → Misses env dirRead search reads) ↔
    (∀ name, Builds [] search sectors.flatten name → name.length < nameBuffer) ∧
      ∀ via e, Names sectors.flatten search via e → ∀ d ∈ via, d.dir.nameLen ≠ 1 := by
  have hne : search ≠ [] := by
    rintro rfl
    cases habsolute
  have hends := readDir_walk hserves htree hne reads
  have hfits : (∀ name, Builds [] search sectors.flatten name → name.length < nameBuffer) ↔
      walk [] search sectors.flatten ≠ .overflow := by
    rw [ne_eq, walk_overflow]
    simp only [not_exists, not_and, Nat.not_le]
  rw [hfits]
  constructor
  · rintro ⟨hfinds, hmisses⟩
    have hwalk : walk [] search sectors.flatten ≠ .overflow := by
      intro hoverflow
      by_cases hnames : ∃ via e, Names sectors.flatten search via e
      · obtain ⟨via, e, hnames⟩ := hnames
        obtain ⟨e', he'⟩ := walk_of_finds hserves htree hne (hfinds via e hnames)
        rw [hoverflow] at he'
        cases he'
      · have hnone := hmisses fun via e h => hnames ⟨via, e, h⟩
        rw [hoverflow] at hends
        cases hends.unique hnone
    refine ⟨hwalk, fun via e hnames => ?_⟩
    obtain ⟨e', he'⟩ := walk_of_finds hserves htree hne (hfinds via e hnames)
    obtain ⟨via', hnames', hlong⟩ := walk_sound he'
    obtain ⟨rfl, -⟩ := names_unique htree.unique htree.wellFormed hnames hnames'
    exact hlong
  · rintro ⟨hwalk, hlong⟩
    constructor
    · intro via e hnames
      have hfound := (walk_complete [] htree.unique htree.wellFormed hnames
        (hlong via e hnames)).resolve_right hwalk
      exact finds_of_walk hserves htree hne reads hfound
    · intro hnone
      cases hresult : walk [] search sectors.flatten with
      | found e =>
        obtain ⟨via, hnames, -⟩ := walk_sound hresult
        exact absurd hnames (hnone via e)
      | missing =>
        rw [hresult] at hends
        exact hends
      | overflow => exact absurd hresult hwalk

end

/-- A record with this extent, of one sector, these flags and this name. -/
def recordBytes (extent flags : UInt8) (name : List UInt8) : List UInt8 :=
  [UInt8.ofNat (33 + name.length), 0, extent, 0, 0, 0, 0, 0, 0, 0, 0, 8, 0, 0] ++
    List.replicate 11 0 ++ flags :: List.replicate 6 0 ++ UInt8.ofNat name.length :: name

def fileC : Entry := ⟨recordBytes 22 0 (chars ['C', ';', '1']), by decide, by decide, by decide⟩
def directoryAB : Entry := ⟨recordBytes 21 2 (chars ['A', 'B']), by decide, by decide, by decide⟩
def directoryA : Entry := ⟨recordBytes 21 2 (chars ['A']), by decide, by decide, by decide⟩

/-- A root directory at block 20 with one directory at block 21 that holds a file. -/
def smallSectors (d : Entry) : List (List Node) := [[.directory d [[.file fileC]]]]

def smallDisc (d : Entry) (block : UInt32) : List UInt8 :=
  if block = 20 then sectorBytes [.directory d [[.file fileC]]] else sectorBytes [.file fileC]

def smallRoot : Record := fun i => (recordBytes 20 2 [0]).getD i 0

def smallEnv (d : Entry) : Env := ⟨fun _ block => (0, smallDisc d block), fun _ _ => some fun _ => 0⟩

theorem smallEnv_serves (d : Entry) : (smallEnv d).Serves (smallDisc d) :=
  ⟨fun _ _ => rfl, fun _ _ => ⟨_, rfl⟩⟩

theorem smallDisc_tree {d : Entry} (hname : Named d) (hflags : d.dir.flags &&& isDir ≠ 0)
    (hextent : d.dir.extent = 21) (hsize : d.dir.size.toNat = 2048) (hlen : d.bytes.length ≤ 2048) :
    Tree (smallDisc d) smallRoot (smallSectors d) := by
  have hfile : WellFormed (smallDisc d) (.file fileC) :=
    .file ⟨by decide, by decide⟩ (by decide)
  have hone : ∀ {s : List Node} {i : Nat} {t : List Node}, [s][i]? = some t → i = 0 ∧ s = t := by
    intro s i t h
    cases i with
    | zero => exact ⟨rfl, Option.some.inj h⟩
    | succ i => cases h
  have hlower : Holds (smallDisc d) d.dir [[.file fileC]] := by
    refine ⟨hsize, by decide, fun i s hs => ?_⟩
    obtain ⟨rfl, rfl⟩ := hone hs
    rw [hextent]
    rfl
  have hdirectory : WellFormed (smallDisc d) (.directory d [[.file fileC]]) := by
    refine .directory hname hflags hlower (List.nodup_singleton _) fun n hn => ?_
    rw [List.mem_singleton.1 hn]
    exact hfile
  have hsize : smallRoot.size.toNat = 1 * isoBlockSize := by decide
  refine ⟨⟨hsize, ?_, fun i s hs => ?_⟩, List.nodup_singleton _, fun n hn => ?_⟩
  · intro s hs
    have hrecords : records [.directory d [[.file fileC]]] = d.bytes := by simp [records, Node.entry]
    rw [List.mem_singleton.1 hs, hrecords]
    exact hlen
  · obtain ⟨rfl, rfl⟩ := hone hs
    rfl
  · rw [List.mem_singleton.1 hn]
    exact hdirectory

theorem names_small (d : Entry) :
    Names (smallSectors d).flatten (d.component ++ fileC.component) [d] fileC :=
  .inside (n := .directory d [[.file fileC]]) (List.mem_singleton_self _) rfl
    (.here (n := .file fileC) (List.mem_singleton_self _) rfl)

/-- The file "/ab/c". -/
theorem readDir_iff_ab :
    Finds (smallEnv directoryAB) smallRoot (chars "/ab/c".toList) 0 fileC := by
  have htree : Tree (smallDisc directoryAB) smallRoot (smallSectors directoryAB) :=
    smallDisc_tree ⟨by decide, by decide⟩ (by decide) (by decide) (by decide) (by decide)
  have hnames := names_small directoryAB
  have hpath : directoryAB.component ++ fileC.component = chars "/ab/c".toList := by decide
  rw [hpath] at hnames
  refine ((readDir_iff (smallEnv_serves directoryAB) htree rfl 0).2 ⟨fun name hbuilds => ?_,
    fun via e hvia d hd => ?_⟩).1 _ _ hnames
  · cases hbuilds with
    | here => decide
    | inside _ hinside =>
      cases hinside with
      | here => decide
      | inside hentered => cases hentered.1
      | next _ _ hnext => cases hnext
    | next _ _ hnext => cases hnext
  · obtain ⟨rfl, -⟩ := names_unique htree.unique htree.wellFormed hvia hnames
    rw [List.mem_singleton.1 hd]
    decide

/-- The file "/a/c": the directory "A" is not entered. -/
theorem directory_of_one_character :
    ¬ ∀ (env : Env) (disc : UInt32 → List UInt8) (dirRead : Record) (sectors : List (List Node))
        (search : List UInt8) (reads : Nat), env.Serves disc → Tree disc dirRead sectors →
      search.head? = some 0x2f → search.length < 1024 →
      (∀ via e, Names sectors.flatten search via e → Finds env dirRead search reads e) ∧
        ((∀ via e, ¬ Names sectors.flatten search via e) → Misses env dirRead search reads) := by
  intro h
  have htree : Tree (smallDisc directoryA) smallRoot (smallSectors directoryA) :=
    smallDisc_tree ⟨by decide, by decide⟩ (by decide) (by decide) (by decide) (by decide)
  have hnames := names_small directoryA
  have hpath : directoryA.component ++ fileC.component = chars "/a/c".toList := by decide
  rw [hpath] at hnames
  have hfinds := (h _ _ _ _ _ 0 (smallEnv_serves directoryA) htree rfl (by decide)).1 _ _ hnames
  obtain ⟨e, he⟩ := walk_of_finds (smallEnv_serves directoryA) htree (by decide) hfinds
  obtain ⟨via, hvia, hlong⟩ := walk_sound he
  obtain ⟨rfl, -⟩ := names_unique htree.unique htree.wellFormed hnames hvia
  exact absurd (hlong _ (List.mem_singleton_self _)) (by decide)

end Gentoox.Iso
