import GentooxLoader.Iso.Search

/-!
# The bytes of a file (fs/cdrom/iso9660.c)

`read_file` stores whole blocks, at least one, and one more than needed where the
length is a larger multiple of a block (`needed`).  The length is the size of the
file if that is less than the maximum; otherwise it is the word that the maximum,
as an address, points to.

    bootIso9660GetFile_iff   when the call returns the file, or the part of it
                             that the maximum lets through
-/

namespace Gentoox.Iso

open Cells Lib

/-! ## The length in blocks -/

/-- What is stored for a length of `size`. -/
def needed (size : Nat) : Nat := if size ≤ 2048 then 2048 else (size / 2048 + 1) * 2048

theorem size_le_needed (size : Nat) : size ≤ needed size := by
  unfold needed
  split <;> omega

theorem needed_whole (size : Nat) : needed size % 2048 = 0 := by
  unfold needed
  split <;> omega

theorem rounded_toNat (size : UInt32) : (rounded size).toNat = needed size.toNat % 2 ^ 32 := by
  unfold rounded needed
  by_cases h : size.toNat ≤ 2048
  · rw [if_pos h, if_pos (show size ≤ 2048 from h)]
    rfl
  · have hmod : (size % 2048).toNat = size.toNat % 2048 := UInt32.toNat_mod ..
    have hsub : (2048 - size % 2048).toNat = 2048 - size.toNat % 2048 := by
      rw [UInt32.toNat_sub_of_le _ _ (by rw [UInt32.le_iff_toNat_le, hmod]; show _ ≤ 2048; omega),
        hmod]
      rfl
    rw [if_neg h, if_neg (show ¬ size ≤ 2048 from h), UInt32.toNat_add, hsub]
    omega

theorem rounded_blocks (size : UInt32) :
    (rounded size >>> 11).toNat * isoBlockSize = (rounded size).toNat := by
  have hround := rounded_toNat size
  have hwhole := needed_whole size.toNat
  rw [UInt32.toNat_shiftRight]
  show (rounded size).toNat >>> (11 % 32) * 2048 = _
  rw [Nat.shiftRight_eq_div_pow]
  show (rounded size).toNat / 2048 * 2048 = _
  omega

/-! ## The bytes that are stored -/

/-- A byte of the file whose blocks start at `extent`. -/
def fileByte (disc : UInt32 → List UInt8) (extent : UInt32) (i : Nat) : UInt8 :=
  (disc (extent + UInt32.ofNat (i / isoBlockSize))).getD (i % isoBlockSize) 0

section
variable {env : Env} {disc : UInt32 → List UInt8} (hserves : env.Serves disc)

theorem fileByte_succ (disc : UInt32 → List UInt8) (extent : UInt32) (i : Nat) :
    fileByte disc (extent + 1) i = fileByte disc extent (isoBlockSize + i) := by
  unfold fileByte
  rw [Nat.add_mod_left, Nat.add_div_left _ (by decide), UInt32.ofNat_add,
    UInt32.add_assoc, UInt32.add_comm 1]
  rfl

include hserves

theorem block_apply (reads : Nat) (offset : UInt32) (i : Nat) :
    env.block reads offset i = (disc offset).getD i 0 := by
  unfold Env.block
  rw [hserves.sector]
  simp only [write, Nat.zero_le, if_true, Nat.sub_zero, List.getD_eq_getElem?_getD]

/-- **The file is stored**, as far as its blocks are whole ones. -/
theorem fileLoop_bytes {readSize : UInt32} (buffer : Nat) : ∀ {n i : Nat},
    (i + n) * isoBlockSize ≤ readSize.toNat → ∀ (offset : UInt32) (ram : Nat → UInt8) (reads k : Nat),
      k < n * isoBlockSize → (fileLoop env readSize buffer n offset i ram reads).1
        (buffer + i * isoBlockSize + k) = fileByte disc offset k := by
  intro n
  induction n with
  | zero =>
    intro i _ offset ram reads k hk
    rw [Nat.zero_mul] at hk
    omega
  | succ n ih =>
    intro i hle offset ram reads k hk
    have hlt := readSize.toNat_lt
    have hlast : ¬ UInt32.ofNat ((i + 1) * isoBlockSize) > readSize := by
      rw [gt_iff_lt, UInt32.lt_iff_toNat_lt, UInt32.toNat_ofNat']
      unfold isoBlockSize at hle ⊢
      omega
    rw [fileLoop]
    simp only [if_neg hlast]
    by_cases hfirst : k < isoBlockSize
    · rw [fileLoop_below _ _ _ _ _ _ _ (by unfold isoBlockSize at hfirst ⊢; omega)]
      unfold copy
      rw [write_apply _ _ _ _ (by rw [length_read]; exact hfirst), getElem_read, Nat.zero_add]
      have hblock := block_apply hserves reads offset k
      unfold Env.block at hblock
      unfold fileByte
      rw [hblock, Nat.div_eq_of_lt hfirst, Nat.mod_eq_of_lt hfirst]
      rw [show offset + UInt32.ofNat 0 = offset from UInt32.add_zero offset]
    · have hplace : buffer + (i + 1) * isoBlockSize + (k - isoBlockSize) =
          buffer + i * isoBlockSize + k := by
        rw [Nat.succ_mul]
        omega
      have hk' : k - isoBlockSize < n * isoBlockSize := by
        rw [Nat.succ_mul] at hk
        omega
      have hle' : (i + 1 + n) * isoBlockSize ≤ readSize.toNat := by
        rw [show i + 1 + n = i + (n + 1) by omega]
        exact hle
      have hnext := fun ram reads => ih hle' (offset + 1) ram reads _ hk'
      rw [hplace, fileByte_succ, Nat.add_sub_cancel' (Nat.not_lt.1 hfirst)] at hnext
      exact hnext _ _

/-- Which reads they are makes no difference. -/
theorem fileLoop_reads (readSize : UInt32) (buffer : Nat) : ∀ (n : Nat) (offset : UInt32) (i : Nat)
    (ram : Nat → UInt8) (reads reads' : Nat), (fileLoop env readSize buffer n offset i ram reads).1 =
      (fileLoop env readSize buffer n offset i ram reads').1 := by
  intro n
  induction n with
  | zero =>
    intro offset i ram reads reads'
    rfl
  | succ n ih =>
    intro offset i ram reads reads'
    rw [fileLoop, fileLoop, hserves.sector, hserves.sector]
    exact ih _ _ _ _ _

end

/-! ## A call -/

/-- The record of the root directory, in the primary descriptor. -/
def rootRecord (disc : UInt32 → List UInt8) : Record := fun i => write (fun _ => 0) 0 (disc 16) (156 + i)

/-- The drive holds a disc with this tree. -/
structure Mounted (env : Env) (disc : UInt32 → List UInt8) (sectors : List (List Node)) : Prop where
  serves : env.Serves disc
  tree : Tree disc (rootRecord disc) sectors

/-- What a call gives, by the outcome of the walk. -/
def Outcome.call (env : Env) (pbaFile : Nat) (max : UInt32) (ram : Nat → UInt8) :
    Outcome → Option (Int × (Nat → UInt8))
  | .found e =>
    if e.dir.extent > 0 then
      some (signed (bytesRead e.dir.size max ram), (readFile env e.dir pbaFile max ram 0).2.1)
    else some (-1, ram)
  | .missing => some (-1, ram)
  | .overflow => none

section
variable {env : Env} {disc : UInt32 → List UInt8} {sectors : List (List Node)} {path : List UInt8}

theorem readFile_copied (h : env.Serves disc) (dir : Record) (pbaFile : Nat) (max : UInt32)
    (ram : Nat → UInt8) (reads : Nat) : (readFile env dir.copied pbaFile max ram reads).2.1 =
      (readFile env dir pbaFile max ram 0).2.1 := by
  unfold readFile
  rw [copied_size, copied_extent]
  exact fileLoop_reads h _ _ _ _ _ _ _ _

section
variable {fuel reads : Nat} (hserves : env.Serves disc)

include hserves

theorem lookUp_error {f : Fault}
    (h : readDir env fuel (rootRecord disc) path [] (reads + 1) = .error f) :
    lookUp env fuel path reads = none := by
  unfold rootRecord at h
  unfold lookUp
  rw [hserves.sector]
  simp only [ne_eq, not_true_eq_false, if_false, h]

theorem lookUp_ok {dir : Option Record} {reads' : Nat}
    (h : readDir env fuel (rootRecord disc) path [] (reads + 1) = .ok (dir, reads')) :
    lookUp env fuel path reads = some (dir.filter fun dir => dir.extent > 0, reads') := by
  unfold rootRecord at h
  unfold lookUp
  rw [hserves.sector]
  simp only [ne_eq, not_true_eq_false, if_false, h]

end

/-- The call, by the result of the look-up. -/
theorem call_none {fuel : Nat} {pbaFile : Nat} {max : UInt32} {ram : Nat → UInt8} {reads reads' : Nat}
    (h : lookUp env fuel path reads = some (none, reads')) :
    (bootIso9660GetFile env fuel path pbaFile max ram reads).map (fun r => (r.1, r.2.1)) =
      some (-1, ram) := by
  unfold bootIso9660GetFile
  rw [h]
  rfl

theorem map_signedFirst (file : UInt32 × (Nat → UInt8) × Nat) :
    (some (signed file.1, file.2.1, file.2.2)).map (fun r => (r.1, r.2.1)) =
      some (signed file.1, file.2.1) := rfl

theorem call_some {fuel : Nat} {pbaFile : Nat} {max : UInt32} {ram : Nat → UInt8} {reads reads' : Nat}
    {dir : Record} (h : lookUp env fuel path reads = some (some dir, reads')) :
    (bootIso9660GetFile env fuel path pbaFile max ram reads).map (fun r => (r.1, r.2.1)) =
      some (signed (bytesRead dir.size max ram), (readFile env dir pbaFile max ram reads').2.1) := by
  rw [← readFile_bytes env dir pbaFile max ram reads']
  unfold bootIso9660GetFile
  rw [h]
  exact map_signedFirst (readFile env dir pbaFile max ram reads')

theorem call_fault {fuel : Nat} {pbaFile : Nat} {max : UInt32} {ram : Nat → UInt8} {reads : Nat}
    (h : lookUp env fuel path reads = none) :
    (bootIso9660GetFile env fuel path pbaFile max ram reads).map (fun r => (r.1, r.2.1)) = none := by
  unfold bootIso9660GetFile
  rw [h]
  rfl

theorem filter_found {dir : Record} {extent : UInt32} (h : dir.extent = extent) :
    (some dir).filter (fun dir => dir.extent > 0) = if extent > 0 then some dir else none := by
  rw [Option.filter_some, h]
  simp only [decide_eq_true_eq]

/-- **The call on a disc with a tree.** -/
theorem call_ends (h : Mounted env disc sectors) (hne : path ≠ []) (pbaFile : Nat) (max : UInt32)
    (ram : Nat → UInt8) (reads : Nat) :
    Fuel.Ends (fun fuel => (bootIso9660GetFile env fuel path pbaFile max ram reads).map
      fun r => (r.1, r.2.1)) ((walk [] path sectors.flatten).call env pbaFile max ram) := by
  obtain ⟨n, hn⟩ := readDir_walk h.serves h.tree hne (reads + 1)
  refine ⟨n, fun fuel hfuel => ?_⟩
  have hdir := hn fuel hfuel
  simp only at hdir ⊢
  cases hread : readDir env fuel (rootRecord disc) path [] (reads + 1) with
  | error f =>
    rw [hread] at hdir
    rw [call_fault (lookUp_error h.serves hread)]
    cases hwalk : walk [] path sectors.flatten with
    | overflow => rfl
    | found e =>
      rw [hwalk] at hdir
      cases hdir
    | missing =>
      rw [hwalk] at hdir
      cases hdir
  | ok r =>
    obtain ⟨dir, reads'⟩ := r
    rw [hread] at hdir
    have hlook := lookUp_ok h.serves hread
    cases hwalk : walk [] path sectors.flatten with
    | overflow =>
      rw [hwalk] at hdir
      cases hdir
    | missing =>
      rw [hwalk] at hdir
      obtain rfl : dir = none := Except.ok.inj hdir
      exact call_none hlook
    | found e =>
      rw [hwalk] at hdir
      obtain rfl : dir = some e.dir.copied := Except.ok.inj hdir
      rw [filter_found (copied_extent e.dir)] at hlook
      rw [Outcome.call]
      by_cases hext : e.dir.extent > 0
      · rw [if_pos hext] at hlook ⊢
        rw [call_some hlook, readFile_copied h.serves, copied_size]
      · rw [if_neg hext] at hlook ⊢
        exact call_none hlook

/-- What `read_file` stores are the bytes of the file. -/
theorem readFile_stored (hserves : env.Serves disc) (dir : Record) (pbaFile : Nat) {max : UInt32}
    {ram : Nat → UInt8} (hlen : (bytesRead dir.size max ram).toNat < 2 ^ 31) (reads : Nat) {k : Nat}
    (hk : k < (bytesRead dir.size max ram).toNat) :
    (readFile env dir pbaFile max ram reads).2.1 (pbaFile + k) = fileByte disc dir.extent k := by
  have hround := rounded_toNat (bytesRead dir.size max ram)
  have hblocks := rounded_blocks (bytesRead dir.size max ram)
  have hle := size_le_needed (bytesRead dir.size max ram).toNat
  have hneeded : needed (bytesRead dir.size max ram).toNat < 2 ^ 32 := by
    unfold needed
    split <;> omega
  have hram : (readFile env dir pbaFile max ram reads).2.1 =
      (fileLoop env (rounded (bytesRead dir.size max ram)) pbaFile
        (rounded (bytesRead dir.size max ram) >>> 11).toNat dir.extent 0 ram reads).1 := rfl
  rw [hram]
  generalize bytesRead dir.size max ram = size at *
  rw [Nat.mod_eq_of_lt hneeded] at hround
  have hbytes := fileLoop_bytes hserves pbaFile (n := (rounded size >>> 11).toNat) (i := 0)
    (by rw [Nat.zero_add, hblocks]) dir.extent ram reads k (by rw [hblocks]; omega)
  rwa [Nat.zero_mul, Nat.add_zero] at hbytes

/-- What is returned for a file of `size` bytes is the lesser of the two. -/
def Measured (size max : UInt32) (ram : Nat → UInt8) : Prop :=
  size < max ∧ size.toNat < 2 ^ 31 ∨ max ≤ size ∧ max.toNat < 2 ^ 31 ∧ longAt ram max.toNat = max

instance (size max : UInt32) (ram : Nat → UInt8) : Decidable (Measured size max ram) :=
  inferInstanceAs (Decidable (_ ∨ _))

theorem signed_eq_iff (x : UInt32) (k : Nat) : signed x = k ↔ x.toNat = k ∧ k < 2 ^ 31 := by
  have hx := x.toNat_lt
  unfold signed
  split <;> omega

theorem measured_iff (size max : UInt32) (ram : Nat → UInt8) :
    signed (bytesRead size max ram) = (min size.toNat max.toNat : Nat) ↔ Measured size max ram := by
  rw [signed_eq_iff]
  unfold bytesRead Measured
  rw [UInt32.lt_iff_toNat_lt, UInt32.le_iff_toNat_le]
  by_cases h : max > size
  · have hlt : size.toNat < max.toNat := h
    rw [if_pos h, Nat.min_eq_left (Nat.le_of_lt hlt)]
    omega
  · have hge : max.toNat ≤ size.toNat := Nat.not_lt.1 h
    rw [if_neg h, Nat.min_eq_right hge, UInt32.toNat_inj]
    constructor
    · rintro ⟨hword, hlt⟩
      exact Or.inr ⟨hge, hlt, hword⟩
    · rintro (⟨hlt, -⟩ | ⟨-, hlt, hword⟩)
      · omega
      · exact ⟨hword, hlt⟩

/-! ## Top theorem -/

/-- The call returns the length of what the maximum lets through, and that is
what is in the buffer. -/
def ReadsFile (env : Env) (disc : UInt32 → List UInt8) (path : List UInt8) (pbaFile : Nat)
    (max : UInt32) (ram : Nat → UInt8) (reads : Nat) (e : Entry) : Prop :=
  ∃ ram' : Nat → UInt8,
    Fuel.Ends (fun fuel => (bootIso9660GetFile env fuel path pbaFile max ram reads).map
      fun r => (r.1, r.2.1)) (some (((min e.dir.size.toNat max.toNat : Nat) : Int), ram')) ∧
    ∀ i, i < min e.dir.size.toNat max.toNat → ram' (pbaFile + i) = fileByte disc e.dir.extent i

/-- The look-up gets to what the path names: nothing overflows on the way, and no
directory has a name of a single character. -/
def Reached (path : List UInt8) (sectors : List (List Node)) (via : List Entry) : Prop :=
  (∀ name, Builds [] path sectors.flatten name → name.length < nameBuffer) ∧
    ∀ d ∈ via, d.dir.nameLen ≠ 1

theorem names_ne_nil {nodes : List Node} {via : List Entry} {e : Entry} (h : Names nodes path via e) :
    path ≠ [] := by
  cases h with
  | here => exact List.cons_ne_nil _ _
  | inside => exact List.cons_ne_nil _ _

/-- The look-up gets there exactly if the walk does. -/
theorem walk_found_iff (h : Mounted env disc sectors) {via : List Entry} {e : Entry}
    (hnames : Names sectors.flatten path via e) :
    walk [] path sectors.flatten = .found e ↔ Reached path sectors via := by
  have hfits : (∀ name, Builds [] path sectors.flatten name → name.length < nameBuffer) ↔
      walk [] path sectors.flatten ≠ .overflow := by
    rw [ne_eq, walk_overflow]
    simp only [not_exists, not_and, Nat.not_le]
  unfold Reached
  rw [hfits]
  constructor
  · intro hwalk
    obtain ⟨via', hnames', hlong⟩ := walk_sound hwalk
    obtain ⟨rfl, -⟩ := names_unique h.tree.unique h.tree.wellFormed hnames hnames'
    refine ⟨?_, hlong⟩
    rw [hwalk]
    rintro ⟨⟩
  · rintro ⟨hwalk, hlong⟩
    exact (walk_complete [] h.tree.unique h.tree.wellFormed hnames hlong).resolve_right hwalk

theorem readsFile_iff (h : Mounted env disc sectors) {via : List Entry} {e : Entry}
    (hnames : Names sectors.flatten path via e) (pbaFile : Nat) (max : UInt32) (ram : Nat → UInt8)
    (reads : Nat) : ReadsFile env disc path pbaFile max ram reads e ↔
      Reached path sectors via ∧ 0 < e.dir.extent ∧ Measured e.dir.size max ram := by
  have hends := call_ends h (names_ne_nil hnames) pbaFile max ram reads
  rw [← walk_found_iff h hnames, ← measured_iff]
  constructor
  · rintro ⟨ram', hread, -⟩
    have hcall := hends.unique hread
    cases hwalk : walk [] path sectors.flatten with
    | overflow =>
      rw [hwalk] at hcall
      cases hcall
    | missing =>
      rw [hwalk] at hcall
      have := congrArg Prod.fst (Option.some.inj hcall)
      simp only at this
      omega
    | found e' =>
      obtain ⟨via', hnames', -⟩ := walk_sound hwalk
      obtain ⟨-, rfl⟩ := names_unique h.tree.unique h.tree.wellFormed hnames hnames'
      rw [hwalk, Outcome.call] at hcall
      by_cases hext : e.dir.extent > 0
      · rw [if_pos hext] at hcall
        exact ⟨rfl, hext, congrArg Prod.fst (Option.some.inj hcall)⟩
      · rw [if_neg hext] at hcall
        have := congrArg Prod.fst (Option.some.inj hcall)
        simp only at this
        omega
  · rintro ⟨hwalk, hext, hlen⟩
    rw [hwalk, Outcome.call, if_pos hext, hlen] at hends
    refine ⟨_, hends, fun i hi => ?_⟩
    obtain ⟨hsize, hlt⟩ := (signed_eq_iff _ _).1 hlen
    exact readFile_stored h.serves e.dir pbaFile (by omega) 0 (by omega)

/-- **Reading a file.**  The file is there and its length returned exactly when the
look-up gets to it, its extent is not 0, and it is shorter than the maximum, or the
maximum, as an address, points to itself; lengths from 2^31 on are no `int`. -/
theorem bootIso9660GetFile_iff (h : Mounted env disc sectors) {via : List Entry} {e : Entry}
    (hnames : Names sectors.flatten path via e) (pbaFile : Nat) (max : UInt32) (ram : Nat → UInt8)
    (reads : Nat) : ReadsFile env disc path pbaFile max ram reads e ↔
      Reached path sectors via ∧ 0 < e.dir.extent ∧ Measured e.dir.size max ram :=
  readsFile_iff h hnames pbaFile max ram reads

end

/-- A disc with the file "/c" of one block in its root directory. -/
def fileDisc (block : UInt32) : List UInt8 :=
  if block = 16 then List.replicate 156 0 ++ recordBytes 20 2 [0]
  else if block = 20 then sectorBytes [.file fileC] else List.replicate 2048 7

def fileEnv : Env := ⟨fun _ block => (0, fileDisc block), fun _ _ => some fun _ => 0⟩

theorem fileDisc_mounted : Mounted fileEnv fileDisc [[.file fileC]] where
  serves := ⟨fun _ _ => rfl, fun _ _ => ⟨_, rfl⟩⟩
  tree := by
    have hextent : (rootRecord fileDisc).extent = 20 := by decide +kernel
    refine ⟨⟨by decide +kernel, ?_, ?_⟩, List.nodup_singleton _, ?_⟩
    · intro s hs
      rw [List.mem_singleton.1 hs]
      decide
    · intro i s hs
      cases i with
      | zero =>
        rw [hextent, ← Option.some.inj hs]
        rfl
      | succ i => cases hs
    · intro n hn
      rw [List.mem_singleton.1 hn]
      exact .file ⟨by decide, by decide⟩ (by decide)

theorem names_c : Names [[Node.file fileC]].flatten (chars ['/', 'c']) [] fileC :=
  .here (n := .file fileC) (List.mem_singleton_self _) rfl

theorem reached_c : Reached (chars ['/', 'c']) [[Node.file fileC]] [] := by
  refine ⟨fun name hbuilds => ?_, fun d hd => by cases hd⟩
  cases hbuilds with
  | here => decide
  | inside hentered _ => cases hentered.1
  | next _ _ hnext => cases hnext

theorem bootIso9660GetFile_iff_c :
    ReadsFile fileEnv fileDisc (chars ['/', 'c']) 0 2049 (fun _ => 0) 0 fileC :=
  (bootIso9660GetFile_iff fileDisc_mounted names_c 0 2049 (fun _ => 0) 0).2
    ⟨reached_c, by decide, .inl (by decide)⟩

/-- 16 bytes of a file of 2048: the length is taken from address 16. -/
theorem maximum_is_dereferenced : ¬ ∀ env disc sectors path via e pbaFile max ram reads,
    Mounted env disc sectors → Names sectors.flatten path via e →
      ReadsFile env disc path pbaFile max ram reads e := by
  intro h
  have hread := h _ _ _ _ _ _ 0 16 (fun _ => 0) 0 fileDisc_mounted names_c
  obtain ⟨-, -, hlen⟩ := (readsFile_iff fileDisc_mounted names_c _ _ _ _).1 hread
  exact absurd hlen (by decide)

end Gentoox.Iso
