import Mathlib.Data.List.TakeWhile
import GentooxLoader.Base.Cells
import GentooxLoader.Base.Words
import GentooxLoader.Lib.Strings
import GentooxLoader.MemoryLayout

/-!
# The command line of a kernel from the network (etherboot/arch/i386/core/xbox.c)

`xstart32` copies the parameter segment of the image into `appendLine`, 512 bytes
on the stack, and puts the option behind it that `find_cmdline` finds in the
vendor area of the BOOTP reply.  The length of the option goes through a `char`.
Without a parameter segment nothing is stored in `appendLine` before `strlen`
looks at it.

    findCmdline_option   what is found is an option of the vendor area, and not empty
    strlen_params        with a segment `strlen` counts the characters of its text
    clip_params          then the length that is kept is right ↔ the option has at most
                         127 bytes and the text at most 510
    clip_stale           without one it also depends on what was on the stack
    xstart32_builds_iff  when the command line is what it is meant to be
-/

namespace Gentoox.Boot

open Cells Lib Words

/-! ## Algorithm -/

def rfc1533Cookie : List UInt8 := [99, 130, 83, 99]

def vendorextMagic : List UInt8 := [0xE4, 0x45, 0x74, 0x68]

/-- `RFC1533_VENDOR_MAGIC` and `RFC1533_VENDOR_ADDPARM`. -/
def vendorMagic : UInt8 := 128
def vendorAddparm : UInt8 := 129

section
variable (ram : Nat → UInt8) (endOfRfc1533 : Nat)

/-- The loop of `find_cmdline`: where the option is and the byte of its length. -/
def findFrom (p vendorextIsvalid : Nat) : Option (Nat × UInt8) :=
  if p < endOfRfc1533 then
    let c := ram p
    let tagLen := ram (p + 1)
    if c = 0 then findFrom (p + 1) vendorextIsvalid
    else if c = vendorMagic ∧ 6 ≤ tagLen ∧ read ram (p + 2) 4 = vendorextMagic ∧
        ram (p + 6) = 0 then
      findFrom (p + tagLen.toNat + 2) (vendorextIsvalid + 1)
    else if c = vendorAddparm ∧ 0 < tagLen ∧ vendorextIsvalid ≠ 0 then some (p + 2, tagLen)
    else findFrom (p + tagLen.toNat + 2) vendorextIsvalid
  else none
termination_by endOfRfc1533 - p

def findCmdline (p : Nat) : Option (Nat × UInt8) :=
  if read ram p 4 = rfc1533Cookie then findFrom ram endOfRfc1533 (p + 4) 0 else none

end

/-- A program header. -/
structure Phdr where
  paddr : Nat
  filesz : UInt32

/-- The header of the image that was loaded, with its `e_phnum` program headers. -/
structure Header where
  magic : UInt32
  phdrs : List Phdr

def elfMagic : UInt32 := 0x464C457F

def sParams : Nat := 1
def sRamdisk : Nat := 5
def sEnd : Nat := 7

/-- `seg` is static: what an image does not have stays from the one before. -/
def locateElfSegs (phdrs : List Phdr) (seg : Nat → Option Phdr) : Nat → Option Phdr :=
  fun i => if i < sEnd ∧ i < phdrs.length then phdrs[i]? else seg i

def maxAppendLineLength : Nat := 512

/-- The stack from `appendLine` on, by the distance from its first byte, and how
many bytes there are up to the end of the memory. -/
structure Stack where
  bytes : Nat → UInt8
  left : Nat
  room : maxAppendLineLength ≤ left

/-- `none` when there is no NUL in the `n` bytes. -/
def strlenFrom (m : Nat → UInt8) : Nat → Nat → Option Nat
  | 0, _ => none
  | n + 1, a => if m a = 0 then some 0 else (strlenFrom m n (a + 1)).map (· + 1)

/-- `strlen(appendLine)` -/
def strlenLine (m : Nat → UInt8) (left : Nat) : Option Nat := strlenFrom m left 0

/-- Store a list at a distance that may be negative. -/
def storeAt (m : Nat → UInt8) (s : Int × List UInt8) : Nat → UInt8 :=
  fun i => if s.1 ≤ i then (s.2[(i - s.1).toNat]?).getD (m i) else m i

/-- The length as it is kept in the `char`. -/
def clip (oldLength : Int) (length : UInt8) : UInt8 :=
  if long (oldLength + charInt length) > maxAppendLineLength - 2 then
    UInt8.ofInt (maxAppendLineLength - oldLength - 2)
  else length

/-- A `char` as a `size_t`. -/
def sizeT (c : UInt8) : Nat := (charInt c % 2 ^ 32).toNat

/-- A call of `startLinux`: the size of the initrd, the bytes of the option that were
copied, everything that was stored at `appendLine`, and what is there. -/
structure Started where
  initrdSize : UInt32
  copied : List UInt8
  stores : List (Int × List UInt8)
  line : Nat → UInt8

/-- The memory, and what does not come from the image. -/
structure World where
  ram : Nat → UInt8
  seg : Nat → Option Phdr
  endOfRfc1533 : Nat
  stack : Stack

section
variable (w : World) (header : Header)

/-- The program headers; those of an image that is no ELF are not looked at. -/
def World.segs : Nat → Option Phdr :=
  if header.magic = elfMagic then locateElfSegs header.phdrs w.seg else fun _ => none

def World.initrdSize : UInt32 :=
  match w.segs header sRamdisk with
  | some s => if s.paddr = 0 then 0 else s.filesz
  | none => 0

/-- The memory with the ramdisk in its place. -/
def World.placed : Nat → UInt8 :=
  match w.segs header sRamdisk with
  | some s =>
    if w.initrdSize header ≠ 0 then
      copy w.ram initrdStart.toNat w.ram s.paddr (w.initrdSize header).toNat
    else w.ram
  | none => w.ram

/-- What is stored of the parameter segment. -/
def World.paramStores : List (Int × List UInt8) :=
  match w.segs header sParams with
  | some s => [(0, read (w.placed header) s.paddr maxAppendLineLength),
      (maxAppendLineLength - 1, [0])]
  | none => []

/-- `appendLine` when `find_cmdline` is called. -/
def World.lineBefore : Nat → UInt8 := (w.paramStores header).foldl storeAt w.stack.bytes

/-- `appendLinePtr - appendLine` -/
def World.pointer : Option Nat :=
  match w.segs header sParams with
  | some _ => strlenLine (w.lineBefore header) w.stack.left
  | none => some 0

/-- The space, the option and the NUL. -/
def optionStores (ptr : Nat) (copied : List UInt8) (length : UInt8) : List (Int × List UInt8) :=
  let space := if ptr ≠ 0 then [((ptr : Int), [0x20])] else []
  let ptr := ptr + space.length
  space ++ [((ptr : Int), copied), (ptr + charInt length, [0])]

/-- `startLinux` after these stores. -/
def World.started (copied : List UInt8) (stores : List (Int × List UInt8)) : Started :=
  ⟨w.initrdSize header, copied, stores, stores.foldl storeAt w.stack.bytes⟩

/-- The option behind the text, with the length that is kept. -/
def World.withOption (ptr cmdline : Nat) (length : UInt8) : Started :=
  let copied := read (w.placed header) cmdline (sizeT length)
  w.started header copied (w.paramStores header ++ optionStores ptr copied length)

/-- `none` when `strlen` runs out of the memory, or Etherboot is restarted. -/
def xstart32 (header : Option Header) (bpVend : Option Nat) : Option Started :=
  match header, bpVend with
  | some header, some bpVend => do
    let ptr ← w.pointer header
    match findCmdline (w.placed header) w.endOfRfc1533 bpVend with
    | some (cmdline, length) =>
      let oldLength ← strlenLine (w.lineBefore header) w.stack.left
      return w.withOption header ptr cmdline (clip (long oldLength) length)
    | none => return w.started header [] (w.paramStores header ++ [((ptr : Int), [0])])
  | _, _ => none

end

/-! ## The search -/

theorem findFrom_option {ram : Nat → UInt8} {stop p valid cmdline : Nat} {length : UInt8}
    (h : findFrom ram stop p valid = some (cmdline, length)) :
    ∃ q, p ≤ q ∧ q < stop ∧ cmdline = q + 2 ∧ ram q = vendorAddparm ∧ ram (q + 1) = length ∧
      0 < length := by
  fun_induction findFrom ram stop p valid with
  | case1 p valid hp c hpad ih =>
    obtain ⟨q, hq, rest⟩ := ih h
    exact ⟨q, by omega, rest⟩
  | case2 p valid hp c tagLen hpad hmagic ih =>
    obtain ⟨q, hq, rest⟩ := ih h
    exact ⟨q, by omega, rest⟩
  | case3 p valid hp c tagLen hpad hmagic hparam =>
    rw [Option.some.injEq, Prod.mk.injEq] at h
    exact ⟨p, Nat.le_refl p, hp, h.1.symm, hparam.1, h.2, h.2 ▸ hparam.2.1⟩
  | case4 p valid hp c tagLen hpad hmagic hparam ih =>
    obtain ⟨q, hq, rest⟩ := ih h
    exact ⟨q, by omega, rest⟩
  | case5 => cases h

/-- The option starts between the cookie and the end of the vendor area, and its
length is the byte in front of it. -/
theorem findCmdline_option {ram : Nat → UInt8} {stop p cmdline : Nat} {length : UInt8}
    (h : findCmdline ram stop p = some (cmdline, length)) :
    ∃ q, p + 4 ≤ q ∧ q < stop ∧ cmdline = q + 2 ∧ ram q = vendorAddparm ∧ ram (q + 1) = length ∧
      0 < length := by
  unfold findCmdline at h
  split at h
  · exact findFrom_option h
  · cases h

/-! ## The length -/

theorem toNat_ofInt_byte (x : Int) : (UInt8.ofInt x).toNat = (x % 2 ^ 8).toNat := by
  show (UInt8.ofNat (x % 2 ^ 8).toNat).toNat = _
  rw [UInt8.toNat_ofNat']
  omega

theorem charInt_of_lt {c : UInt8} (h : c.toNat < 128) : charInt c = c.toNat := if_pos h

theorem charInt_of_ge {c : UInt8} (h : 128 ≤ c.toNat) : charInt c = c.toNat - 256 :=
  if_neg (by omega)

/-- A negative length is one of nearly 2^32 bytes. -/
theorem sizeT_eq_iff {c : UInt8} {k : Nat} (hk : k < 2 ^ 31) :
    sizeT c = k ↔ c.toNat = k ∧ k < 128 := by
  have hc := c.toNat_lt
  unfold sizeT
  by_cases hlt : c.toNat < 128
  · rw [charInt_of_lt hlt]
    omega
  · rw [charInt_of_ge (by omega)]
    omega

/-- Behind a text in `appendLine` the clip is right for the lengths that are no negative
`char`, as long as there is room for the space and the NUL. -/
theorem clip_params {b : Nat} {length : UInt8} (hb : b ≤ 511) :
    sizeT (clip (long b) length) = min length.toNat (510 - b) ↔ length.toNat < 128 ∧ b ≤ 510 := by
  have hlength := length.toNat_lt
  rw [sizeT_eq_iff (by omega), long_of_small (by omega) (by omega), clip]
  by_cases hlt : length.toNat < 128
  · rw [charInt_of_lt hlt, long_of_small (by omega) (by omega)]
    by_cases hclip : (b : Int) + length.toNat > maxAppendLineLength - 2
    · rw [if_pos hclip, toNat_ofInt_byte]
      unfold maxAppendLineLength at *
      omega
    · rw [if_neg hclip]
      unfold maxAppendLineLength at hclip
      omega
  · have hsum : ¬ long (b + charInt length) > maxAppendLineLength - 2 := by
      rw [charInt_of_ge (by omega), long_of_fits (by omega) (by omega)]
      unfold maxAppendLineLength
      omega
    rw [if_neg hsum]
    omega

/-- With nothing in front of the option, what `strlen` found decides about it. -/
theorem clip_stale {n : Nat} {length : UInt8} :
    sizeT (clip (long n) length) = length.toNat ↔ length.toNat < 128 ∧
      (long (n + length.toNat) ≤ 510 ∨ (n + length.toNat) % 256 = 254) := by
  have hlength := length.toNat_lt
  rw [sizeT_eq_iff (by omega), and_comm]
  refine and_congr_right fun hlt => ?_
  have hsum : long (long n + length.toNat) = long (n + length.toNat) := Int.bmod_add_bmod
  rw [clip, charInt_of_lt hlt, hsum]
  by_cases hclip : long (n + length.toNat) > maxAppendLineLength - 2
  · rw [if_pos hclip, toNat_ofInt_byte]
    have hmod : long n % 256 = n % 256 := long_emod n (by decide)
    unfold maxAppendLineLength at *
    omega
  · rw [if_neg hclip]
    unfold maxAppendLineLength at hclip
    omega

/-! ## The text of the segment -/

theorem storeAt_nat (m : Nat → UInt8) (a : Nat) (l : List UInt8) :
    storeAt m ((a : Int), l) = write m a l := by
  funext i
  unfold storeAt write
  simp only [Int.ofNat_le]
  congr 4
  omega

theorem cstr_cons (c : UInt8) (l : List UInt8) :
    cstr (c :: l) = if c = 0 then [] else c :: cstr l := by
  unfold cstr
  by_cases hc : c = 0 <;> simp [hc]

/-- A string ends at its first NUL. -/
theorem holds_cstr {m : Nat → UInt8} {l : List UInt8} :
    ∀ {a : Nat}, Holds m a (l ++ [0]) → Holds m a (cstr l ++ [0]) := by
  induction l with
  | nil => exact id
  | cons c l ih =>
    intro a h
    rw [List.cons_append, holds_cons] at h
    rw [cstr_cons]
    by_cases hc : c = 0
    · rw [if_pos hc]
      exact holds_cons.2 ⟨h.1.trans hc, rfl⟩
    · rw [if_neg hc]
      exact holds_cons.2 ⟨h.1, ih h.2⟩

theorem ne_zero_of_mem_cstr {l : List UInt8} {c : UInt8} (h : c ∈ cstr l) : c ≠ 0 := by
  simpa using List.mem_takeWhile_imp h

theorem strlenFrom_holds {m : Nat → UInt8} {t : List UInt8} :
    ∀ {a n : Nat}, Holds m a (t ++ [0]) → (∀ c ∈ t, c ≠ 0) → t.length < n →
      strlenFrom m n a = some t.length := by
  induction t with
  | nil =>
    intro a n h _ hn
    obtain ⟨k, rfl⟩ := Nat.exists_eq_add_of_lt hn
    rw [List.nil_append, holds_cons] at h
    exact if_pos h.1
  | cons c t ih =>
    intro a n h ht hn
    obtain ⟨k, rfl⟩ := Nat.exists_eq_add_of_lt hn
    rw [List.cons_append, holds_cons] at h
    have hc : m a ≠ 0 := h.1 ▸ ht c List.mem_cons_self
    have hrest := ih (n := (c :: t).length + k) h.2 (fun x hx => ht x (List.mem_cons_of_mem _ hx))
      (by rw [List.length_cons]; omega)
    unfold strlenFrom
    rw [if_neg hc, hrest]
    rfl

section
variable (w : World) (header : Header)

/-- The text of the parameter segment: it ends at a NUL or after 511 bytes. -/
def World.text : List UInt8 :=
  match w.segs header sParams with
  | some s => cstr (read (w.placed header) s.paddr (maxAppendLineLength - 1))
  | none => []

theorem text_ne_zero {c : UInt8} (h : c ∈ w.text header) : c ≠ 0 := by
  unfold World.text at h
  split at h
  · exact ne_zero_of_mem_cstr h
  · cases h

theorem text_length_le : (w.text header).length ≤ 511 := by
  unfold World.text
  split
  · refine Nat.le_trans (List.takeWhile_sublist _).length_le ?_
    rw [length_read]
    decide
  · exact Nat.zero_le _

variable {w header}

theorem lineBefore_params {s : Phdr} (h : w.segs header sParams = some s) :
    w.lineBefore header =
      write (write w.stack.bytes 0 (read (w.placed header) s.paddr 512)) 511 [0] := by
  unfold World.lineBefore World.paramStores
  rw [h]
  show storeAt (storeAt w.stack.bytes (((0 : Nat) : Int), _)) (((511 : Nat) : Int), [0]) = _
  rw [storeAt_nat, storeAt_nat]
  rfl

/-- The segment is copied in front of a NUL. -/
theorem holds_params {s : Phdr} (h : w.segs header sParams = some s) :
    Holds (w.lineBefore header) 0 (w.text header ++ [0]) := by
  unfold World.text
  rw [h, lineBefore_params h]
  apply holds_cstr
  have hsegment : Holds (write w.stack.bytes 0 (read (w.placed header) s.paddr 512)) 0
      (read (w.placed header) s.paddr 511) := by
    unfold Holds
    rw [length_read]
    exact read_copy (i := 0) (by decide)
  have hend := hsegment.write_behind [0]
  rwa [length_read] at hend

/-- `strlen` stops at the end of the text. -/
theorem strlen_params {s : Phdr} (h : w.segs header sParams = some s) :
    strlenLine (w.lineBefore header) w.stack.left = some (w.text header).length := by
  have hroom : 512 ≤ w.stack.left := w.stack.room
  have hle := text_length_le w header
  exact strlenFrom_holds (holds_params h) (fun c hc => text_ne_zero w header hc) (by omega)

/-- `appendLinePtr` is behind the text, and only the text is in front of it. -/
theorem pointer_eq : w.pointer header = some (w.text header).length := by
  cases h : w.segs header sParams with
  | some s =>
    unfold World.pointer
    rw [h]
    exact strlen_params h
  | none =>
    unfold World.pointer World.text
    rw [h]
    rfl

theorem holds_text : Holds (w.lineBefore header) 0 (w.text header) := by
  cases h : w.segs header sParams with
  | some s => exact (holds_append.1 (holds_params h)).1
  | none =>
    unfold World.text
    rw [h]
    rfl

theorem lineBefore_stale (h : w.segs header sParams = none) :
    w.lineBefore header = w.stack.bytes := by
  unfold World.lineBefore World.paramStores
  rw [h]
  rfl

end

/-! ## The option behind the text -/

/-- Stores in `appendLine` only. -/
def Inside (t : Int × List UInt8) : Prop := 0 ≤ t.1 ∧ t.1 + t.2.length ≤ maxAppendLineLength

/-- The command line is what it is meant to be: nothing is stored outside of `appendLine`;
of the option the bytes are copied that there is room for; and the text is in front of them,
a NUL behind. -/
structure Started.Builds (s : Started) (text : List UInt8) (option : Option (List UInt8)) :
    Prop where
  inside : ∀ t ∈ s.stores, Inside t
  copied : s.copied = (option.getD []).take (maxAppendLineLength - 2 - text.length)
  line : Holds s.line 0
    (text ++ (if option.isSome ∧ text ≠ [] then [0x20] else []) ++ s.copied ++ [0])

section
variable (w : World) (header : Header)

/-- The bytes of the option that is found. -/
def World.option (bpVend : Nat) : Option (List UInt8) :=
  (findCmdline (w.placed header) w.endOfRfc1533 bpVend).map fun f =>
    read (w.placed header) f.1 f.2.toNat

theorem paramStores_inside : ∀ t ∈ w.paramStores header, Inside t := by
  intro t ht
  unfold World.paramStores at ht
  split at ht
  · simp only [List.mem_cons, List.not_mem_nil, or_false] at ht
    rcases ht with rfl | rfl
    · exact ⟨Int.le_refl 0, by rw [length_read, Int.zero_add]⟩
    · exact ⟨by decide, by decide⟩
  · cases ht

end

section
variable {m : Nat → UInt8} {t copied : List UInt8} {length : UInt8}

/-- The stores of an option whose length is no negative `char`. -/
theorem optionStores_of_length {ptr : Nat} (hlength : charInt length = copied.length) :
    optionStores ptr copied length =
      if ptr = 0 then [(((0 : Nat) : Int), copied), ((copied.length : Int), [0])]
      else [((ptr : Int), [0x20]), (((ptr + 1 : Nat) : Int), copied),
        (((ptr + 1 + copied.length : Nat) : Int), [0])] := by
  unfold optionStores
  rw [hlength]
  by_cases hptr : ptr = 0
  · rw [if_pos hptr, hptr]
    simp
  · rw [if_neg hptr, if_pos hptr]
    rfl

/-- It puts the option behind the text. -/
theorem holds_optionStores (hm : Holds m 0 t) (hlength : charInt length = copied.length) :
    Holds ((optionStores t.length copied length).foldl storeAt m) 0
      (t ++ (if t ≠ [] then [0x20] else []) ++ copied ++ [0]) := by
  have hwrite : (optionStores t.length copied length).foldl storeAt m =
      write m t.length ((if t ≠ [] then [0x20] else []) ++ copied ++ [0]) := by
    rw [optionStores_of_length hlength]
    by_cases ht : t = []
    · rw [if_pos (List.length_eq_zero_iff.2 ht), if_neg (not_not.2 ht), ht]
      simp only [List.foldl_cons, List.foldl_nil, storeAt_nat, List.nil_append, write_append,
        List.length_nil, Nat.zero_add]
    · rw [if_neg (mt List.length_eq_zero_iff.1 ht), if_pos ht]
      simp only [List.foldl_cons, List.foldl_nil, storeAt_nat, write_append, List.length_append,
        List.length_singleton, Nat.add_assoc]
  have hassoc : t ++ (if t ≠ [] then [0x20] else []) ++ copied ++ [0] =
      t ++ ((if t ≠ [] then [0x20] else []) ++ copied ++ [0]) := by
    simp only [List.append_assoc]
  rw [hwrite, hassoc, ← Nat.zero_add t.length]
  exact hm.write_behind _

/-- All of them are in `appendLine` when there is room for the option. -/
theorem optionStores_inside {ptr : Nat} (hlength : charInt length = copied.length)
    (hptr : ptr ≤ 510) (hroom : copied.length ≤ 510 - ptr) :
    ∀ s ∈ optionStores ptr copied length, Inside s := by
  intro s hs
  rw [optionStores_of_length hlength] at hs
  unfold Inside maxAppendLineLength
  by_cases h0 : ptr = 0
  · rw [if_pos h0] at hs
    simp only [List.mem_cons, List.not_mem_nil, or_false] at hs
    rcases hs with rfl | rfl <;> simp only [List.length_singleton] <;> omega
  · rw [if_neg h0] at hs
    simp only [List.mem_cons, List.not_mem_nil, or_false] at hs
    rcases hs with rfl | rfl | rfl <;> simp only [List.length_singleton] <;> omega

end

/-! ## Top theorem -/

section
variable {w : World} {header : Header} {bpVend cmdline n : Nat} {length : UInt8}

theorem xstart32_none (hfound : findCmdline (w.placed header) w.endOfRfc1533 bpVend = none) :
    xstart32 w (some header) (some bpVend) = some (w.started header []
      (w.paramStores header ++ [(((w.text header).length : Int), [0])])) := by
  simp only [xstart32, pointer_eq, hfound, Option.bind_eq_bind, Option.bind_some, pure]

theorem xstart32_found
    (hfound : findCmdline (w.placed header) w.endOfRfc1533 bpVend = some (cmdline, length)) :
    xstart32 w (some header) (some bpVend) =
      (strlenLine (w.lineBefore header) w.stack.left).map fun n : Nat =>
        w.withOption header (w.text header).length cmdline (clip (long n) length) := by
  simp only [xstart32, pointer_eq, hfound, Option.bind_eq_bind, Option.bind_some, pure]
  cases strlenLine (w.lineBefore header) w.stack.left <;> rfl

theorem option_found
    (hfound : findCmdline (w.placed header) w.endOfRfc1533 bpVend = some (cmdline, length)) :
    w.option header bpVend = some (read (w.placed header) cmdline length.toNat) := by
  rw [World.option, hfound]
  rfl

/-- Without an option the text is all of the command line. -/
theorem builds_none (hfound : findCmdline (w.placed header) w.endOfRfc1533 bpVend = none) :
    (w.started header [] (w.paramStores header ++ [(((w.text header).length : Int), [0])])).Builds
      (w.text header) (w.option header bpVend) := by
  have hoption : w.option header bpVend = none := by
    rw [World.option, hfound]
    rfl
  have hle := text_length_le w header
  rw [hoption]
  refine ⟨?_, List.take_nil.symm, ?_⟩
  · intro t ht
    rcases List.mem_append.1 ht with ht | ht
    · exact paramStores_inside w header t ht
    · rw [List.mem_singleton.1 ht]
      unfold Inside maxAppendLineLength
      simp only [List.length_singleton]
      omega
  · show Holds ((w.paramStores header ++ [_]).foldl storeAt w.stack.bytes) 0 _
    rw [List.foldl_append]
    show Holds (storeAt (w.lineBefore header) _) 0 _
    rw [storeAt_nat, ← Nat.zero_add (w.text header).length]
    simp only [Option.isSome_none, Bool.false_eq_true, false_and, if_false, List.append_nil,
      World.started]
    exact holds_text.write_behind _

/-- What is copied is right exactly if there are as many bytes of it. -/
theorem copied_iff {ram : Nat → UInt8} {b : Nat} {c : UInt8} :
    read ram cmdline (sizeT c) = (read ram cmdline length.toNat).take (maxAppendLineLength - 2 - b) ↔
      sizeT c = min length.toNat (510 - b) := by
  rw [take_read, Nat.min_comm]
  constructor
  · intro h
    have hlength := congrArg List.length h
    rwa [length_read, length_read] at hlength
  · intro h
    rw [h]
    rfl

theorem copied_withOption (w : World) (header : Header) (ptr cmdline : Nat) (length : UInt8) :
    (w.withOption header ptr cmdline length).copied =
      read (w.placed header) cmdline (sizeT length) := rfl

theorem builds_found {c : UInt8} (hle : (w.text header).length ≤ 510)
    (hoption : w.option header bpVend = some (read (w.placed header) cmdline length.toNat))
    (hc : sizeT c = min length.toNat (510 - (w.text header).length)) :
    (w.withOption header (w.text header).length cmdline c).Builds (w.text header)
      (w.option header bpVend) := by
  have hlength : charInt c = (read (w.placed header) cmdline (sizeT c)).length := by
    obtain ⟨htoNat, hlt⟩ := (sizeT_eq_iff (by omega)).1 hc
    rw [length_read, hc, ← htoNat, charInt_of_lt (by omega)]
  rw [hoption]
  refine ⟨?_, copied_iff.2 hc, ?_⟩
  · intro t ht
    rcases List.mem_append.1 ht with ht | ht
    · exact paramStores_inside w header t ht
    · refine optionStores_inside hlength hle ?_ t ht
      rw [length_read]
      omega
  · show Holds ((w.paramStores header ++ _).foldl storeAt w.stack.bytes) 0 _
    rw [List.foldl_append]
    simp only [Option.isSome_some, true_and]
    exact holds_optionStores holds_text hlength

/-- When an option comes out right behind what is in `appendLine`: the length has to be
below 128, and a text may have 510 characters.  With no text it is the string that was
on the stack that may be too long. -/
def World.Fits (w : World) (header : Header) (bpVend : Nat) : Prop :=
  ∀ cmdline length,
    findCmdline (w.placed header) w.endOfRfc1533 bpVend = some (cmdline, length) →
    length.toNat < 128 ∧
      ((w.segs header sParams).isSome → (w.text header).length ≤ 510) ∧
      ((w.segs header sParams).isNone → ∃ n, strlenLine w.stack.bytes w.stack.left = some n ∧
        (long (n + length.toNat) ≤ 510 ∨ (n + length.toNat) % 256 = 254))

theorem text_of_isNone (h : (w.segs header sParams).isNone) : w.text header = [] := by
  rw [World.text, Option.isNone_iff_eq_none.1 h]

/-- The length that is kept is the right one exactly in these cases. -/
theorem count_iff (hn : strlenLine (w.lineBefore header) w.stack.left = some n) :
    sizeT (clip (long n) length) = min length.toNat (510 - (w.text header).length) ↔
      length.toNat < 128 ∧
      ((w.segs header sParams).isSome → (w.text header).length ≤ 510) ∧
      ((w.segs header sParams).isNone → ∃ n, strlenLine w.stack.bytes w.stack.left = some n ∧
        (long (n + length.toNat) ≤ 510 ∨ (n + length.toNat) % 256 = 254)) := by
  have hlength := length.toNat_lt
  cases h : w.segs header sParams with
  | some s =>
    rw [strlen_params h, Option.some.injEq] at hn
    rw [← hn, clip_params (text_length_le w header)]
    simp
  | none =>
    rw [lineBefore_stale h] at hn
    rw [text_of_isNone (Option.isNone_iff_eq_none.2 h), hn, List.length_nil, Nat.min_eq_left (by omega), clip_stale]
    simp

/-- **The command line.**  It is what it is meant to be when the option, if there is one,
fits, and only then. -/
theorem xstart32_builds_iff (w : World) (header : Header) (bpVend : Nat) :
    (∃ s, xstart32 w (some header) (some bpVend) = some s ∧
      s.Builds (w.text header) (w.option header bpVend)) ↔ w.Fits header bpVend := by
  cases hfound : findCmdline (w.placed header) w.endOfRfc1533 bpVend with
  | none =>
    refine iff_of_true ⟨_, xstart32_none hfound, builds_none hfound⟩ ?_
    intro cmdline length h
    rw [hfound] at h
    cases h
  | some found =>
    obtain ⟨cmdline, length⟩ := found
    have hoption := option_found hfound
    rw [xstart32_found hfound]
    constructor
    · rintro ⟨s, hs, hbuilds⟩ cmdline' length' h
      rw [hfound, Option.some.injEq, Prod.mk.injEq] at h
      rw [← h.2]
      obtain ⟨n, hn, rfl⟩ := Option.map_eq_some_iff.1 hs
      have hcopied := hbuilds.copied
      rw [copied_withOption, hoption, Option.getD_some, copied_iff] at hcopied
      exact (count_iff hn).1 hcopied
    · intro hfits
      have hcases := hfits cmdline length hfound
      obtain ⟨n, hn⟩ : ∃ n, strlenLine (w.lineBefore header) w.stack.left = some n := by
        cases h : w.segs header sParams with
        | some s => exact ⟨_, strlen_params h⟩
        | none =>
          obtain ⟨n, hn, -⟩ := hcases.2.2 (Option.isNone_iff_eq_none.2 h)
          exact ⟨n, by rw [lineBefore_stale h, hn]⟩
      have hle : (w.text header).length ≤ 510 := by
        cases h : (w.segs header sParams).isSome with
        | true => exact hcases.2.1 h
        | false =>
          rw [text_of_isNone (by simpa using h)]
          exact Nat.zero_le _
      refine ⟨_, Option.map_eq_some_iff.2 ⟨n, hn, rfl⟩, ?_⟩
      exact builds_found hle hoption ((count_iff hn).2 hcases)

end

/-! ## A long option -/

/-- A vendor area with the magic of Etherboot and parameters of 200 bytes. -/
def longVendor : List UInt8 :=
  rfc1533Cookie ++ [vendorMagic, 6] ++ vendorextMagic ++ [0, 0] ++ [vendorAddparm, 200] ++
    List.replicate 200 0x61 ++ [255]

/-- The reply is all there is in the memory, and the stack is cleared. -/
def longReply : World where
  ram := write (fun _ => 0) 0 longVendor
  seg _ := none
  endOfRfc1533 := 214
  stack := ⟨fun _ => 0, maxAppendLineLength, Nat.le_refl _⟩

/-- An image without a parameter segment. -/
def plainElf : Header := ⟨elfMagic, []⟩

theorem longReply_found : findCmdline (longReply.placed plainElf) longReply.endOfRfc1533 0 =
    some (14, 200) := by
  have hplaced : longReply.placed plainElf = longReply.ram := rfl
  have hcookie : read longReply.ram 0 4 = rfc1533Cookie := by decide
  rw [hplaced, findCmdline, if_pos hcookie]
  -- first the magic, then the parameters
  rw [findFrom, if_pos (by decide), if_neg (by decide), if_pos (by decide)]
  rw [findFrom, if_pos (by decide), if_neg (by decide), if_neg (by decide), if_pos (by decide)]
  decide

/-- 200 is -56 in a `char`, and so many bytes are copied. -/
theorem longReply_overruns : ∃ s, xstart32 longReply (some plainElf) (some 0) = some s ∧
    s.copied.length = 2 ^ 32 - 56 ∧
    ¬ s.Builds (longReply.text plainElf) (longReply.option plainElf 0) := by
  have hstrlen : strlenLine (longReply.lineBefore plainElf) longReply.stack.left = some 0 := by
    decide
  have hclip : sizeT (clip (long (0 : Nat)) 200) = 2 ^ 32 - 56 := by decide
  refine ⟨_, (xstart32_found longReply_found).trans (congrArg _ hstrlen), ?_, fun hbuilds => ?_⟩
  · rw [copied_withOption, length_read, hclip]
  · have hcopied := hbuilds.copied
    rw [copied_withOption, option_found longReply_found, Option.getD_some, copied_iff, hclip]
      at hcopied
    omega

end Gentoox.Boot
