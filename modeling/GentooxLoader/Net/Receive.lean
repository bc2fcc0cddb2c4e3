import GentooxLoader.Base.Cells
import GentooxLoader.Base.Streams

/-!
# The receive loop of the downloads (networktools/webboot, networktools/webupdate)

`recvKernel`, `recvInitrd`, `recvAppend` and `recvBIOS` go through the bytes of
a segment with the same loop: until the end of the response header is seen the
last four bytes are kept in `c`, afterwards each byte is stored.  A segment
comes as a chain of buffers, and the window `c` is kept from one buffer to the
next; but each call of a callback clears it while no header end was seen.

    data_some   what one segment stores, from the window's four bytes on
    foldl_data  over the segments: what `Streams.afterPieces` finds

So a header end that two segments share is missed, and the body is right
exactly when the stream has none, has nothing behind it, or no cut falls inside
it (`stores_iff`).
-/

namespace Gentoox.Net

open Cells Streams

/-! ## Algorithm -/

/-- A chain of `struct pbuf`, by the payloads. -/
abbrev Chain := List (List UInt8)

/-- `static char c[4]` -/
structure Window where
  c0 : UInt8
  c1 : UInt8
  c2 : UInt8
  c3 : UInt8
  deriving DecidableEq

/-- The static variables the loop works on.  `buf` is the memory from the
destination of the body on; `head` is set while the answer to a HEAD request
is collected. -/
structure Receive where
  head : Bool
  eoh : Bool
  c : Window
  header : Nat → UInt8
  hLen : Nat
  buf : Nat → UInt8
  fileLen : Nat
  progCheck : Int

def Receive.shift (s : Receive) : Receive :=
  if s.eoh then s else { s with c := ⟨s.c.c1, s.c.c2, s.c.c3, s.c.c3⟩ }

def Receive.storeHeader (s : Receive) (x : UInt8) : Receive :=
  if s.head then
    { s with
      header := Function.update (Function.update s.header s.hLen x) (s.hLen + 1) 0
      hLen := s.hLen + 1 }
  else s

/-- A byte of the body, and the next step of the progress bar. -/
def Receive.storeBody (contLen fraction : Int) (s : Receive) (x : UInt8) : Receive :=
  if s.eoh && !s.head then
    let fileLen := s.fileLen + 1
    { s with
      buf := Function.update (Function.update s.buf s.fileLen x) fileLen 0
      fileLen
      progCheck :=
        if (fileLen : Int) > s.progCheck ∨ (fileLen : Int) ≥ contLen then s.progCheck + fraction
        else s.progCheck }
  else s

/-- Found the header. -/
def Receive.findHeaderEnd (s : Receive) : Receive :=
  if !s.eoh && s.c = ⟨0x0d, 0x0a, 0x0d, 0x0a⟩ && !s.head then { s with eoh := true } else s

/-- The body of the loop over the bytes. -/
def Receive.byte (contLen fraction : Int) (s : Receive) (x : UInt8) : Receive :=
  let s := s.shift
  let s := { s with c := { s.c with c3 := x } }
  ((s.storeHeader x).storeBody contLen fraction x).findHeaderEnd

def Receive.clearWindow (s : Receive) : Receive := if s.eoh then s else { s with c := ⟨0, 0, 0, 0⟩ }

/-- The part of a callback after the test of `p`. -/
def Receive.data (contLen fraction : Int) (s : Receive) (p : Chain) : Receive :=
  p.foldl (fun s payload => payload.foldl (Receive.byte contLen fraction) s) s.clearWindow

/-! ## One segment -/

def crlfcrlf : List UInt8 := [0x0d, 0x0a, 0x0d, 0x0a]

/-- `l` was stored from the start of the body on. -/
def Receive.Holds (s : Receive) (l : List UInt8) : Prop :=
  s.fileLen = l.length ∧ read s.buf 0 l.length = l

section
variable (contLen fraction : Int)

theorem data_eq (s : Receive) (p : Chain) :
    s.data contLen fraction p = p.flatten.foldl (Receive.byte contLen fraction) s.clearWindow := by
  unfold Receive.data
  rw [List.foldl_flatten]

/-- Behind the header each byte is stored. -/
theorem byte_body {s : Receive} (he : s.eoh = true) (hh : s.head = false) {l : List UInt8}
    (hl : s.Holds l) (x : UInt8) :
    (s.byte contLen fraction x).eoh = true ∧ (s.byte contLen fraction x).head = false ∧
      (s.byte contLen fraction x).Holds (l ++ [x]) := by
  obtain ⟨hlen, hread⟩ := hl
  have hbyte : (s.byte contLen fraction x).fileLen = s.fileLen + 1 ∧
      (s.byte contLen fraction x).buf =
        Function.update (Function.update s.buf s.fileLen x) (s.fileLen + 1) 0 ∧
      (s.byte contLen fraction x).eoh = true ∧ (s.byte contLen fraction x).head = false := by
    simp [Receive.byte, Receive.shift, Receive.storeHeader, Receive.storeBody,
      Receive.findHeaderEnd, he, hh]
  obtain ⟨h1, h2, h3, h4⟩ := hbyte
  refine ⟨h3, h4, ?_, ?_⟩
  · rw [h1, hlen, List.length_append]
    rfl
  · rw [h2, List.length_append, List.length_singleton, read_add]
    congr 1
    · rw [← hread, length_read]
      apply read_congr
      intro i _ hi
      rw [Function.update_of_ne (by omega), Function.update_of_ne (by omega)]
    · rw [Nat.zero_add, ← hlen, read_succ, read_zero, Function.update_of_ne (by omega),
        Function.update_self]

theorem bytes_body (t : List UInt8) : ∀ {s : Receive}, s.eoh = true → s.head = false →
    ∀ {l : List UInt8}, s.Holds l →
      (t.foldl (Receive.byte contLen fraction) s).eoh = true ∧
      (t.foldl (Receive.byte contLen fraction) s).head = false ∧
      (t.foldl (Receive.byte contLen fraction) s).Holds (l ++ t) := by
  induction t with
  | nil =>
    intro s he hh l hl
    exact ⟨he, hh, by rw [List.append_nil]; exact hl⟩
  | cons x t ih =>
    intro s he hh l hl
    obtain ⟨h1, h2, h3⟩ := byte_body contLen fraction he hh hl x
    have := ih h1 h2 h3
    rw [List.append_assoc, List.singleton_append] at this
    exact this

/-- Before the end of the header a byte only moves the window. -/
theorem byte_header {s : Receive} (he : s.eoh = false) (hh : s.head = false) (x : UInt8) :
    s.byte contLen fraction x =
      { s with
        c := ⟨s.c.c1, s.c.c2, s.c.c3, x⟩
        eoh := decide ([s.c.c1, s.c.c2, s.c.c3, x] = crlfcrlf) } := by
  by_cases hc : s.c.c1 = 0x0d ∧ s.c.c2 = 0x0a ∧ s.c.c3 = 0x0d ∧ x = 0x0a
  · simp [Receive.byte, Receive.shift, Receive.storeHeader, Receive.storeBody,
      Receive.findHeaderEnd, crlfcrlf, he, hh, hc]
  · simp [Receive.byte, Receive.shift, Receive.storeHeader, Receive.storeBody,
      Receive.findHeaderEnd, crlfcrlf, he, hh, hc]

theorem cons_eq_crlfcrlf_iff (a b c x : UInt8) (t : List UInt8) :
    crlfcrlf <+: a :: b :: c :: x :: t ↔ [a, b, c, x] = crlfcrlf := by
  unfold crlfcrlf
  simp only [List.cons_prefix_cons, List.nil_prefix, and_true, List.cons.injEq]
  constructor
  · rintro ⟨rfl, rfl, rfl, rfl⟩
    exact ⟨rfl, rfl, rfl, rfl⟩
  · rintro ⟨rfl, rfl, rfl, rfl, -⟩
    exact ⟨rfl, rfl, rfl, rfl⟩

/-- The state after the header end was looked for: `o` is what was found behind it. -/
structure Receive.Found (s : Receive) (o : Option (List UInt8)) : Prop where
  eoh : s.eoh = o.isSome
  head : s.head = false
  holds : s.Holds (o.getD [])

/-- The bytes `t`, with the window holding the three before them. -/
theorem bytes_header (t : List UInt8) : ∀ {s : Receive}, s.Found none →
    (t.foldl (Receive.byte contLen fraction) s).Found
      (after crlfcrlf (s.c.c1 :: s.c.c2 :: s.c.c3 :: t)) := by
  induction t with
  | nil =>
    intro s hs
    have hnone : after crlfcrlf [s.c.c1, s.c.c2, s.c.c3] = none := by
      cases h : after crlfcrlf [s.c.c1, s.c.c2, s.c.c3] with
      | none => rfl
      | some rest =>
        have := after_length h
        simp [crlfcrlf] at this
    rw [hnone]
    exact hs
  | cons x t ih =>
    intro s hs
    rw [List.foldl_cons, byte_header contLen fraction hs.eoh hs.head, after]
    by_cases hp : [s.c.c1, s.c.c2, s.c.c3, x] = crlfcrlf
    · rw [if_pos ((cons_eq_crlfcrlf_iff _ _ _ _ t).2 hp)]
      simp only [hp, decide_true]
      have := bytes_body contLen fraction t (s := { s with c := ⟨s.c.c1, s.c.c2, s.c.c3, x⟩, eoh := true })
        rfl hs.head hs.holds
      exact ⟨this.1, this.2.1, this.2.2⟩
    · rw [if_neg (fun h => hp ((cons_eq_crlfcrlf_iff _ _ _ _ t).1 h))]
      simp only [hp, decide_false]
      exact ih (s := { s with c := ⟨s.c.c1, s.c.c2, s.c.c3, x⟩, eoh := false })
        ⟨rfl, hs.head, hs.holds⟩

/-- A segment that comes before the header end was seen. -/
theorem data_none {s : Receive} (hs : s.Found none) (p : Chain) :
    (s.data contLen fraction p).Found (after crlfcrlf p.flatten) := by
  have hclear : s.clearWindow = { s with c := ⟨0, 0, 0, 0⟩ } := by
    simp [Receive.clearWindow, hs.eoh]
  have h := bytes_header contLen fraction p.flatten (s := { s with c := ⟨0, 0, 0, 0⟩ })
    ⟨hs.eoh, hs.head, hs.holds⟩
  rw [data_eq, hclear]
  -- three NULs in front of the segment make no header end
  have hzero : ∀ t, after crlfcrlf (0 :: t) = after crlfcrlf t := by
    intro t
    rw [after, if_neg]
    simp [crlfcrlf, List.cons_prefix_cons]
  simpa only [hzero] using h

/-- A segment of the body. -/
theorem data_some {s : Receive} {l : List UInt8} (hs : s.Found (some l)) (p : Chain) :
    (s.data contLen fraction p).Found (some (l ++ p.flatten)) := by
  have hclear : s.clearWindow = s := by
    simp [Receive.clearWindow, hs.eoh]
  rw [data_eq, hclear]
  have := bytes_body contLen fraction p.flatten hs.eoh hs.head hs.holds
  exact ⟨this.1, this.2.1, this.2.2⟩

/-! ## All segments -/

theorem foldl_data_some (segments : List Chain) : ∀ {s : Receive} {l : List UInt8}, s.Found (some l) →
    (segments.foldl (Receive.data contLen fraction) s).Found
      (some (l ++ (segments.map List.flatten).flatten)) := by
  induction segments with
  | nil =>
    intro s l hs
    simpa using hs
  | cons p segments ih =>
    intro s l hs
    have := ih (data_some contLen fraction hs p)
    rw [List.append_assoc] at this
    exact this

/-- The segments are searched for the header end one by one. -/
theorem foldl_data (segments : List Chain) : ∀ {s : Receive}, s.Found none →
    (segments.foldl (Receive.data contLen fraction) s).Found
      (afterPieces crlfcrlf (segments.map List.flatten)) := by
  induction segments with
  | nil =>
    intro s hs
    exact hs
  | cons p segments ih =>
    intro s hs
    have hp := data_none contLen fraction hs p
    rw [List.foldl_cons, List.map_cons, afterPieces]
    cases ha : after crlfcrlf p.flatten with
    | none =>
      rw [ha] at hp
      exact ih hp
    | some rest =>
      rw [ha] at hp
      exact foldl_data_some contLen fraction segments hp

/-- The body of a response: what follows the first CRLFCRLF. -/
def body (segments : List Chain) : List UInt8 := (after crlfcrlf segments.flatten.flatten).getD []

/-- No border of two segments falls inside the first CRLFCRLF, unless nothing follows it. -/
def Uncut (segments : List Chain) : Prop :=
  ∀ rest, after crlfcrlf segments.flatten.flatten = some rest →
    rest = [] ∨ ¬ CutInside crlfcrlf (segments.map List.flatten) rest

/-- The body is stored as it is, with its length, exactly if the header end is not cut. -/
theorem stores_iff {s : Receive} (hs : s.Found none) (segments : List Chain) :
    (segments.foldl (Receive.data contLen fraction) s).Holds (body segments) ↔ Uncut segments := by
  have hf := (foldl_data contLen fraction segments hs).holds
  have hflat : segments.flatten.flatten = (segments.map List.flatten).flatten := List.flatten_flatten
  unfold body Uncut
  rw [hflat]
  cases ha : after crlfcrlf (segments.map List.flatten).flatten with
  | none =>
    rw [afterPieces_none ha] at hf
    refine ⟨fun _ rest h => ?_, fun _ => hf⟩
    cases h
  | some rest =>
    simp only [Option.getD_some, Option.some.injEq, forall_eq']
    by_cases hc : CutInside crlfcrlf (segments.map List.flatten) rest
    · simp only [hc, not_true_eq_false, or_false]
      constructor
      · intro hh
        -- what was found has the length of the body, but a cut leaves less
        have hlen : ((afterPieces crlfcrlf (segments.map List.flatten)).getD []).length = rest.length :=
          hf.1.symm.trans hh.1
        cases hp : afterPieces crlfcrlf (segments.map List.flatten) with
        | none =>
          rw [hp] at hlen
          exact List.eq_nil_of_length_eq_zero hlen.symm
        | some rest' =>
          rw [hp] at hlen
          have := afterPieces_cut ha hc rest' hp
          simp only [Option.getD_some] at hlen
          omega
      · rintro rfl
        cases hp : afterPieces crlfcrlf (segments.map List.flatten) with
        | none =>
          rw [hp] at hf
          exact hf
        | some rest' =>
          have := afterPieces_cut ha hc rest' hp
          simp at this
    · simp only [hc, not_false_eq_true, or_true, iff_true]
      rw [afterPieces_uncut ha hc] at hf
      exact hf

end

end Gentoox.Net
