import GentooxLoader.Base.Cells
import GentooxLoader.Lib.Strings

/-!
# The http servers' common parts (networktools/netboot, networktools/netflash)

The two servers keep the same state for a connection and look for an upload in
the body of a POST in the same way: between the first empty line and the next
place where the text of the first line stands (`locate`).  Pointers to the two
ends stay uninitialised where nothing is found.

    locate_delimited   a delimited body: the upload lies in it, behind the
                       first line end, the one byte that is changed
-/

namespace Gentoox.Net

open Cells Lib

/-! ## Algorithm -/

inductive Err where
  | ok
  | mem
  | other
  deriving DecidableEq

/-- What a call of the server does not decide: the uninitialised `start` and
`end` of `handle_post`, and how `tcp_write` takes the data. -/
structure Locals where
  start : Nat
  stop : Nat
  sndbuf : Nat
  tcpWrite : Nat → Err

/-- `struct http_state`; `file` is a place in `http_files`, `polled` says that
`http_sent` and `http_poll` have been set.  `lineBuf` has the bytes outside of its 256 to
itself: a store to `lineBuf[-128]` leaves the other fields alone here. -/
structure HttpState where
  retries : Nat
  file : Nat
  fileOffset : Nat
  left : Int
  ispost : Bool
  postdata : Option Nat
  postlen : Int
  postpos : Nat
  lineBuf : Int → UInt8
  lineBufpos : Int
  gotfirst : Bool
  dataStart : Option Nat
  dataLen : Int
  polled : Bool

/-- `http_accept`; `lineBuf` is what the memory held. -/
def httpAccept (lineBuf : Int → UInt8) : HttpState where
  retries := 0
  file := 0
  fileOffset := 0
  left := 0
  ispost := false
  postdata := none
  postlen := 0
  postpos := 0
  lineBuf := lineBuf
  lineBufpos := 0
  gotfirst := false
  dataStart := none
  dataLen := 0
  polled := false

/-- The `do` loop around `tcp_write`. -/
def tcpWriteLoop (tcpWrite : Nat → Err) : Nat → Nat → Nat → Err × Nat
  | 0, _, len => (.mem, len)
  | fuel + 1, k, len =>
    match tcpWrite k with
    | .mem => if len / 2 > 1 then tcpWriteLoop tcpWrite fuel (k + 1) (len / 2) else (.mem, len / 2)
    | err => (err, len)

/-- `len` of `send_data`, a `u16_t`. -/
def sendLen (l : Locals) (hs : HttpState) : Nat :=
  if (l.sndbuf : Int) < hs.left then l.sndbuf % 2 ^ 16 else (hs.left % 2 ^ 16).toNat

def sendData (l : Locals) (hs : HttpState) : HttpState :=
  match tcpWriteLoop l.tcpWrite 17 0 (sendLen l hs) with
  | (.ok, len) => { hs with fileOffset := hs.fileOffset + len, left := hs.left - len }
  | _ => hs

/-- The string at `lineBuf[i]`. -/
def HttpState.line (hs : HttpState) (i : Nat) : List UInt8 :=
  cstr (read (fun j => hs.lineBuf j) i (256 - i))

/-- `lineBuf[lineBufpos++] = c`, with `lineBufpos` a `char`. -/
def HttpState.pushLine (hs : HttpState) (c : UInt8) : HttpState :=
  if 0 ≤ hs.lineBufpos ∧ hs.lineBufpos < 256 - 2 then
    { hs with
      lineBuf := Function.update hs.lineBuf hs.lineBufpos c
      lineBufpos := if hs.lineBufpos = 127 then -128 else hs.lineBufpos + 1 }
  else hs

/-- The start of a response: send what goes and set the callbacks. -/
def HttpState.respond (l : Locals) (hs : HttpState) : HttpState :=
  { sendData l hs with polled := true, gotfirst := false }

/-- The empty line behind the header; `buffer` is where a body goes. -/
def HttpState.endOfHeader (l : Locals) (buffer : Option Nat) (hs : HttpState) : HttpState :=
  if hs.ispost ∧ hs.postlen ≠ 0 then { hs with postdata := buffer, postpos := 0 }
  else hs.respond l

/-- A line behind the first one. -/
def HttpState.headerLine (l : Locals) (buffer : Option Nat) (hs : HttpState) : HttpState :=
  let hs := if hs.lineBuf 0 = 0 then hs.endOfHeader l buffer else hs
  if (chars ['C', 'o', 'n', 't', 'e', 'n', 't', '-', 'L', 'e', 'n', 'g', 't', 'h', ':']).isPrefixOf
      (hs.line 0) then
    { hs with postlen := signed (simpleStrtoul (hs.line 16) 0) }
  else hs

/-- A byte of the header; `false` if it ends a line that `handle_line` refuses. -/
def headerByte (handleLine : HttpState → Option HttpState) (hs : HttpState) (c : UInt8) :
    HttpState × Bool :=
  if c = 0x0d then (hs, true)
  else if c = 0x0a then
    let hs := { hs with lineBuf := Function.update hs.lineBuf hs.lineBufpos 0 }
    match handleLine hs with
    | none => (hs, false)
    | some hs => ({ hs with lineBufpos := 0 }, true)
  else (hs.pushLine c, true)

/-- What the two servers do differently with the bytes that come in; `σ` are
their static variables and the memory. -/
structure HttpServer (σ : Type) where
  handleLine : σ → HttpState → Option HttpState
  store : σ → Nat → UInt8 → σ
  handlePost : σ → HttpState → Nat → σ × HttpState

section
variable {σ : Type} (v : HttpServer σ) (l : Locals)

/-- A byte of the body. -/
def HttpServer.bodyByte (s : σ) (hs : HttpState) (postdata : Nat) (c : UInt8) : σ × HttpState :=
  let s := v.store s (postdata + hs.postpos) c
  let hs := { hs with postpos := hs.postpos + 1 }
  if (hs.postpos : Int) = hs.postlen then
    let (s, hs) := v.handlePost s hs postdata
    (s, hs.respond l)
  else (s, hs)

/-- A byte that comes in; `false` for a request the connection is closed for. -/
def HttpServer.recvByte (s : σ) (hs : HttpState) (c : UInt8) : σ × HttpState × Bool :=
  match hs.postdata with
  | none => (s, headerByte (v.handleLine s) hs c)
  | some postdata =>
    let (s, hs) := v.bodyByte l s hs postdata c
    (s, hs, true)

/-- The two loops of `http_recv`; the rest of a bad request is dropped. -/
def HttpServer.httpRecv : σ → HttpState → List UInt8 → σ × HttpState × Bool
  | s, hs, [] => (s, hs, true)
  | s, hs, c :: cs =>
    match v.recvByte l s hs c with
    | (s, hs, true) => HttpServer.httpRecv s hs cs
    | (s, hs, false) => (s, hs, false)

end

/-- The place of the first line end. -/
def findBoundary (m : Nat → UInt8) (postdata n : Nat) : Option Nat :=
  (List.range n).find? fun i => m (postdata + i) == 0x0a || m (postdata + i) == 0x0d

/-- The place of the line feed that ends the first empty line, from `i` on. -/
def findStart (m : Nat → UInt8) (postdata : Nat) : Nat → Nat → Nat → Option Nat
  | 0, _, _ => none
  | n + 1, i, ncnt =>
    if m (postdata + i) = 0x0d then findStart m postdata n (i + 1) ncnt
    else if m (postdata + i) = 0x0a then
      if ncnt + 1 = 2 then some i else findStart m postdata n (i + 1) (ncnt + 1)
    else findStart m postdata n (i + 1) 0

/-- The first place from `i` on where the `blen` bytes of the boundary stand. -/
def findEnd (m : Nat → UInt8) (postdata n i blen : Nat) : Option Nat :=
  (List.range' i (n - i)).find? fun j => read m (postdata + j) blen == read m postdata blen

/-- The three loops of `handle_post`: the memory, and `start` and `end` unless
one of them is found to be missing. -/
def locate (l : Locals) (m : Nat → UInt8) (postdata : Nat) (postlen : Int) :
    (Nat → UInt8) × Option (Nat × Nat) :=
  let n := postlen.toNat
  match findBoundary m postdata n with
  | none => (m, none)
  | some blen =>
    let m := Function.update m (postdata + blen) 0
    let found := findStart m postdata (n - blen) blen 0
    let start := (found.map fun i => postdata + i + 1).getD l.start
    if start = 0 then (m, none)
    else
      let stop := ((findEnd m postdata n (found.getD n) blen).map fun j => postdata + j).getD l.stop
      if stop = 0 then (m, none) else (m, some (start, stop))

/-! ## Frames -/

/-- The fields of a connection an upload in hand has. -/
structure SameUpload (hs hs' : HttpState) : Prop where
  dataStart : hs'.dataStart = hs.dataStart
  dataLen : hs'.dataLen = hs.dataLen

/-- The fields of a connection an upload depends on. -/
structure SamePost (hs hs' : HttpState) : Prop extends SameUpload hs hs' where
  postdata : hs'.postdata = hs.postdata
  postpos : hs'.postpos = hs.postpos
  postlen : hs'.postlen = hs.postlen

theorem sendData_same (l : Locals) (hs : HttpState) : SamePost hs (sendData l hs) := by
  unfold sendData
  split <;> exact ⟨⟨rfl, rfl⟩, rfl, rfl, rfl⟩

theorem respond_same (l : Locals) (hs : HttpState) : SamePost hs (hs.respond l) := by
  obtain ⟨⟨h1, h2⟩, h3, h4, h5⟩ := sendData_same l hs
  exact ⟨⟨h1, h2⟩, h3, h4, h5⟩

theorem pushLine_same (hs : HttpState) (c : UInt8) : SamePost hs (hs.pushLine c) := by
  unfold HttpState.pushLine
  split <;> exact ⟨⟨rfl, rfl⟩, rfl, rfl, rfl⟩

theorem endOfHeader_same (l : Locals) (buffer : Option Nat) (hs : HttpState) :
    SameUpload hs (hs.endOfHeader l buffer) := by
  unfold HttpState.endOfHeader
  split
  · exact ⟨rfl, rfl⟩
  · exact (respond_same l hs).toSameUpload

theorem headerLine_same (l : Locals) (buffer : Option Nat) (hs : HttpState) :
    SameUpload hs (hs.headerLine l buffer) := by
  have hset : SameUpload hs (if hs.lineBuf 0 = 0 then hs.endOfHeader l buffer else hs) := by
    split
    · exact endOfHeader_same l buffer hs
    · exact ⟨rfl, rfl⟩
  unfold HttpState.headerLine
  simp only
  generalize (if hs.lineBuf 0 = 0 then hs.endOfHeader l buffer else hs) = hs' at hset
  split
  · exact ⟨hset.1, hset.2⟩
  · exact hset

theorem headerByte_same {handle : HttpState → Option HttpState}
    (hline : ∀ hs hs', handle hs = some hs' → SameUpload hs hs') (hs : HttpState) (c : UInt8) :
    SameUpload hs (headerByte handle hs c).1 := by
  unfold headerByte
  split_ifs
  · exact ⟨rfl, rfl⟩
  · simp only
    split
    · exact ⟨rfl, rfl⟩
    · rename_i hs' hl
      obtain ⟨h1, h2⟩ := hline _ hs' hl
      exact ⟨h1, h2⟩
  · exact (pushLine_same hs c).toSameUpload

/-! ## One byte after the other -/

section
variable {σ : Type} {v : HttpServer σ} {l : Locals} {s : σ} {hs : HttpState}

theorem HttpServer.httpRecv_cons (v : HttpServer σ) (l : Locals) (s : σ) (hs : HttpState) (c : UInt8)
    (cs : List UInt8) : v.httpRecv l s hs (c :: cs) =
      if (v.recvByte l s hs c).2.2 then
        v.httpRecv l (v.recvByte l s hs c).1 (v.recvByte l s hs c).2.1 cs
      else v.recvByte l s hs c := by
  rw [HttpServer.httpRecv]
  rcases v.recvByte l s hs c with ⟨s', hs', _ | _⟩ <;> rfl

theorem headerByte_refused {handle : HttpState → Option HttpState} {c : UInt8}
    (hr : (headerByte handle hs c).2 = false) : (headerByte handle hs c).1.postdata = hs.postdata := by
  unfold headerByte at hr ⊢
  split_ifs at hr ⊢
  simp only at hr ⊢
  split at hr
  · rfl
  · cases hr

/-- A connection closed for a bad request is still in the header. -/
theorem HttpServer.httpRecv_refused {cs : List UInt8} (hr : (v.httpRecv l s hs cs).2.2 = false) :
    (v.httpRecv l s hs cs).2.1.postdata = none := by
  induction cs generalizing s hs with
  | nil => cases hr
  | cons c cs ih =>
    rw [httpRecv_cons] at hr ⊢
    split at hr
    · rename_i hopen
      rw [if_pos hopen]
      exact ih hr
    · rename_i hopen
      rw [if_neg hopen]
      unfold HttpServer.recvByte at hr ⊢
      split at hr
      · rename_i hdata
        rw [← hdata]
        exact headerByte_refused hr
      · cases hr

/-- What depends on the upload in hand alone and is kept by `handle_post` is
kept by a segment. -/
theorem HttpServer.httpRecv_keeps {Q : HttpState → Prop} {cs : List UInt8}
    (hcongr : ∀ hs hs', SameUpload hs hs' → Q hs → Q hs')
    (hline : ∀ s hs hs', v.handleLine s hs = some hs' → SameUpload hs hs')
    (hpost : ∀ s hs a, Q hs → Q (v.handlePost s hs a).2) (hq : Q hs) :
    Q (v.httpRecv l s hs cs).2.1 := by
  have hbyte : ∀ s hs c, Q hs → Q (v.recvByte l s hs c).2.1 := by
    intro s hs c hq
    unfold HttpServer.recvByte
    split
    · exact hcongr _ _ (headerByte_same (hline s) hs c) hq
    · rename_i postdata _
      unfold HttpServer.bodyByte
      simp only
      have hq' : Q { hs with postpos := hs.postpos + 1 } := hcongr hs _ ⟨rfl, rfl⟩ hq
      split
      · exact hcongr _ _ (respond_same l _).toSameUpload (hpost _ _ _ hq')
      · exact hq'
  induction cs generalizing s hs with
  | nil => exact hq
  | cons c cs ih =>
    rw [httpRecv_cons]
    split
    · exact ih (hbyte s hs c hq)
    · exact hbyte s hs c hq

end

/-! ## Delimited bodies -/

/-- The loops find the empty line and, at least two bytes behind it, the boundary. -/
def delimited (m : Nat → UInt8) (postdata : Nat) (postlen : Int) : Bool :=
  match findBoundary m postdata postlen.toNat with
  | none => false
  | some blen =>
    let m := Function.update m (postdata + blen) 0
    match findStart m postdata (postlen.toNat - blen) blen 0 with
    | none => false
    | some i =>
      match findEnd m postdata postlen.toNat i blen with
      | none => false
      | some j => decide (i + 1 + 2 ≤ j)

theorem findStart_ge {m : Nat → UInt8} {postdata : Nat} : ∀ {n i ncnt k : Nat},
    findStart m postdata n i ncnt = some k → i ≤ k := by
  intro n
  induction n with
  | zero =>
    intro i ncnt k h
    cases h
  | succ n ih =>
    intro i ncnt k h
    unfold findStart at h
    split_ifs at h
    · have := ih h
      omega
    · cases h
      exact Nat.le_refl _
    · have := ih h
      omega
    · have := ih h
      omega

theorem findEnd_lt {m : Nat → UInt8} {postdata n i blen j : Nat}
    (h : findEnd m postdata n i blen = some j) : j < n := by
  have := List.mem_of_find?_eq_some h
  rw [List.mem_range'_1] at this
  omega

/-- The upload of a delimited body is a part of it behind the changed byte. -/
theorem locate_delimited (l : Locals) {m : Nat → UInt8} {postdata : Nat} {postlen : Int}
    (h : delimited m postdata postlen = true) : ∃ blen st stop,
      locate l m postdata postlen =
        (Function.update m (postdata + blen) 0, some (postdata + st, postdata + stop)) ∧
      blen < st ∧ st + 2 ≤ stop ∧ stop < postlen.toNat := by
  unfold delimited at h
  split at h
  · cases h
  rename_i blen h1
  simp only at h
  split at h
  · cases h
  rename_i i h2
  split at h
  · cases h
  rename_i j h3
  have h4 := of_decide_eq_true h
  have hi := findStart_ge h2
  have hj := findEnd_lt h3
  refine ⟨blen, i + 1, j, ?_, by omega, h4, hj⟩
  unfold locate
  simp only [h1, h2, Option.map_some, Option.getD_some, h3]
  rw [if_neg (by omega), if_neg (by omega)]
  rfl

end Gentoox.Net
