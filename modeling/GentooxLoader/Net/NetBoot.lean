import Mathlib.Data.List.Infix
import GentooxLoader.Base.Machine
import GentooxLoader.MemoryLayout
import GentooxLoader.Net.Http

/-!
# Booting from a browser (networktools/netboot)

Kernel, initrd and append line are posted one after the other.  Which of them an
upload is depends on `postNum`, which `handle_post` counts up and `close_conn`
looks at; and all connections receive into the one buffer behind `postBuffer`.

The machine `netboot` has any number of connections.  Next to the server it
keeps a `History` of each connection, which the server does not have: the bytes
of the body it sent, the role its upload was accepted in, and whether another
connection got in between.

    inv_reachable        an upload nobody disturbed is in the buffer, in its role
    uses_right           in the runs where no used upload was disturbed, each is
                         used in its role with the bytes of its connection
    two_kernels_swapped  two posts at a time: the first is used in the role of
                         the second
-/

namespace Gentoox.Net

open Cells Lib

/-! ## Algorithm -/

/-- `INITRD_START + (15*1024*1024)` -/
def postBuffer : Nat := initrdStart.toNat + 15 * 1024 * 1024

/-- The static variables, and the memory. -/
structure Server where
  postNum : Nat
  initrdSize : Int
  ram : Nat → UInt8
  /-- `ExittoLinuxFromNet` was called. -/
  started : Bool

section
variable (files : Nat → Int) (l : Locals)

/-- The first line of a request; `files` are the lengths of `http_files`. -/
def requestLine (s : Server) (hs : HttpState) : Option HttpState :=
  if (chars ['G', 'E', 'T', ' ']).isPrefixOf (hs.line 0) then
    let fno := (simpleStrtoul (hs.line 5) 0).toNat
    let fno := if fno = 0 then 100 else fno
    let fno := if fno > 105 ∨ fno < 100 then 106 else fno
    some { hs with
      file := fno - 100
      fileOffset := 0
      left := files (fno - 100)
      gotfirst := true }
  else if (chars ['P', 'O', 'S', 'T', ' ']).isPrefixOf (hs.line 0) then
    -- the next step, which happens to be postNum+2
    some { hs with
      ispost := true
      file := s.postNum + 2
      fileOffset := 0
      left := files (s.postNum + 2)
      gotfirst := true }
  else none

def handleLine (s : Server) (hs : HttpState) : Option HttpState :=
  if !hs.gotfirst then requestLine files s hs else some (hs.headerLine l (some postBuffer))

/-- A body that is not accepted leaves at most a NUL in it. -/
def handlePost (s : Server) (hs : HttpState) (postdata : Nat) : Server × HttpState :=
  match locate l s.ram postdata hs.postlen with
  | (ram, none) => ({ s with ram }, hs)
  | (ram, some (start, stop)) =>
    ({ s with ram, postNum := s.postNum + 1 },
      { hs with dataStart := some start, dataLen := (stop : Int) - 2 - start })

def netbootServer : HttpServer Server where
  handleLine := handleLine files l
  store s a c := { s with ram := Function.update s.ram a c }
  handlePost := handlePost l

def recvByte (s : Server) (hs : HttpState) (c : UInt8) : Server × HttpState × Bool :=
  (netbootServer files l).recvByte l s hs c

def httpRecv (s : Server) (hs : HttpState) (cs : List UInt8) : Server × HttpState × Bool :=
  (netbootServer files l).httpRecv l s hs cs

end

def memPlaceKernel (ram : Nat → UInt8) (kernelOrg : Nat) (kernelSize : UInt32) : Nat → UInt8 :=
  let nSizeHeader := ((ram (kernelOrg + 0x01f1)).toUInt32 + 1) * 512
  let ram := copy ram kernelSetup.toNat ram kernelOrg nSizeHeader.toNat
  copy ram kernelPmCode.toNat ram (kernelOrg + nSizeHeader.toNat) (kernelSize - nSizeHeader).toNat

/-- What `close_conn` does with the upload of a connection. -/
def useUpload (s : Server) (hs : HttpState) : Server :=
  match hs.dataStart with
  | none => s
  | some start =>
    let len := UInt32.ofInt hs.dataLen
    if s.postNum = 1 then { s with ram := memPlaceKernel s.ram start len }
    else if s.postNum = 2 then
      { s with
        initrdSize := hs.dataLen
        ram := copy s.ram initrdStart.toNat s.ram start len.toNat }
    else if s.postNum = 3 then { s with started := true }
    else s

/-! ## The machine -/

/-- What a connection sent and what came of it. -/
structure History where
  /-- The bytes of the body so far. -/
  sent : List UInt8
  /-- `postNum` when the upload was accepted: kernel, initrd or append line. -/
  role : Nat
  /-- The body was delimited when it was looked through. -/
  delimited : Bool
  /-- Since the first byte of the body another connection stored one too, or had
  its upload used. -/
  disturbed : Bool

/-- A use of an upload in `close_conn`. -/
structure Use where
  role : Nat
  dataStart : Nat
  dataLen : Int
  bytes : List UInt8
  history : History

structure NetBoot where
  server : Server
  conns : Nat → Option HttpState
  history : Nat → History
  uses : List Use

inductive Event where
  | accept (conn : Nat) (lineBuf : Int → UInt8)
  | data (conn : Nat) (payload : List UInt8) (l : Locals)
  | sent (conn : Nat) (l : Locals)
  | poll (conn : Nat) (l : Locals)
  | close (conn : Nat)
  | error (conn : Nat)

def History.start : History := ⟨[], 0, false, false⟩

/-- One byte for the connection in the state `hs`. -/
def History.byte (s : Server) (hs : HttpState) (h : History) (c : UInt8) : History :=
  match hs.postdata with
  | none => h
  | some postdata =>
    let h := { h with sent := h.sent ++ [c] }
    if ((hs.postpos + 1 : Nat) : Int) = hs.postlen then
      { h with
        role := s.postNum + 1
        delimited :=
          Net.delimited (Function.update s.ram (postdata + hs.postpos) c) postdata hs.postlen }
    else h

def History.bytes (files : Nat → Int) (l : Locals) :
    Server → HttpState → History → List UInt8 → History
  | _, _, h, [] => h
  | s, hs, h, c :: cs =>
    match recvByte files l s hs c with
    | (s', hs', true) => History.bytes files l s' hs' (h.byte s hs c) cs
    | (_, _, false) => h.byte s hs c

/-- Another connection gets in between for those that have sent some of a body. -/
def History.disturb (h : History) : History := { h with disturbed := h.disturbed || h.sent ≠ [] }

def NetBoot.disturbOthers (n : NetBoot) (k : Nat) : NetBoot :=
  { n with history := fun j => if j = k then n.history j else (n.history j).disturb }

def NetBoot.withConn (n : NetBoot) (k : Nat) (hs : Option HttpState) : NetBoot :=
  { n with conns := Function.update n.conns k hs }

def NetBoot.closeConn (n : NetBoot) (k : Nat) (hs : HttpState) : NetBoot :=
  match hs.dataStart with
  | none => n.withConn k none
  | some start =>
    let use : Use := ⟨n.server.postNum, start, hs.dataLen,
      read n.server.ram start (UInt32.ofInt hs.dataLen).toNat, n.history k⟩
    ({ n with server := useUpload n.server hs, uses := n.uses ++ [use] }.disturbOthers k).withConn k none

/-- A segment of connection `k` has been taken in. -/
def NetBoot.received (n : NetBoot) (k : Nat) (server : Server) (h : History) : NetBoot :=
  let n' : NetBoot := { n with server, history := Function.update n.history k h }
  if h.sent = (n.history k).sent then n' else n'.disturbOthers k

/-- `http_recv` with data. -/
def NetBoot.recvData (files : Nat → Int) (n : NetBoot) (k : Nat) (hs : HttpState)
    (payload : List UInt8) (l : Locals) : NetBoot :=
  let h := History.bytes files l n.server hs (n.history k) payload
  match httpRecv files l n.server hs payload with
  | (server, hs, true) => (n.received k server h).withConn k (some hs)
  | (server, hs, false) => (n.received k server h).closeConn k hs

def NetBoot.httpSent (n : NetBoot) (k : Nat) (hs : HttpState) (l : Locals) : NetBoot :=
  let hs := { hs with retries := 0 }
  if hs.left > 0 then n.withConn k (some (sendData l hs)) else n.closeConn k hs

/-- The fourth poll without an answer aborts the connection. -/
def NetBoot.httpPoll (n : NetBoot) (k : Nat) (hs : HttpState) (l : Locals) : NetBoot :=
  let hs := { hs with retries := hs.retries + 1 }
  if hs.retries = 4 then n.withConn k none else n.withConn k (some (sendData l hs))

def NetBoot.httpAccept (n : NetBoot) (k : Nat) (lineBuf : Int → UInt8) : NetBoot :=
  { n.withConn k (some (Net.httpAccept lineBuf)) with
    history := Function.update n.history k .start }

def netbootStart (ram : Nat → UInt8) : NetBoot where
  server := ⟨0, 0, ram, false⟩
  conns _ := none
  history _ := .start
  uses := []

def netbootNext (files : Nat → Int) (n : NetBoot) (e : Event) : Option NetBoot :=
  if n.server.started then none
  else
    match e with
    | .accept k lineBuf => if (n.conns k).isSome then none else some (n.httpAccept k lineBuf)
    | .data k payload l => (n.conns k).map fun hs => n.recvData files k hs payload l
    | .sent k l => ((n.conns k).filter (·.polled)).map fun hs => n.httpSent k hs l
    | .poll k l => ((n.conns k).filter (·.polled)).map fun hs => n.httpPoll k hs l
    | .close k => (n.conns k).map fun hs => n.closeConn k hs
    | .error k => (n.conns k).map fun _ => n.withConn k none

def netboot (files : Nat → Int) : Machine NetBoot Event where
  init n := ∃ ram, n = netbootStart ram
  next := netbootNext files

/-! ## One connection -/

/-- What the server has of a connection agrees with what it sent. -/
structure Good (s : Server) (hs : HttpState) (h : History) : Prop where
  bound : hs.postlen < 2 ^ 31
  header : hs.postdata = none → hs.dataStart = none ∧ h.sent = []
  place : ∀ a, hs.postdata = some a → a = postBuffer ∧ hs.postpos = h.sent.length
  pending : (hs.postpos : Int) < hs.postlen → hs.dataStart = none
  body : h.disturbed = false → (hs.postpos : Int) < hs.postlen →
    read s.ram postBuffer h.sent.length = h.sent
  some_sent : hs.dataStart ≠ none → h.sent ≠ []
  upload : ∀ a, hs.dataStart = some a → h.disturbed = false → s.postNum = h.role ∧
    (h.delimited = true → ∃ st len : Nat, a = postBuffer + st ∧ hs.dataLen = len ∧
      (st + len : Int) ≤ hs.postlen ∧ hs.postlen ≤ h.sent.length ∧
      read s.ram (postBuffer + st) len = (h.sent.drop st).take len)

section
variable {s s' : Server} {hs hs' : HttpState} {h : History} {l : Locals} {files : Nat → Int}

theorem Good.congr (hg : Good s hs h) (hsame : SamePost hs hs') : Good s hs' h := by
  obtain ⟨⟨e4, e5⟩, e1, e2, e3⟩ := hsame
  obtain ⟨h0, h1, h2, h3, h4, h5, h6⟩ := hg
  constructor <;> simp only [e1, e2, e3, e4, e5] <;> assumption

/-- Before the first byte of a body there is nothing to agree on. -/
theorem good_of_nothing_sent (hsent : h.sent = []) (hbound : hs.postlen < 2 ^ 31)
    (hnone : hs.dataStart = none)
    (hplace : ∀ a, hs.postdata = some a → a = postBuffer ∧ hs.postpos = 0) : Good s hs h := by
  refine ⟨hbound, fun _ => ⟨hnone, hsent⟩, ?_, fun _ => hnone, ?_, fun hc => absurd hnone hc, ?_⟩
  · intro a ha
    rw [hsent]
    exact hplace a ha
  · intro _ _
    rw [hsent]
    rfl
  · intro a ha
    rw [hnone] at ha
    cases ha

theorem good_accept (s : Server) (lineBuf : Int → UInt8) : Good s (httpAccept lineBuf) .start :=
  good_of_nothing_sent rfl (by simp [httpAccept]) rfl fun a ha => by cases ha

/-- Whatever the others do, a connection they disturb has nothing to lose. -/
theorem Good.disturb (hg : Good s hs h) : Good s' hs h.disturb := by
  by_cases hsent : h.sent = []
  · have hnone : hs.dataStart = none := by
      by_contra hc
      exact hg.some_sent hc hsent
    refine good_of_nothing_sent hsent hg.bound hnone fun a ha => ?_
    have := hg.place a ha
    rw [hsent] at this
    exact this
  · have hd : h.disturb.disturbed = true := by simp [History.disturb, hsent]
    refine ⟨hg.bound, hg.header, hg.place, hg.pending, ?_, hg.some_sent, ?_⟩
    · intro hc
      rw [hd] at hc
      cases hc
    · intro a _ hc
      rw [hd] at hc
      cases hc

/-! ## Header lines -/

theorem signed_lt (x : UInt32) : signed x < 2 ^ 31 := by
  have := x.toNat_lt
  unfold signed
  split <;> omega

theorem requestLine_same (hl : requestLine files s hs = some hs') : SamePost hs hs' := by
  unfold requestLine at hl
  split_ifs at hl <;> cases hl <;> exact ⟨⟨rfl, rfl⟩, rfl, rfl, rfl⟩

/-- The empty line may set up the buffer, with nothing sent yet. -/
theorem Good.headerLine (hg : Good s hs h) (hdata : hs.postdata = none) :
    Good s (hs.headerLine l (some postBuffer)) h := by
  obtain ⟨hstart, hsent⟩ := hg.header hdata
  have hset : Good s (if hs.lineBuf 0 = 0 then hs.endOfHeader l (some postBuffer) else hs) h := by
    unfold HttpState.endOfHeader
    split_ifs
    · exact good_of_nothing_sent hsent hg.bound hstart fun a ha => ⟨(Option.some.inj ha).symm, rfl⟩
    · exact hg.congr (respond_same l hs)
    · exact hg
  unfold HttpState.headerLine
  simp only
  generalize (if hs.lineBuf 0 = 0 then hs.endOfHeader l (some postBuffer) else hs) = hs' at hset
  split_ifs
  · have hnone : hs'.dataStart = none := by
      by_contra hc
      exact hset.some_sent hc hsent
    refine good_of_nothing_sent hsent (signed_lt _) hnone fun a ha => ?_
    have := hset.place a ha
    rw [hsent] at this
    exact this
  · exact hset

theorem Good.handleLine (hg : Good s hs h) (hdata : hs.postdata = none)
    (hl : handleLine files l s hs = some hs') : Good s hs' h := by
  unfold Net.handleLine at hl
  split_ifs at hl
  · exact hg.congr (requestLine_same hl)
  · cases hl
    exact hg.headerLine hdata

/-! ## The body -/

/-- One more byte of the body at its place, before it is looked through. -/
theorem read_body_snoc {m : Nat → UInt8} {sent : List UInt8}
    (h : read m postBuffer sent.length = sent) (c : UInt8) :
    read (Function.update m (postBuffer + sent.length) c) postBuffer (sent ++ [c]).length =
      sent ++ [c] := by
  rw [List.length_append, List.length_singleton, read_add, read_update_of_outside (by omega), h,
    read_succ, Function.update_self]
  rfl

/-- The upload an accepted body holds. -/
theorem handlePost_upload (hs : HttpState) (sent : List UInt8) {a : Nat} (hs1 : hs.postlen = sent.length)
    (hbody : read s.ram postBuffer sent.length = sent)
    (hd : Net.delimited s.ram postBuffer hs.postlen = true)
    (ha : (handlePost l s hs postBuffer).2.dataStart = some a) :
    ∃ st len : Nat, a = postBuffer + st ∧ (handlePost l s hs postBuffer).2.dataLen = len ∧
      (st + len : Int) ≤ hs.postlen ∧
      read (handlePost l s hs postBuffer).1.ram (postBuffer + st) len = (sent.drop st).take len := by
  obtain ⟨blen, st, stop, hloc, hst, hstop, hend⟩ := locate_delimited l hd
  unfold handlePost at ha ⊢
  rw [hloc] at ha ⊢
  simp only [Option.some.injEq] at ha
  refine ⟨st, stop - 2 - st, ha.symm, ?_, ?_, ?_⟩
  · simp only
    omega
  · omega
  · simp only
    rw [read_update_of_outside (by omega), read_part (n := sent.length) (by omega), hbody]

theorem handlePost_frame (l : Locals) (s : Server) (hs : HttpState) (postdata : Nat) :
    (handlePost l s hs postdata).2.postdata = hs.postdata ∧
      (handlePost l s hs postdata).2.postpos = hs.postpos ∧
      (handlePost l s hs postdata).2.postlen = hs.postlen := by
  unfold handlePost
  split <;> exact ⟨rfl, rfl, rfl⟩

theorem handlePost_role {a : Nat} (hnone : hs.dataStart = none)
    (ha : (handlePost l s hs postBuffer).2.dataStart = some a) :
    (handlePost l s hs postBuffer).1.postNum = s.postNum + 1 := by
  unfold handlePost at ha ⊢
  split at ha
  · rw [hnone] at ha
    cases ha
  · rfl

/-- The last byte of the body: it is looked through. -/
theorem Good.lastByte (hg : Good s hs h) (hdata : hs.postdata = some postBuffer) (c : UInt8)
    (hlast : ((hs.postpos + 1 : Nat) : Int) = hs.postlen) :
    Good (handlePost l { s with ram := Function.update s.ram (postBuffer + hs.postpos) c }
        { hs with postpos := hs.postpos + 1 } postBuffer).1
      (handlePost l { s with ram := Function.update s.ram (postBuffer + hs.postpos) c }
        { hs with postpos := hs.postpos + 1 } postBuffer).2 (h.byte s hs c) := by
  have hpos := (hg.place _ hdata).2
  have hnone := hg.pending (by omega)
  obtain ⟨f1, f2, f3⟩ := handlePost_frame l
    { s with ram := Function.update s.ram (postBuffer + hs.postpos) c }
    { hs with postpos := hs.postpos + 1 } postBuffer
  have hbyte : h.byte s hs c = { h with
      sent := h.sent ++ [c]
      role := s.postNum + 1
      delimited := Net.delimited (Function.update s.ram (postBuffer + hs.postpos) c) postBuffer
        hs.postlen } := by
    unfold History.byte
    rw [hdata]
    exact if_pos hlast
  rw [hbyte]
  refine ⟨?_, ?_, ?_, ?_, ?_, ?_, ?_⟩
  · rw [f3]
    exact hg.bound
  · rw [f1]
    intro hc
    exact absurd (hc.symm.trans hdata) (by simp)
  · rw [f1, f2]
    intro a ha
    refine ⟨Option.some.inj (ha.symm.trans hdata), ?_⟩
    simp [hpos]
  · rw [f2, f3]
    intro hc
    exact absurd hlast (by simp only at hc; omega)
  · rw [f2, f3]
    intro _ hc
    exact absurd hlast (by simp only at hc; omega)
  · intro _
    simp
  · intro a ha hund
    refine ⟨handlePost_role hnone ha, fun hd => ?_⟩
    have hbody := read_body_snoc (hg.body hund (by omega)) c
    rw [← hpos] at hbody
    obtain ⟨st, len, e1, e2, e3, e4⟩ := handlePost_upload (l := l)
      (s := { s with ram := Function.update s.ram (postBuffer + hs.postpos) c })
      { hs with postpos := hs.postpos + 1 } (h.sent ++ [c])
      (by simp [← hlast, hpos]) hbody hd ha
    refine ⟨st, len, e1, e2, ?_, ?_, e4⟩
    · rw [f3]
      exact e3
    · rw [f3]
      simp [← hlast, hpos]

/-- A byte that is not the last one of the body, or one behind it. -/
theorem Good.otherByte (hg : Good s hs h) (hdata : hs.postdata = some postBuffer) (c : UInt8)
    (hlast : ((hs.postpos + 1 : Nat) : Int) ≠ hs.postlen) :
    Good { s with ram := Function.update s.ram (postBuffer + hs.postpos) c }
      { hs with postpos := hs.postpos + 1 } (h.byte s hs c) := by
  have hpos := (hg.place _ hdata).2
  have hbyte : h.byte s hs c = { h with sent := h.sent ++ [c] } := by
    unfold History.byte
    rw [hdata]
    exact if_neg hlast
  rw [hbyte]
  refine ⟨hg.bound, ?_, ?_, ?_, ?_, ?_, ?_⟩
  · intro hc
    exact absurd (hc.symm.trans hdata) (by simp)
  · intro a ha
    refine ⟨(hg.place a ha).1, ?_⟩
    simp [hpos]
  · intro hc
    exact hg.pending (by simp only at hc; omega)
  · intro hund hc
    have := read_body_snoc (hg.body hund (by simp only at hc; omega)) c
    rw [← hpos] at this
    exact this
  · intro _
    simp
  · intro a ha hund
    obtain ⟨h1, h2⟩ := hg.upload a ha hund
    refine ⟨h1, fun hd => ?_⟩
    obtain ⟨st, len, e1, e2, e3, e4, e5⟩ := h2 hd
    have hle : st + len ≤ h.sent.length := by omega
    refine ⟨st, len, e1, e2, e3, ?_, ?_⟩
    · simp only [List.length_append, List.length_singleton]
      omega
    · show read (Function.update s.ram (postBuffer + hs.postpos) c) (postBuffer + st) len = _
      rw [read_update_of_outside (by omega), e5, List.drop_append_of_le_length (by omega),
        List.take_append_of_le_length (by simp; omega)]

theorem Good.headerByte (hg : Good s hs h) (hdata : hs.postdata = none) (c : UInt8) :
    Good s (Net.headerByte (Net.handleLine files l s) hs c).1 h := by
  unfold Net.headerByte
  split_ifs
  · exact hg
  · have hg' : Good s { hs with lineBuf := Function.update hs.lineBuf hs.lineBufpos 0 } h :=
      hg.congr ⟨⟨rfl, rfl⟩, rfl, rfl, rfl⟩
    simp only
    split
    · exact hg'
    · rename_i hs' hl
      exact (hg'.handleLine hdata hl).congr ⟨⟨rfl, rfl⟩, rfl, rfl, rfl⟩
  · exact hg.congr (pushLine_same hs c)

theorem Good.bodyByte (hg : Good s hs h) (hdata : hs.postdata = some postBuffer) (c : UInt8) :
    Good ((netbootServer files l).bodyByte l s hs postBuffer c).1
      ((netbootServer files l).bodyByte l s hs postBuffer c).2 (h.byte s hs c) := by
  unfold HttpServer.bodyByte netbootServer
  by_cases hlast : ((hs.postpos + 1 : Nat) : Int) = hs.postlen
  · simp only [if_pos hlast]
    exact (hg.lastByte hdata c hlast).congr (respond_same l _)
  · simp only [if_neg hlast]
    exact hg.otherByte hdata c hlast

/-- **Byte step.** -/
theorem Good.byte (hg : Good s hs h) (files : Nat → Int) (l : Locals) (c : UInt8) :
    Good (recvByte files l s hs c).1 (recvByte files l s hs c).2.1 (h.byte s hs c) := by
  unfold recvByte HttpServer.recvByte
  split
  · rename_i hdata
    have hbyte : h.byte s hs c = h := by
      unfold History.byte
      rw [hdata]
    rw [hbyte]
    exact hg.headerByte hdata c
  · rename_i postdata hdata
    obtain ⟨rfl, -⟩ := hg.place _ hdata
    exact hg.bodyByte hdata c

/-! ## A segment -/

theorem httpRecv_cons (s : Server) (hs : HttpState) (c : UInt8) (cs : List UInt8) :
    httpRecv files l s hs (c :: cs) =
      if (recvByte files l s hs c).2.2 then
        httpRecv files l (recvByte files l s hs c).1 (recvByte files l s hs c).2.1 cs
      else recvByte files l s hs c :=
  (netbootServer files l).httpRecv_cons l s hs c cs

theorem bytes_cons (s : Server) (hs : HttpState) (h : History) (c : UInt8) (cs : List UInt8) :
    History.bytes files l s hs h (c :: cs) =
      if (recvByte files l s hs c).2.2 then
        History.bytes files l (recvByte files l s hs c).1 (recvByte files l s hs c).2.1
          (h.byte s hs c) cs
      else h.byte s hs c := by
  rw [History.bytes]
  rcases recvByte files l s hs c with ⟨s', hs', _ | _⟩ <;> rfl

theorem Good.bytes (hg : Good s hs h) (files : Nat → Int) (l : Locals) (cs : List UInt8) :
    Good (httpRecv files l s hs cs).1 (httpRecv files l s hs cs).2.1
      (History.bytes files l s hs h cs) := by
  induction cs generalizing s hs h with
  | nil => exact hg
  | cons c cs ih =>
    rw [httpRecv_cons, bytes_cons]
    have hstep := hg.byte files l c
    split
    · exact ih hstep
    · exact hstep

/-- A byte of the header leaves the server alone, one of the body is sent. -/
theorem byte_sent (files : Nat → Int) (l : Locals) (s : Server) (hs : HttpState) (h : History)
    (c : UInt8) : (h.byte s hs c).sent = h.sent ∧ (recvByte files l s hs c).1 = s ∨
      (h.byte s hs c).sent = h.sent ++ [c] := by
  unfold History.byte recvByte HttpServer.recvByte
  cases hs.postdata with
  | none => exact .inl ⟨rfl, rfl⟩
  | some postdata =>
    right
    simp only
    split <;> rfl

theorem bytes_sent_length (files : Nat → Int) (l : Locals) (s : Server) (hs : HttpState)
    (h : History) (cs : List UInt8) :
    h.sent.length ≤ (History.bytes files l s hs h cs).sent.length := by
  induction cs generalizing s hs h with
  | nil => exact Nat.le_refl _
  | cons c cs ih =>
    have hbyte : h.sent.length ≤ (h.byte s hs c).sent.length := by
      rcases byte_sent files l s hs h c with ⟨e, -⟩ | e <;> rw [e]
      simp
    rw [bytes_cons]
    split
    · exact Nat.le_trans hbyte (ih _ _ _)
    · exact hbyte

/-- A segment with nothing of a body in it leaves the server alone. -/
theorem httpRecv_quiet {cs : List UInt8} (hq : (History.bytes files l s hs h cs).sent = h.sent) :
    (httpRecv files l s hs cs).1 = s := by
  induction cs generalizing s hs h with
  | nil => rfl
  | cons c cs ih =>
    rw [bytes_cons] at hq
    rw [httpRecv_cons]
    rcases byte_sent files l s hs h c with ⟨e, hsame⟩ | e
    · split at hq
      · rename_i hopen
        rw [if_pos hopen, ih (hq.trans e.symm), hsame]
      · rename_i hopen
        rw [if_neg hopen, hsame]
    · exfalso
      have hmore : h.sent.length < (h.byte s hs c).sent.length := by
        rw [e]
        simp
      split at hq
      · have := bytes_sent_length files l (recvByte files l s hs c).1
          (recvByte files l s hs c).2.1 (h.byte s hs c) cs
        rw [hq] at this
        omega
      · rw [hq] at hmore
        omega

end

/-! ## All connections -/

/-- Each connection agrees with what the server has of it. -/
def Inv (n : NetBoot) : Prop :=
  ∀ k hs, n.conns k = some hs → Good n.server hs (n.history k)

section
variable {files : Nat → Int} {n n' : NetBoot} {k : Nat} {hs : HttpState}

/-- The state of one connection is replaced, and the others agree already. -/
theorem inv_withConn {hs' : Option HttpState}
    (hothers : ∀ j hsj, j ≠ k → n.conns j = some hsj → Good n.server hsj (n.history j))
    (hk : ∀ hs, hs' = some hs → Good n.server hs (n.history k)) : Inv (n.withConn k hs') := by
  intro j hsj hj
  change Function.update n.conns k hs' j = some hsj at hj
  by_cases hjk : j = k
  · subst hjk
    rw [Function.update_self] at hj
    exact hk hsj hj
  · rw [Function.update_of_ne hjk] at hj
    exact hothers j hsj hjk hj

theorem Inv.withConn (hi : Inv n) {hs' : Option HttpState}
    (hk : ∀ hs, hs' = some hs → Good n.server hs (n.history k)) : Inv (n.withConn k hs') :=
  inv_withConn (fun j hsj _ hj => hi j hsj hj) hk

theorem disturbOthers_history {j : Nat} (hjk : j ≠ k) :
    (n.disturbOthers k).history j = (n.history j).disturb := if_neg hjk

theorem Inv.closeConn (hi : Inv n) : Inv (n.closeConn k hs) := by
  unfold NetBoot.closeConn
  split
  · exact hi.withConn fun _ hc => by cases hc
  · refine inv_withConn (fun j hsj hjk hj => ?_) fun _ hc => by cases hc
    rw [disturbOthers_history hjk]
    exact (hi j hsj hj).disturb

theorem received_server (server : Server) (h : History) : (n.received k server h).server = server := by
  unfold NetBoot.received
  split <;> rfl

theorem received_history (server : Server) (h : History) : (n.received k server h).history k = h := by
  unfold NetBoot.received
  split
  · exact Function.update_self ..
  · exact (if_pos rfl).trans (Function.update_self ..)

/-- The other connections are disturbed, or nothing has changed for them. -/
theorem Inv.received_others (hi : Inv n) {server : Server} {h : History}
    (hquiet : h.sent = (n.history k).sent → server = n.server) {j : Nat} {hsj : HttpState}
    (hjk : j ≠ k) (hj : (n.received k server h).conns j = some hsj) :
    Good server hsj ((n.received k server h).history j) := by
  have hold : Function.update n.history k h j = n.history j := Function.update_of_ne hjk ..
  unfold NetBoot.received at hj ⊢
  split at hj
  · rename_i hsame
    rw [if_pos hsame, hquiet hsame]
    show Good n.server hsj (Function.update n.history k h j)
    rw [hold]
    exact hi j hsj hj
  · rename_i hmore
    rw [if_neg hmore, disturbOthers_history hjk]
    show Good server hsj (Function.update n.history k h j).disturb
    rw [hold]
    exact (hi j hsj hj).disturb

theorem Inv.recvData (hi : Inv n) (hk : n.conns k = some hs) (payload : List UInt8) (l : Locals) :
    Inv (n.recvData files k hs payload l) := by
  have hg := (hi k hs hk).bytes files l payload
  have hquiet : (History.bytes files l n.server hs (n.history k) payload).sent =
      (n.history k).sent → (httpRecv files l n.server hs payload).1 = n.server := httpRecv_quiet
  have hrefused : (httpRecv files l n.server hs payload).2.2 = false →
      (httpRecv files l n.server hs payload).2.1.postdata = none := HttpServer.httpRecv_refused
  unfold NetBoot.recvData
  generalize History.bytes files l n.server hs (n.history k) payload = h at hg hquiet ⊢
  generalize httpRecv files l n.server hs payload = r at hg hquiet hrefused ⊢
  obtain ⟨server, hs', opened⟩ := r
  simp only at hg hquiet hrefused ⊢
  have hothers : ∀ j hsj, j ≠ k → (n.received k server h).conns j = some hsj →
      Good (n.received k server h).server hsj ((n.received k server h).history j) := by
    intro j hsj hjk hj
    rw [received_server]
    exact hi.received_others hquiet hjk hj
  cases opened with
  | true =>
    refine inv_withConn hothers fun hs'' hc => ?_
    rw [received_server, received_history, ← Option.some.inj hc]
    exact hg
  | false =>
    have hnone := (hg.header (hrefused rfl)).1
    simp only [NetBoot.closeConn, hnone]
    exact inv_withConn hothers fun _ hc => by cases hc

theorem Inv.httpAccept (hi : Inv n) (lineBuf : Int → UInt8) : Inv (n.httpAccept k lineBuf) := by
  intro j hsj hj
  change Function.update n.conns k (some (Net.httpAccept lineBuf)) j = some hsj at hj
  show Good n.server hsj (Function.update n.history k .start j)
  by_cases hjk : j = k
  · subst hjk
    rw [Function.update_self] at hj ⊢
    rw [← Option.some.inj hj]
    exact good_accept n.server lineBuf
  · rw [Function.update_of_ne hjk] at hj ⊢
    exact hi j hsj hj

theorem Inv.httpSent (hi : Inv n) (hk : n.conns k = some hs) (l : Locals) :
    Inv (n.httpSent k hs l) := by
  have hg : Good n.server { hs with retries := 0 } (n.history k) :=
    (hi k hs hk).congr ⟨⟨rfl, rfl⟩, rfl, rfl, rfl⟩
  unfold NetBoot.httpSent
  simp only
  split
  · exact hi.withConn fun _ hc => Option.some.inj hc ▸ hg.congr (sendData_same l _)
  · exact hi.closeConn

theorem Inv.httpPoll (hi : Inv n) (hk : n.conns k = some hs) (l : Locals) :
    Inv (n.httpPoll k hs l) := by
  have hg : Good n.server { hs with retries := hs.retries + 1 } (n.history k) :=
    (hi k hs hk).congr ⟨⟨rfl, rfl⟩, rfl, rfl, rfl⟩
  unfold NetBoot.httpPoll
  simp only
  split
  · exact hi.withConn fun _ hc => by cases hc
  · exact hi.withConn fun _ hc => Option.some.inj hc ▸ hg.congr (sendData_same l _)

/-- **Invariant step.** -/
theorem inv_next {e : Event} (hi : Inv n) (hn : netbootNext files n e = some n') : Inv n' := by
  unfold netbootNext at hn
  split at hn
  · cases hn
  cases e with
  | accept k lineBuf =>
    simp only at hn
    split at hn
    · cases hn
    · cases hn
      exact hi.httpAccept lineBuf
  | data k payload l =>
    obtain ⟨hs, hk, rfl⟩ := Option.map_eq_some_iff.1 hn
    exact hi.recvData hk payload l
  | sent k l =>
    obtain ⟨hs, hk, rfl⟩ := Option.map_eq_some_iff.1 hn
    exact hi.httpSent (Option.filter_eq_some_iff.1 hk).1 l
  | poll k l =>
    obtain ⟨hs, hk, rfl⟩ := Option.map_eq_some_iff.1 hn
    exact hi.httpPoll (Option.filter_eq_some_iff.1 hk).1 l
  | close k =>
    obtain ⟨hs, hk, rfl⟩ := Option.map_eq_some_iff.1 hn
    exact hi.closeConn
  | error k =>
    obtain ⟨hs, hk, rfl⟩ := Option.map_eq_some_iff.1 hn
    exact hi.withConn fun _ hc => by cases hc

/-- **Every connection agrees with the server, whatever the order of the events.** -/
theorem inv_reachable (h : (netboot files).Reachable n) : Inv n := by
  refine Machine.invariant (M := netboot files) (I := Inv) ?_ (fun _ _ _ hi hn => inv_next hi hn) n h
  rintro _ ⟨ram, rfl⟩ k hs hk
  cases hk

end

/-! ## Uses -/

/-- The upload is used in its role, with the bytes of its connection. -/
def Use.Right (u : Use) : Prop :=
  u.role = u.history.role ∧ ∃ st len : Nat, u.dataStart = postBuffer + st ∧ u.dataLen = len ∧
    st + len ≤ u.history.sent.length ∧ u.bytes = (u.history.sent.drop st).take len

/-- An upload in hand was delimited and nobody got in between. -/
def History.Calm (h : History) (hs : HttpState) : Prop :=
  hs.dataStart = none ∨ h.disturbed = false ∧ h.delimited = true

instance (h : History) (hs : HttpState) : Decidable (h.Calm hs) := inferInstanceAs (Decidable (_ ∨ _))

/-- Whether a connection that the event closes is calm. -/
def calm (n : NetBoot) : Event → Bool
  | .close k => (n.conns k).all fun hs => (n.history k).Calm hs
  | .sent k _ => (n.conns k).all fun hs => hs.left > 0 ∨ (n.history k).Calm hs
  | _ => true

section
variable {files : Nat → Int} {n n' : NetBoot} {k : Nat} {hs : HttpState}

/-- Closing a calm connection uses its upload right, if it has one. -/
theorem closeConn_uses (hg : Good n.server hs (n.history k)) (hc : (n.history k).Calm hs)
    (hu : ∀ u ∈ n.uses, u.Right) : ∀ u ∈ (n.closeConn k hs).uses, u.Right := by
  unfold NetBoot.closeConn
  split
  · exact hu
  · rename_i start hstart
    obtain ⟨hund, hdel⟩ := hc.resolve_left (by simp [hstart])
    intro u hmem
    change u ∈ n.uses ++ [_] at hmem
    rcases List.mem_append.1 hmem with hmem | hmem
    · exact hu u hmem
    obtain rfl := List.mem_singleton.1 hmem
    obtain ⟨hrole, hup⟩ := hg.upload start hstart hund
    obtain ⟨st, len, e1, e2, e3, e4, e5⟩ := hup hdel
    have hlen : (UInt32.ofInt hs.dataLen).toNat = len := by
      have := hg.bound
      rw [e2, toNat_ofInt]
      omega
    refine ⟨hrole, st, len, e1, e2, by simp only; omega, ?_⟩
    simp only
    rw [hlen, e1, e5]

/-- A connection closed for a bad request has no upload to use. -/
theorem recvData_uses (hg : Good n.server hs (n.history k)) (payload : List UInt8) (l : Locals) :
    (n.recvData files k hs payload l).uses = n.uses := by
  have hg' := hg.bytes files l payload
  have hrefused : (httpRecv files l n.server hs payload).2.2 = false →
      (httpRecv files l n.server hs payload).2.1.postdata = none := HttpServer.httpRecv_refused
  unfold NetBoot.recvData
  generalize History.bytes files l n.server hs (n.history k) payload = h at hg' ⊢
  generalize httpRecv files l n.server hs payload = r at hg' hrefused ⊢
  obtain ⟨server, hs', opened⟩ := r
  simp only at hg' hrefused ⊢
  have huses : (n.received k server h).uses = n.uses := by
    unfold NetBoot.received
    split <;> rfl
  cases opened with
  | true => exact huses
  | false =>
    have hnone := (hg'.header (hrefused rfl)).1
    simp only [NetBoot.closeConn, hnone]
    exact huses

/-- Only closing a connection uses an upload. -/
theorem next_uses {e : Event} (hi : Inv n) (hcalm : calm n e = true)
    (hn : netbootNext files n e = some n') (hu : ∀ u ∈ n.uses, u.Right) :
    ∀ u ∈ n'.uses, u.Right := by
  unfold netbootNext at hn
  split at hn
  · cases hn
  cases e with
  | accept k lineBuf =>
    simp only at hn
    split at hn
    · cases hn
    · cases hn
      exact hu
  | data k payload l =>
    obtain ⟨hs, hk, rfl⟩ := Option.map_eq_some_iff.1 hn
    rw [recvData_uses (hi k hs hk) payload l]
    exact hu
  | sent k l =>
    obtain ⟨hs, hk, rfl⟩ := Option.map_eq_some_iff.1 hn
    obtain ⟨hk, -⟩ := Option.filter_eq_some_iff.1 hk
    have hc : hs.left > 0 ∨ (n.history k).Calm hs := by simpa [calm, hk] using hcalm
    unfold NetBoot.httpSent
    simp only
    split
    · exact hu
    · rename_i hleft
      have hg : Good n.server { hs with retries := 0 } (n.history k) :=
        (hi k hs hk).congr ⟨⟨rfl, rfl⟩, rfl, rfl, rfl⟩
      exact closeConn_uses hg (hc.resolve_left hleft) hu
  | poll k l =>
    obtain ⟨hs, hk, rfl⟩ := Option.map_eq_some_iff.1 hn
    unfold NetBoot.httpPoll
    simp only
    split <;> exact hu
  | close k =>
    obtain ⟨hs, hk, rfl⟩ := Option.map_eq_some_iff.1 hn
    have hc : (n.history k).Calm hs := by simpa [calm, hk] using hcalm
    exact closeConn_uses (hi k hs hk) hc hu
  | error k =>
    obtain ⟨hs, hk, rfl⟩ := Option.map_eq_some_iff.1 hn
    exact hu

/-! ## Top theorem -/

/-- **In its role, with its bytes.** -/
theorem uses_right (files : Nat → Int) {n : NetBoot}
    (h : ((netboot files).guard fun n e => calm n e = true).Reachable n) :
    ∀ u ∈ n.uses, u.Right := by
  refine h.induction (I := fun n => ∀ u ∈ n.uses, u.Right) ?_ ?_
  · rintro _ ⟨ram, rfl⟩ u hu
    cases hu
  · intro n e n' hr hu hn
    obtain ⟨hcalm, hn⟩ := Machine.guard_next.1 hn
    exact next_uses (inv_reachable hr.of_guard) hcalm hn hu

end

/-- A post of the kernel `K`. -/
def kernelPost : List UInt8 :=
  chars "POST /\nContent-Length: 9\n\nB\r\n\r\nK\r\nB".toList

/-- A call that finds nothing uninitialised and whose data go in one piece. -/
def plainLocals : Locals := ⟨0, 0, 1460, fun _ => .ok⟩

def blankBoot : NetBoot := netbootStart fun _ => 0

/-- Two connections, the second post behind the end of the first. -/
theorem uses_right_two_posts : ∃ n : NetBoot,
    n.uses.map (fun u => (u.role, u.bytes)) = [(1, [0x4b]), (2, [0x4b])] ∧
      ∀ u ∈ n.uses, u.Right := by
  let M := (netboot fun _ => 1).guard fun n e => calm n e = true
  have hrun : ((M.run blankBoot [.accept 0 fun _ => 0, .accept 1 fun _ => 0,
      .data 0 kernelPost plainLocals, .sent 0 plainLocals,
      .data 1 kernelPost plainLocals, .sent 1 plainLocals]).map
        fun n => n.uses.map fun u => (u.role, u.bytes)) = some [(1, [0x4b]), (2, [0x4b])] := by
    decide +kernel
  obtain ⟨n, hn, huses⟩ := Option.map_eq_some_iff.1 hrun
  have hinit : M.init blankBoot := ⟨_, rfl⟩
  exact ⟨n, huses, uses_right (fun _ => 1) ((Machine.Reachable.of_init hinit).run hn)⟩

/-- **Two posts at a time.**  The kernel of the first is used as an initrd. -/
theorem two_kernels_swapped : ∃ n, (netboot fun _ => 1).Reachable n ∧
    ∃ u ∈ n.uses, u.role = 2 ∧ u.history.role = 1 ∧ ¬u.Right := by
  have hrun : (((netboot fun _ => 1).run blankBoot [.accept 0 fun _ => 0, .accept 1 fun _ => 0,
      .data 0 kernelPost plainLocals, .data 1 kernelPost plainLocals, .sent 0 plainLocals]).map
      fun n => n.uses.map fun u => (u.role, u.history.role)) = some [(2, 1)] := by
    decide +kernel
  obtain ⟨n, hn, hroles⟩ := Option.map_eq_some_iff.1 hrun
  have hinit : (netboot fun _ => 1).init blankBoot := ⟨_, rfl⟩
  refine ⟨n, (Machine.Reachable.of_init hinit).run hn, ?_⟩
  have hmem : ((2, 1) : Nat × Nat) ∈ n.uses.map fun u => (u.role, u.history.role) := by
    rw [hroles]
    exact List.mem_singleton.2 rfl
  obtain ⟨u, hu, he⟩ := List.mem_map.1 hmem
  have hrole : u.role = 2 := congrArg Prod.fst he
  have haccepted : u.history.role = 1 := congrArg Prod.snd he
  exact ⟨u, hu, hrole, haccepted, fun hr => by have := hr.1; omega⟩

end Gentoox.Net
