import GentooxLoader.Flash.Reflash
import GentooxLoader.Lib.Strings
import GentooxLoader.Net.Receive

/-!
# Booting and updating over http (networktools/webboot, networktools/webupdate)

The kernel, the initrd and the append line are fetched one after the other, each
with a HEAD request for its length and a GET request for its body; the end of an
answer is a callback with `p == NULL`.  The update fetches one image.

    headPhase_startRequest, WebBoot.HeadPhase.recvKernel, …   the way to the body
    sameBody_iff            two ways of cutting a response give its body ↔
                            neither cuts inside the first CRLFCRLF
    cut_header_end          one that does: the body is lost

Request texts, the console and the progress display are left out.
-/

namespace Gentoox.Net

open Cells Lib Streams

/-! ## Algorithm -/

/-- A callback does not come back from these. -/
inductive Halt where
  | boot (initrdSize : Nat) (appendLine : Nat → UInt8)
  | reflash (call : Flash.Reflash)
  | loop

inductive Handler where
  | handleKernel
  | handleInitrd
  | handleAppend
  deriving DecidableEq

inductive Effect where
  | tcpClose
  | tcpConnect (handler : Handler)
  | malloc (block size : Nat)
  | free (block : Nat)
  | memPlaceKernel (kernel : List UInt8)

/-- The static variables of webboot.c.  Blocks are numbered as `malloc` gives
them out; `appendLine` is the memory from `appendLine` on. -/
structure WebBoot where
  recv : Receive
  contLen : Int
  fraction : Int
  initrdSize : Nat
  header : Option Nat
  appendLine : Nat → UInt8
  blocks : Nat
  effects : List Effect

def headerBytes : Nat := 5120
def tempBufBytes : Nat := 15 * 1024 * 1024

def WebBoot.effect (s : WebBoot) (e : Effect) : WebBoot := { s with effects := s.effects ++ [e] }

/-- `free(header)`; the pointer stays. -/
def WebBoot.freeHeader (s : WebBoot) : WebBoot :=
  match s.header with
  | none => s
  | some block => s.effect (.free block)

def processHeader (s : WebBoot) : WebBoot :=
  match strstr (cstr (read s.recv.header 0 (s.recv.hLen + headerBytes)))
      (chars ['C', 'o', 'n', 't', 'e', 'n', 't', '-', 'L', 'e', 'n', 'g', 't', 'h']) with
  | some headerPtr =>
    let contLen := simpleStrtol (cstr (read s.recv.header (headerPtr + 16) headerBytes)) 10
    { s.freeHeader with contLen, fraction := contLen.tdiv 64 }
  | none => { s with fraction := 250000 }

section
variable (fresh : Nat → Nat → UInt8) (s : WebBoot)

/-- `header = malloc(5120)`, with what the block held before. -/
def WebBoot.mallocHeader : WebBoot :=
  { s.effect (.malloc s.blocks headerBytes) with
    header := some s.blocks
    blocks := s.blocks + 1
    recv := { s.recv with header := fresh s.blocks } }

/-- The variables before the HEAD request for the next file. -/
def WebBoot.startRequest : WebBoot :=
  let s := { s with
    recv := { s.recv with progCheck := 0, hLen := 0, fileLen := 0, eoh := false, head := true }
    contLen := 11 * 1024 * 1024
    fraction := 11 * 1024 * 1024 / 64 }
  let s := { s.freeHeader with header := none }
  s.mallocHeader fresh

def WebBoot.clearTempBuf : WebBoot :=
  { s with recv := { s.recv with buf := fill s.recv.buf 0 0 tempBufBytes } }

/-- After the test of `p` there is only the window left to do for `p == NULL`. -/
def WebBoot.clearWindow : WebBoot := { s with recv := s.recv.clearWindow }

/-- A segment for `tempBuf`. -/
def WebBoot.data (p : Chain) : WebBoot := { s with recv := s.recv.data s.contLen s.fraction p }

def recvKernel : Option Chain → Except Halt WebBoot
  | some p => .ok (s.data p)
  | none =>
    let s := s.effect .tcpClose
    if s.recv.head = false then
      let s := s.effect (.memPlaceKernel (read s.recv.buf 0 s.recv.fileLen))
      let s := (s.startRequest fresh).clearTempBuf
      .ok (s.effect (.tcpConnect .handleInitrd)).clearWindow
    else
      let s := processHeader { s with recv := { s.recv with head := false } }
      .ok (s.effect (.tcpConnect .handleKernel)).clearWindow

def recvInitrd : Option Chain → Except Halt WebBoot
  | some p => .ok (s.data p)
  | none =>
    let s := s.effect .tcpClose
    if s.recv.head = false then
      let s := { s with initrdSize := s.recv.fileLen }
      let s := s.startRequest fresh
      .ok (s.effect (.tcpConnect .handleAppend)).clearWindow
    else
      let s := processHeader { s with recv := { s.recv with head := false } }
      .ok (s.effect (.tcpConnect .handleInitrd)).clearWindow

/-- The variables of the loop with `appendLine` as the destination. -/
def WebBoot.appendRecv : Receive := { s.recv with buf := s.appendLine }

def recvAppend : Option Chain → Except Halt WebBoot
  | some p =>
    let r := s.appendRecv.data s.contLen s.fraction p
    .ok { s with recv := { r with buf := s.recv.buf }, appendLine := r.buf }
  | none =>
    let s := s.effect .tcpClose
    if s.recv.head = false then .error (.boot s.initrdSize s.appendLine)
    else
      let s := processHeader { s with recv := { s.recv with head := false } }
      let s := { s.effect (.malloc s.blocks (s.contLen + 1).toNat) with
        appendLine := fresh s.blocks
        blocks := s.blocks + 1 }
      .ok (s.effect (.tcpConnect .handleAppend)).clearWindow

def webbootInit : WebBoot :=
  ((s.startRequest fresh).clearTempBuf).effect (.tcpConnect .handleKernel)

end

/-- The static variables of webupdate.c, which has no HEAD requests. -/
structure WebUpdate where
  recv : Receive
  contLen : Int
  fraction : Int

def flashBIOS (s : WebUpdate) : Halt :=
  let fileLen := s.recv.fileLen
  if fileLen ≠ 256 * 1024 ∧ fileLen ≠ 512 * 1024 ∧ fileLen ≠ 1024 * 1024 then .loop
  else .reflash ⟨read s.recv.buf 0 fileLen, 0, UInt32.ofNat fileLen⟩

def recvBIOS (s : WebUpdate) : Option Chain → Except Halt WebUpdate
  | some p => .ok { s with recv := s.recv.data s.contLen s.fraction p }
  | none => .error (flashBIOS s)

def webupdateInit (s : WebUpdate) : WebUpdate where
  recv := { s.recv with
    progCheck := 0
    fileLen := 0
    eoh := false
    head := false
    buf := fill s.recv.buf 0 0 (1024 * 1024) }
  contLen := 256 * 1024
  fraction := 256 * 1024 / 16

/-! ## The way to the body -/

/-- The answer to a HEAD request is being received. -/
structure WebBoot.HeadPhase (s : WebBoot) : Prop where
  head : s.recv.head = true
  eoh : s.recv.eoh = false
  fileLen : s.recv.fileLen = 0

theorem byte_head (contLen fraction : Int) {s : Receive} (hh : s.head = true) (he : s.eoh = false)
    (x : UInt8) : (s.byte contLen fraction x).head = true ∧ (s.byte contLen fraction x).eoh = false ∧
      (s.byte contLen fraction x).fileLen = s.fileLen := by
  simp [Receive.byte, Receive.shift, Receive.storeHeader, Receive.storeBody, Receive.findHeaderEnd,
    hh, he]

theorem data_head (contLen fraction : Int) {s : Receive} (hh : s.head = true) (he : s.eoh = false)
    (p : Chain) : (s.data contLen fraction p).head = true ∧ (s.data contLen fraction p).eoh = false ∧
      (s.data contLen fraction p).fileLen = s.fileLen := by
  have hbytes : ∀ (t : List UInt8) (s : Receive), s.head = true → s.eoh = false →
      (t.foldl (Receive.byte contLen fraction) s).head = true ∧
        (t.foldl (Receive.byte contLen fraction) s).eoh = false ∧
        (t.foldl (Receive.byte contLen fraction) s).fileLen = s.fileLen := by
    intro t
    induction t with
    | nil =>
      intro s hh he
      exact ⟨hh, he, rfl⟩
    | cons x t ih =>
      intro s hh he
      obtain ⟨h1, h2, h3⟩ := byte_head contLen fraction hh he x
      obtain ⟨h4, h5, h6⟩ := ih _ h1 h2
      exact ⟨h4, h5, h6.trans h3⟩
  have hclear : s.clearWindow = { s with c := ⟨0, 0, 0, 0⟩ } := by
    simp [Receive.clearWindow, he]
  rw [data_eq, hclear]
  exact hbytes p.flatten { s with c := ⟨0, 0, 0, 0⟩ } hh he

theorem freeHeader_recv (s : WebBoot) : s.freeHeader.recv = s.recv := by
  unfold WebBoot.freeHeader
  split <;> rfl

theorem processHeader_recv (s : WebBoot) : (processHeader s).recv = s.recv := by
  unfold processHeader
  split
  · exact freeHeader_recv s
  · rfl

theorem headPhase_startRequest (fresh : Nat → Nat → UInt8) (s : WebBoot) :
    (s.startRequest fresh).HeadPhase := by
  constructor <;> simp [WebBoot.startRequest, WebBoot.mallocHeader, WebBoot.effect, freeHeader_recv]

theorem headPhase_webbootInit (fresh : Nat → Nat → UInt8) (s : WebBoot) :
    (webbootInit fresh s).HeadPhase := by
  obtain ⟨h1, h2, h3⟩ := headPhase_startRequest fresh s
  exact ⟨h1, h2, h3⟩

theorem WebBoot.HeadPhase.data {s : WebBoot} (hs : s.HeadPhase) (p : Chain) : (s.data p).HeadPhase := by
  obtain ⟨h1, h2, h3⟩ := data_head s.contLen s.fraction hs.head hs.eoh p
  exact ⟨h1, h2, h3.trans hs.fileLen⟩

/-- The body comes next: nothing of it was found so far. -/
theorem WebBoot.HeadPhase.found {s : WebBoot} (hs : s.HeadPhase) :
    ({ s.recv with head := false } : Receive).clearWindow.Found none := by
  have hclear : ({ s.recv with head := false } : Receive).clearWindow =
      { s.recv with head := false, c := ⟨0, 0, 0, 0⟩ } := by
    simp [Receive.clearWindow, hs.eoh]
  rw [hclear]
  exact ⟨hs.eoh, rfl, hs.fileLen, rfl⟩

section
variable (fresh : Nat → Nat → UInt8) {s : WebBoot} (hs : s.HeadPhase)

include hs

theorem WebBoot.HeadPhase.recvKernel :
    ∃ t, Net.recvKernel fresh s none = .ok t ∧ t.recv.Found none := by
  refine ⟨_, by rw [Net.recvKernel]; exact if_neg (by simp [WebBoot.effect, hs.head]), ?_⟩
  simp only [WebBoot.clearWindow, WebBoot.effect, processHeader_recv]
  exact hs.found

theorem WebBoot.HeadPhase.recvInitrd :
    ∃ t, Net.recvInitrd fresh s none = .ok t ∧ t.recv.Found none := by
  refine ⟨_, by rw [Net.recvInitrd]; exact if_neg (by simp [WebBoot.effect, hs.head]), ?_⟩
  simp only [WebBoot.clearWindow, WebBoot.effect, processHeader_recv]
  exact hs.found

theorem WebBoot.HeadPhase.recvAppend :
    ∃ t, Net.recvAppend fresh s none = .ok t ∧ t.appendRecv.Found none := by
  refine ⟨_, by rw [Net.recvAppend]; exact if_neg (by simp [WebBoot.effect, hs.head]), ?_⟩
  simp only [WebBoot.clearWindow, WebBoot.effect, processHeader_recv, WebBoot.appendRecv]
  obtain ⟨h1, h2, h3⟩ := hs.found
  exact ⟨h1, h2, h3.1, rfl⟩

end

/-! ## Top theorem -/

/-- What a callback stores of a response with this body, cut into `A` and into `B`. -/
def SameBody {σ : Type} (callback : σ → Option Chain → Except Halt σ) (recv : σ → Receive) (s : σ)
    (A B : List Chain) : Prop :=
  ∃ t u, A.foldlM (fun s p => callback s (some p)) s = .ok t ∧
    B.foldlM (fun s p => callback s (some p)) s = .ok u ∧
    (recv t).Holds (body A) ∧ (recv u).Holds (body A)

/-- The callbacks run the loop on their variables. -/
structure RunsLoop {σ : Type} (callback : σ → Option Chain → Except Halt σ) (recv : σ → Receive)
    (next : σ → Chain → σ) (contLen fraction : σ → Int) : Prop where
  ok : ∀ s p, callback s (some p) = .ok (next s p)
  recv : ∀ s p, recv (next s p) = (recv s).data (contLen s) (fraction s) p
  contLen : ∀ s p, contLen (next s p) = contLen s
  fraction : ∀ s p, fraction (next s p) = fraction s

section
variable {σ : Type} {callback : σ → Option Chain → Except Halt σ} {recv : σ → Receive}
  {next : σ → Chain → σ} {contLen fraction : σ → Int}
  (hr : RunsLoop callback recv next contLen fraction)

include hr

theorem RunsLoop.foldlM (A : List Chain) : ∀ s, ∃ t,
    A.foldlM (fun s p => callback s (some p)) s = .ok t ∧
      recv t = A.foldl (Receive.data (contLen s) (fraction s)) (recv s) := by
  induction A with
  | nil =>
    intro s
    exact ⟨s, rfl, rfl⟩
  | cons p A ih =>
    intro s
    obtain ⟨t, ht, hrecv⟩ := ih (next s p)
    rw [hr.recv, hr.contLen, hr.fraction] at hrecv
    refine ⟨t, ?_, hrecv⟩
    rw [List.foldlM_cons, hr.ok]
    exact ht

theorem RunsLoop.sameBody {s : σ} (hs : (recv s).Found none) {A B : List Chain}
    (h : A.flatten.flatten = B.flatten.flatten) :
    SameBody callback recv s A B ↔ Uncut A ∧ Uncut B := by
  obtain ⟨t, ht, hrt⟩ := hr.foldlM A s
  obtain ⟨u, hu, hru⟩ := hr.foldlM B s
  have hbody : body A = body B := by
    unfold body
    rw [h]
  rw [← stores_iff (contLen s) (fraction s) hs A, ← stores_iff (contLen s) (fraction s) hs B,
    ← hrt, ← hru]
  constructor
  · rintro ⟨t', u', ht', hu', h1, h2⟩
    rw [ht] at ht'
    rw [hu] at hu'
    cases ht'
    cases hu'
    exact ⟨h1, hbody ▸ h2⟩
  · rintro ⟨h1, h2⟩
    exact ⟨t, u, ht, hu, h1, hbody ▸ h2⟩

end

theorem recvKernel_runsLoop (fresh : Nat → Nat → UInt8) :
    RunsLoop (recvKernel fresh) WebBoot.recv WebBoot.data WebBoot.contLen WebBoot.fraction :=
  ⟨fun _ _ => rfl, fun _ _ => rfl, fun _ _ => rfl, fun _ _ => rfl⟩

theorem recvInitrd_runsLoop (fresh : Nat → Nat → UInt8) :
    RunsLoop (recvInitrd fresh) WebBoot.recv WebBoot.data WebBoot.contLen WebBoot.fraction :=
  ⟨fun _ _ => rfl, fun _ _ => rfl, fun _ _ => rfl, fun _ _ => rfl⟩

theorem recvAppend_runsLoop (fresh : Nat → Nat → UInt8) :
    RunsLoop (recvAppend fresh) WebBoot.appendRecv
      (fun s p =>
        let r := s.appendRecv.data s.contLen s.fraction p
        { s with recv := { r with buf := s.recv.buf }, appendLine := r.buf })
      WebBoot.contLen WebBoot.fraction :=
  ⟨fun _ _ => rfl, fun _ _ => rfl, fun _ _ => rfl, fun _ _ => rfl⟩

theorem recvBIOS_runsLoop :
    RunsLoop recvBIOS WebUpdate.recv
      (fun s p => { s with recv := s.recv.data s.contLen s.fraction p })
      WebUpdate.contLen WebUpdate.fraction :=
  ⟨fun _ _ => rfl, fun _ _ => rfl, fun _ _ => rfl, fun _ _ => rfl⟩

theorem webupdateInit_found (u : WebUpdate) : (webupdateInit u).recv.Found none :=
  ⟨rfl, rfl, rfl, rfl⟩

/-- **Cutting a response.**  In the GET phase that the end of the HEAD answer
starts, and in an update, two ways of cutting the same response both give its
body, with its length, exactly when neither cuts inside the first CRLFCRLF. -/
theorem sameBody_iff (fresh : Nat → Nat → UInt8) (s : WebBoot) (hs : s.HeadPhase) (u : WebUpdate)
    (A B : List Chain) (h : A.flatten.flatten = B.flatten.flatten) :
    (∃ t, recvKernel fresh s none = .ok t ∧
      (SameBody (recvKernel fresh) WebBoot.recv t A B ↔ Uncut A ∧ Uncut B)) ∧
    (∃ t, recvInitrd fresh s none = .ok t ∧
      (SameBody (recvInitrd fresh) WebBoot.recv t A B ↔ Uncut A ∧ Uncut B)) ∧
    (∃ t, recvAppend fresh s none = .ok t ∧
      (SameBody (recvAppend fresh) WebBoot.appendRecv t A B ↔ Uncut A ∧ Uncut B)) ∧
    (SameBody recvBIOS WebUpdate.recv (webupdateInit u) A B ↔ Uncut A ∧ Uncut B) := by
  refine ⟨?_, ?_, ?_, ?_⟩
  · obtain ⟨t, ht, hf⟩ := hs.recvKernel fresh
    exact ⟨t, ht, (recvKernel_runsLoop fresh).sameBody hf h⟩
  · obtain ⟨t, ht, hf⟩ := hs.recvInitrd fresh
    exact ⟨t, ht, (recvInitrd_runsLoop fresh).sameBody hf h⟩
  · obtain ⟨t, ht, hf⟩ := hs.recvAppend fresh
    exact ⟨t, ht, (recvAppend_runsLoop fresh).sameBody hf h⟩
  · exact recvBIOS_runsLoop.sameBody (webupdateInit_found u) h

/-- The variables before the first request. -/
def bareReceive : Receive := ⟨true, false, ⟨0, 0, 0, 0⟩, fun _ => 0, 0, fun _ => 0, 0, 0⟩

def bareWebBoot : WebBoot := webbootInit (fun _ _ => 0) ⟨bareReceive, 0, 0, 0, none, fun _ => 0, 0, []⟩

/-- `OK`, the end of the header and a body of one byte. -/
def shortResponse : List UInt8 := [0x4f, 0x4b, 0x0d, 0x0a, 0x0d, 0x0a, 0x58]

/-- The same cut in the middle of the header end. -/
def cutResponse : List Chain := [[[0x4f, 0x4b, 0x0d, 0x0a]], [[0x0d, 0x0a, 0x58]]]

theorem sameBody_iff_short :
    (∃ t, recvKernel (fun _ _ => 0) bareWebBoot none = .ok t ∧
      (SameBody (recvKernel fun _ _ => 0) WebBoot.recv t [[shortResponse]] cutResponse ↔
        Uncut [[shortResponse]] ∧ Uncut cutResponse)) ∧
    (∃ t, recvInitrd (fun _ _ => 0) bareWebBoot none = .ok t ∧
      (SameBody (recvInitrd fun _ _ => 0) WebBoot.recv t [[shortResponse]] cutResponse ↔
        Uncut [[shortResponse]] ∧ Uncut cutResponse)) ∧
    (∃ t, recvAppend (fun _ _ => 0) bareWebBoot none = .ok t ∧
      (SameBody (recvAppend fun _ _ => 0) WebBoot.appendRecv t [[shortResponse]] cutResponse ↔
        Uncut [[shortResponse]] ∧ Uncut cutResponse)) ∧
    (SameBody recvBIOS WebUpdate.recv (webupdateInit ⟨bareReceive, 0, 0⟩) [[shortResponse]]
        cutResponse ↔ Uncut [[shortResponse]] ∧ Uncut cutResponse) :=
  sameBody_iff (fun _ _ => 0) bareWebBoot (headPhase_webbootInit _ _) ⟨bareReceive, 0, 0⟩
    [[shortResponse]] cutResponse rfl

/-- Cut in the middle of its header end, the response leaves nothing of its body. -/
theorem cut_header_end :
    ¬ SameBody recvBIOS WebUpdate.recv (webupdateInit ⟨bareReceive, 0, 0⟩) [[shortResponse]]
      cutResponse := by
  rintro ⟨t, u, -, hu, -, hlen, -⟩
  obtain rfl : u = _ := (Except.ok.inj hu).symm
  revert hlen
  decide +kernel

end Gentoox.Net
