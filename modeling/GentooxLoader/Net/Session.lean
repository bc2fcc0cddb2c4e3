import GentooxLoader.Base.Machine
import GentooxLoader.Net.WebBoot

/-!
# A whole run of webboot (networktools/webboot)

The machine `webboot` has one connection at a time: it is set up, segments come
in, and the server closes it.  It keeps what the server sent on the connection,
what it answered to the HEAD request before, and a note of each step forward:
the kernel is placed, the size of the initrd is recorded, the system is booted.

    webbootNext_noted    whatever a step places, records or boots is noted
    fileLen_reachable    the length of the body so far is that of what follows
                         the header end in the segments
    advances_iff         every step forward has the announced length ↔ each GET
                         answer that is closed has it
    kernel_of_no_bytes   a GET answer closed before its first byte: a kernel of
                         no bytes is placed
-/

namespace Gentoox.Net

open Cells Lib Streams

/-! ## Algorithm -/

/-- The callback that `handleKernel`, `handleInitrd` and `handleAppend` set. -/
def callback (fresh : Nat → Nat → UInt8) : Handler → WebBoot → Option Chain → Except Halt WebBoot
  | .handleKernel => recvKernel fresh
  | .handleInitrd => recvInitrd fresh
  | .handleAppend => recvAppend fresh

/-- The Content-Length of an answer, as `processHeader` looks for it. -/
def announcedLength (answer : List UInt8) : Option Int :=
  (strstr (cstr answer) (chars "Content-Length".toList)).map fun headerPtr =>
    simpleStrtol (cstr (answer.drop (headerPtr + 16))) 10

/-- A step forward: the file it is for, the length the code has counted, and
what was announced. -/
structure Advance where
  handler : Handler
  received : Nat
  announced : Option Int
  deriving DecidableEq

structure Session where
  boot : WebBoot
  handler : Handler
  connected : Bool
  halt : Option Halt
  /-- What the server has sent on this connection. -/
  answer : List Chain
  /-- The answer to the HEAD request for this file. -/
  headAnswer : List Chain
  advances : List Advance

/-- The callback that `tcp_connect` was called with last. -/
def connectHandler (s : WebBoot) (handler : Handler) : Handler :=
  match s.effects.getLast? with
  | some (.tcpConnect handler) => handler
  | _ => handler

/-- A step forward with what was received so far. -/
def Session.advance (n : Session) : Advance :=
  ⟨n.handler, n.boot.recv.fileLen, announcedLength n.headAnswer.flatten.flatten⟩

/-- The server closes the connection. -/
def Session.close (n : Session) (fresh : Nat → Nat → UInt8) : Session :=
  let advances := if n.boot.recv.head then n.advances else n.advances ++ [n.advance]
  match callback fresh n.handler n.boot none with
  | .ok boot =>
    { n with
      boot
      handler := connectHandler boot n.handler
      connected := false
      answer := []
      headAnswer := n.answer
      advances }
  | .error halt => { n with halt := some halt, advances }

def Session.receive (n : Session) (fresh : Nat → Nat → UInt8) (p : Chain) : Session :=
  match callback fresh n.handler n.boot (some p) with
  | .ok boot => { n with boot, answer := n.answer ++ [p] }
  | .error halt => { n with halt := some halt }

inductive NetEvent where
  | connected
  | recv (fresh : Nat → Nat → UInt8) (p : Chain)
  | close (fresh : Nat → Nat → UInt8)
  /-- `connErr` does not come back. -/
  | error

def webbootNext (n : Session) (e : NetEvent) : Option Session :=
  if n.halt.isSome then none
  else
    match e with
    | .connected => if n.connected then none else some { n with connected := true }
    | .recv fresh p => if n.connected then some (n.receive fresh p) else none
    | .close fresh => if n.connected then some (n.close fresh) else none
    | .error => some { n with halt := some .loop }

def webbootStart (fresh : Nat → Nat → UInt8) (s : WebBoot) : Session :=
  ⟨webbootInit fresh s, .handleKernel, false, none, [], [], []⟩

def webboot : Machine Session NetEvent where
  init n := ∃ fresh s, n = webbootStart fresh s
  next := webbootNext

/-! ## What is received -/

/-- The body so far: what follows the header end in the segments. -/
def received (answer : List Chain) : List UInt8 :=
  (afterPieces crlfcrlf (answer.map List.flatten)).getD []

/-- The variables of the loop, with the destination of the file. -/
def WebBoot.loopRecv (s : WebBoot) : Handler → Receive
  | .handleKernel => s.recv
  | .handleInitrd => s.recv
  | .handleAppend => s.appendRecv

/-- The answer to a HEAD request, or the body as far as it was received. -/
structure Session.Inv (n : Session) : Prop where
  head_phase : n.boot.recv.head = true → n.boot.HeadPhase
  get_phase : n.boot.recv.head = false →
    (n.boot.loopRecv n.handler).Found (afterPieces crlfcrlf (n.answer.map List.flatten))

section
variable {fresh : Nat → Nat → UInt8} {s : WebBoot} {h : Handler}

theorem loopRecv_head (s : WebBoot) (h : Handler) : (s.loopRecv h).head = s.recv.head := by
  cases h <;> rfl

theorem loopRecv_eoh (s : WebBoot) (h : Handler) : (s.loopRecv h).eoh = s.recv.eoh := by
  cases h <;> rfl

theorem loopRecv_fileLen (s : WebBoot) (h : Handler) : (s.loopRecv h).fileLen = s.recv.fileLen := by
  cases h <;> rfl

/-- A segment goes through the loop. -/
theorem callback_data (fresh : Nat → Nat → UInt8) (s : WebBoot) (h : Handler) (p : Chain) :
    ∃ t, callback fresh h s (some p) = .ok t ∧ t.effects = s.effects ∧
      t.initrdSize = s.initrdSize ∧
      t.loopRecv h = (s.loopRecv h).data s.contLen s.fraction p := by
  cases h with
  | handleKernel => exact ⟨_, rfl, rfl, rfl, rfl⟩
  | handleInitrd => exact ⟨_, rfl, rfl, rfl, rfl⟩
  | handleAppend => exact ⟨_, rfl, rfl, rfl, rfl⟩

theorem found_data (contLen fraction : Int) {r : Receive} (p : Chain) : ∀ {o : Option (List UInt8)},
    r.Found o → (r.data contLen fraction p).Found
      (o.elim (after crlfcrlf p.flatten) fun rest => some (rest ++ p.flatten))
  | none, hr => data_none contLen fraction hr p
  | some _, hr => data_some contLen fraction hr p

theorem connectHandler_effect (s : WebBoot) (h h' : Handler) :
    connectHandler (s.effect (.tcpConnect h)).clearWindow h' = h := by
  unfold connectHandler
  simp [WebBoot.clearWindow, WebBoot.effect]

/-- The lengths of the kernels that were placed. -/
def placedKernels (effects : List Effect) : List Nat :=
  effects.filterMap fun
    | .memPlaceKernel kernel => some kernel.length
    | _ => none

theorem placedKernels_effect (s : WebBoot) (e : Effect) :
    placedKernels (s.effect e).effects = placedKernels s.effects ++ placedKernels [e] :=
  List.filterMap_append

theorem placedKernels_freeHeader (s : WebBoot) :
    placedKernels s.freeHeader.effects = placedKernels s.effects := by
  unfold WebBoot.freeHeader
  split
  · rfl
  · rw [placedKernels_effect]
    exact List.append_nil _

theorem freeHeader_initrdSize (s : WebBoot) : s.freeHeader.initrdSize = s.initrdSize := by
  unfold WebBoot.freeHeader
  split <;> rfl

theorem processHeader_quiet (s : WebBoot) :
    placedKernels (processHeader s).effects = placedKernels s.effects ∧
      (processHeader s).initrdSize = s.initrdSize := by
  unfold processHeader
  split
  · exact ⟨placedKernels_freeHeader s, freeHeader_initrdSize s⟩
  · exact ⟨rfl, rfl⟩

theorem tcpConnect_quiet (s : WebBoot) (h : Handler) :
    placedKernels (s.effect (.tcpConnect h)).clearWindow.effects = placedKernels s.effects ∧
      (s.effect (.tcpConnect h)).clearWindow.initrdSize = s.initrdSize :=
  ⟨(placedKernels_effect s _).trans (List.append_nil _), rfl⟩

/-- The answer to a HEAD request is over: the connection for the body is next. -/
theorem close_head (fresh : Nat → Nat → UInt8) (hs : s.HeadPhase) (h : Handler) :
    ∃ t, callback fresh h s none = .ok t ∧ connectHandler t h = h ∧ t.recv.head = false ∧
      (t.loopRecv h).Found none ∧ placedKernels t.effects = placedKernels s.effects ∧
      t.initrdSize = s.initrdSize := by
  have hneg : ¬ (s.effect .tcpClose).recv.head = false := by simp [WebBoot.effect, hs.head]
  have hclose : placedKernels (s.effect .tcpClose).effects = placedKernels s.effects :=
    (placedKernels_effect s _).trans (List.append_nil _)
  cases h with
  | handleKernel =>
    obtain ⟨t, ht, hf⟩ := hs.recvKernel fresh
    have he := Except.ok.inj (ht.symm.trans (if_neg hneg))
    refine ⟨t, ht, he ▸ connectHandler_effect _ _ _, hf.head, hf, ?_, ?_⟩
    · rw [he, (tcpConnect_quiet _ _).1, (processHeader_quiet _).1, hclose]
    · rw [he, (tcpConnect_quiet _ _).2, (processHeader_quiet _).2]
      rfl
  | handleInitrd =>
    obtain ⟨t, ht, hf⟩ := hs.recvInitrd fresh
    have he := Except.ok.inj (ht.symm.trans (if_neg hneg))
    refine ⟨t, ht, he ▸ connectHandler_effect _ _ _, hf.head, hf, ?_, ?_⟩
    · rw [he, (tcpConnect_quiet _ _).1, (processHeader_quiet _).1, hclose]
    · rw [he, (tcpConnect_quiet _ _).2, (processHeader_quiet _).2]
      rfl
  | handleAppend =>
    obtain ⟨t, ht, hf⟩ := hs.recvAppend fresh
    have he := Except.ok.inj (ht.symm.trans (if_neg hneg))
    refine ⟨t, ht, he ▸ connectHandler_effect _ _ _, hf.head, hf, ?_, ?_⟩
    · rw [he, (tcpConnect_quiet _ _).1]
      simp only [placedKernels_effect, (processHeader_quiet _).1]
      simp [placedKernels]
    · rw [he, (tcpConnect_quiet _ _).2]
      have hmalloc : ∀ (u : WebBoot) (e : Effect) (appendLine : Nat → UInt8) (blocks : Nat),
          ({ u.effect e with appendLine, blocks } : WebBoot).initrdSize = u.initrdSize :=
        fun _ _ _ _ => rfl
      rw [hmalloc, (processHeader_quiet _).2]
      rfl

theorem WebBoot.HeadPhase.clearWindow (hs : s.HeadPhase) : s.clearWindow.HeadPhase := by
  obtain ⟨h1, h2, h3⟩ := hs
  have hclear : s.clearWindow = { s with recv := { s.recv with c := ⟨0, 0, 0, 0⟩ } } := by
    simp [WebBoot.clearWindow, Receive.clearWindow, h2]
  rw [hclear]
  exact ⟨h1, h2, h3⟩

theorem placedKernels_startRequest (fresh : Nat → Nat → UInt8) (s : WebBoot) :
    placedKernels (s.startRequest fresh).effects = placedKernels s.effects := by
  unfold WebBoot.startRequest WebBoot.mallocHeader
  simp only [placedKernels_effect, placedKernels_freeHeader]
  exact List.append_nil _

theorem startRequest_initrdSize (fresh : Nat → Nat → UInt8) (s : WebBoot) :
    (s.startRequest fresh).initrdSize = s.initrdSize := by
  exact freeHeader_initrdSize _

/-- The body is over: the kernel is placed, the size recorded, or the system booted. -/
theorem close_get (fresh : Nat → Nat → UInt8) (s : WebBoot) (hh : s.recv.head = false) :
    (∃ t, recvKernel fresh s none = .ok t ∧ t.HeadPhase ∧
      connectHandler t .handleKernel = .handleInitrd ∧ t.initrdSize = s.initrdSize ∧
      placedKernels t.effects = placedKernels s.effects ++ [s.recv.fileLen]) ∧
    (∃ t, recvInitrd fresh s none = .ok t ∧ t.HeadPhase ∧
      connectHandler t .handleInitrd = .handleAppend ∧ t.initrdSize = s.recv.fileLen ∧
      placedKernels t.effects = placedKernels s.effects) ∧
    recvAppend fresh s none = .error (.boot s.initrdSize s.appendLine) := by
  have hpos : (s.effect .tcpClose).recv.head = false := hh
  refine ⟨⟨_, if_pos hpos, ?_, connectHandler_effect _ _ _, ?_, ?_⟩,
    ⟨_, if_pos hpos, ?_, connectHandler_effect _ _ _, ?_, ?_⟩, if_pos hpos⟩
  · obtain ⟨h1, h2, h3⟩ := headPhase_startRequest fresh
      ((s.effect .tcpClose).effect (.memPlaceKernel (read s.recv.buf 0 s.recv.fileLen)))
    exact WebBoot.HeadPhase.clearWindow ⟨h1, h2, h3⟩
  · exact startRequest_initrdSize fresh
      ((s.effect .tcpClose).effect (.memPlaceKernel (read s.recv.buf 0 s.recv.fileLen)))
  · rw [(tcpConnect_quiet _ _).1]
    refine (placedKernels_startRequest fresh
      ((s.effect .tcpClose).effect (.memPlaceKernel (read s.recv.buf 0 s.recv.fileLen)))).trans ?_
    rw [placedKernels_effect, placedKernels_effect]
    simp [placedKernels]
  · obtain ⟨h1, h2, h3⟩ := headPhase_startRequest fresh
      { s.effect .tcpClose with initrdSize := s.recv.fileLen }
    exact WebBoot.HeadPhase.clearWindow ⟨h1, h2, h3⟩
  · exact startRequest_initrdSize fresh { s.effect .tcpClose with initrdSize := s.recv.fileLen }
  · rw [(tcpConnect_quiet _ _).1]
    refine (placedKernels_startRequest fresh
      { s.effect .tcpClose with initrdSize := s.recv.fileLen }).trans ?_
    exact (placedKernels_effect s .tcpClose).trans (List.append_nil _)

/-! ## Steps -/

theorem Session.Inv.receive {n : Session} (hi : n.Inv) (fresh : Nat → Nat → UInt8) (p : Chain) :
    (n.receive fresh p).Inv ∧ (n.receive fresh p).advances = n.advances := by
  obtain ⟨t, ht, -, -, hrecv⟩ := callback_data fresh n.boot n.handler p
  have hn : n.receive fresh p = { n with boot := t, answer := n.answer ++ [p] } := by
    unfold Session.receive
    rw [ht]
  rw [hn]
  cases hh : n.boot.recv.head with
  | true =>
    obtain ⟨h1, h2, h3⟩ := hi.head_phase hh
    obtain ⟨e1, e2, e3⟩ := data_head n.boot.contLen n.boot.fraction
      ((loopRecv_head n.boot n.handler).trans h1) ((loopRecv_eoh n.boot n.handler).trans h2) p
    rw [← hrecv] at e1 e2 e3
    rw [loopRecv_head] at e1
    rw [loopRecv_eoh] at e2
    rw [loopRecv_fileLen, loopRecv_fileLen, h3] at e3
    exact ⟨⟨fun _ => ⟨e1, e2, e3⟩, fun hc => by cases e1.symm.trans hc⟩, rfl⟩
  | false =>
    have hf := found_data n.boot.contLen n.boot.fraction p (hi.get_phase hh)
    rw [← hrecv] at hf
    refine ⟨⟨fun hc => ?_, fun _ => ?_⟩, rfl⟩
    · cases hc.symm.trans ((loopRecv_head t n.handler).symm.trans hf.head)
    · simp only [List.map_append, List.map_cons, List.map_nil, afterPieces_concat]
      exact hf

theorem Session.Inv.close {n : Session} (hi : n.Inv) (fresh : Nat → Nat → UInt8) :
    (n.close fresh).Inv ∧ (n.close fresh).advances =
      if n.boot.recv.head then n.advances else n.advances ++ [n.advance] := by
  unfold Session.close
  cases hh : n.boot.recv.head with
  | true =>
    obtain ⟨t, ht, hconn, hhead, hf, -, -⟩ := close_head fresh (hi.head_phase hh) n.handler
    simp only [ht]
    refine ⟨⟨fun hc => absurd (hc.symm.trans hhead) (by simp), fun _ => ?_⟩, trivial⟩
    simp only [hconn]
    exact hf
  | false =>
    obtain ⟨⟨t, ht, hs, -⟩, ⟨u, hu, hs', -⟩, happend⟩ := close_get fresh n.boot hh
    -- the next answer is one to a HEAD request
    have hnext : ∀ n' : Session, n'.boot.HeadPhase → n'.Inv := by
      intro n' hs
      exact ⟨fun _ => hs, fun hc => by cases hc.symm.trans hs.head⟩
    cases hhandler : n.handler with
    | handleKernel =>
      simp only [callback, ht]
      exact ⟨hnext _ hs, trivial⟩
    | handleInitrd =>
      simp only [callback, hu]
      exact ⟨hnext _ hs', trivial⟩
    | handleAppend =>
      simp only [callback, happend]
      have hget := hi.get_phase
      rw [hhandler] at hget
      exact ⟨⟨hi.head_phase, hget⟩, trivial⟩

end

section
variable {n n' : Session} {e : NetEvent}

/-- What an event does. -/
inductive Happens (n : Session) : NetEvent → Session → Prop where
  | connected : Happens n .connected { n with connected := true }
  | recv (fresh : Nat → Nat → UInt8) (p : Chain) : Happens n (.recv fresh p) (n.receive fresh p)
  | close (fresh : Nat → Nat → UInt8) (h : n.connected = true) :
      Happens n (.close fresh) (n.close fresh)
  | error : Happens n .error { n with halt := some .loop }

theorem webbootNext_happens (hn : webbootNext n e = some n') : n.halt = none ∧ Happens n e n' := by
  unfold webbootNext at hn
  split at hn
  · cases hn
  rename_i hhalt
  refine ⟨by simpa using hhalt, ?_⟩
  cases e with
  | connected =>
    simp only at hn
    split at hn
    · cases hn
    · cases hn
      exact .connected
  | recv fresh p =>
    simp only at hn
    split at hn
    · cases hn
      exact .recv fresh p
    · cases hn
  | close fresh =>
    simp only at hn
    split at hn
    · rename_i hconn
      cases hn
      exact .close fresh hconn
    · cases hn
  | error =>
    cases hn
    exact .error

/-- **Step.**  Only the end of an answer to a GET request is a step forward. -/
theorem webbootNext_advances (hi : n.Inv) (hn : webbootNext n e = some n') : n'.Inv ∧
    n'.advances = match e with
      | .close _ => if n.boot.recv.head then n.advances else n.advances ++ [n.advance]
      | _ => n.advances := by
  obtain ⟨-, happens⟩ := webbootNext_happens hn
  obtain ⟨h1, h2⟩ := hi
  cases happens with
  | connected => exact ⟨⟨h1, h2⟩, rfl⟩
  | recv fresh p => exact Session.Inv.receive ⟨h1, h2⟩ fresh p
  | close fresh => exact Session.Inv.close ⟨h1, h2⟩ fresh
  | error => exact ⟨⟨h1, h2⟩, rfl⟩

/-- A kernel is placed, a size recorded and the system booted only with a note. -/
structure Noted (n n' : Session) (new : List Advance) : Prop where
  advances : n'.advances = n.advances ++ new
  placed : placedKernels n'.boot.effects = placedKernels n.boot.effects ++
    (new.filter fun a => a.handler = .handleKernel).map Advance.received
  recorded : n'.boot.initrdSize = n.boot.initrdSize ∨
    ∃ a ∈ new, a.handler = .handleInitrd ∧ a.received = n'.boot.initrdSize
  booted : ∀ size line, n'.halt = some (.boot size line) → ∃ a ∈ new, a.handler = .handleAppend

theorem noted_of_same (hadv : n'.advances = n.advances) (hboot : n'.boot = n.boot)
    (hhalt : ∀ size line, n'.halt ≠ some (.boot size line)) : Noted n n' [] := by
  refine ⟨?_, ?_, .inl (by rw [hboot]), fun size line hc => absurd hc (hhalt size line)⟩
  · rw [hadv, List.append_nil]
  · rw [hboot]
    exact (List.append_nil _).symm

theorem Session.Inv.close_noted (hi : n.Inv) (hhalt : n.halt = none) (fresh : Nat → Nat → UInt8) :
    ∃ new, Noted n (n.close fresh) new := by
  unfold Session.close
  cases hh : n.boot.recv.head with
  | true =>
    obtain ⟨t, ht, -, -, -, hplaced, hsize⟩ := close_head fresh (hi.head_phase hh) n.handler
    simp only [ht]
    refine ⟨[], ⟨(List.append_nil _).symm, ?_, .inl hsize, fun size line hc => ?_⟩⟩
    · exact hplaced.trans (List.append_nil _).symm
    · cases hhalt.symm.trans hc
  | false =>
    obtain ⟨⟨t, ht, -, -, hsame, hplaced⟩, ⟨u, hu, -, -, hsize, hquiet⟩, happend⟩ :=
      close_get fresh n.boot hh
    refine ⟨[n.advance], ?_⟩
    cases hhandler : n.handler with
    | handleKernel =>
      simp only [callback, ht]
      refine ⟨rfl, ?_, .inl ?_, fun size line hc => ?_⟩
      · simp only [hplaced, Session.advance, hhandler]
        rfl
      · exact hsame
      · cases hhalt.symm.trans hc
    | handleInitrd =>
      simp only [callback, hu]
      refine ⟨rfl, ?_, .inr ⟨_, List.mem_singleton.2 rfl, hhandler, hsize.symm⟩, fun size line hc => ?_⟩
      · simp [hquiet, Session.advance, hhandler]
      · cases hhalt.symm.trans hc
    | handleAppend =>
      simp only [callback, happend]
      refine ⟨rfl, ?_, .inl rfl, fun size line _ => ⟨_, List.mem_singleton.2 rfl, hhandler⟩⟩
      simp [Session.advance, hhandler]

/-- **Step.**  Whatever is done is noted. -/
theorem webbootNext_noted (hi : n.Inv) (hn : webbootNext n e = some n') :
    ∃ new, Noted n n' new := by
  obtain ⟨hnone, happens⟩ := webbootNext_happens hn
  have hrunning : ∀ size line, n.halt ≠ some (.boot size line) := by
    intro size line hc
    cases hnone.symm.trans hc
  cases happens with
  | connected => exact ⟨[], noted_of_same rfl rfl hrunning⟩
  | recv fresh p =>
    obtain ⟨t, ht, heffects, hsize, -⟩ := callback_data fresh n.boot n.handler p
    unfold Session.receive
    rw [ht]
    refine ⟨[], ⟨(List.append_nil _).symm, ?_, .inl hsize, fun size line hc => ?_⟩⟩
    · simp [heffects]
    · exact absurd hc (hrunning size line)
  | close fresh => exact hi.close_noted hnone fresh
  | error => exact ⟨[], noted_of_same rfl rfl fun size line hc => by cases hc⟩

theorem inv_webbootStart (fresh : Nat → Nat → UInt8) (s : WebBoot) : (webbootStart fresh s).Inv :=
  have hs : (webbootInit fresh s).HeadPhase := headPhase_webbootInit fresh s
  ⟨fun _ => hs, fun hc => by cases hc.symm.trans hs.head⟩

/-- The length the code counts is that of what it received. -/
theorem Session.Inv.fileLen (hi : n.Inv) (hh : n.boot.recv.head = false) :
    n.boot.recv.fileLen = (received n.answer).length :=
  (loopRecv_fileLen n.boot n.handler).symm.trans (hi.get_phase hh).holds.1

theorem fileLen_reachable (h : webboot.Reachable n) (hh : n.boot.recv.head = false) :
    n.boot.recv.fileLen = (received n.answer).length := by
  have hi : n.Inv := by
    refine Machine.invariant (M := webboot) (I := Session.Inv) ?_ ?_ n h
    · rintro _ ⟨fresh, s, rfl⟩
      exact inv_webbootStart fresh s
    · intro n e n' hi hn
      exact (webbootNext_advances hi hn).1
  exact hi.fileLen hh

/-! ## Top theorem -/

/-- Each step forward was made with the announced length. -/
def Session.Complete (n : Session) : Prop := ∀ a ∈ n.advances, a.announced = some (a.received : Int)

/-- If the event closes the connection of a GET request, the answer has behind
its header the length that the answer to the HEAD request announced. -/
def FullAnswer (n : Session) : NetEvent → Prop
  | .close _ => n.connected = true → n.boot.recv.head = false →
      announcedLength n.headAnswer.flatten.flatten = some ((received n.answer).length : Int)
  | _ => True

theorem complete_next (hi : n.Inv) (hn : webbootNext n e = some n') :
    n'.Complete ↔ n.Complete ∧ FullAnswer n e := by
  obtain ⟨-, hadv⟩ := webbootNext_advances hi hn
  unfold Session.Complete
  rw [hadv]
  cases e with
  | connected => simp [FullAnswer]
  | recv => simp [FullAnswer]
  | error => simp [FullAnswer]
  | close fresh =>
    have hconn : n.connected = true := by
      cases (webbootNext_happens hn).2 with
      | close fresh hconn => exact hconn
    unfold FullAnswer
    simp only [hconn, forall_const]
    cases hh : n.boot.recv.head with
    | true => simp
    | false =>
      simp only [Bool.false_eq_true, if_false, List.forall_mem_append, List.forall_mem_singleton,
        forall_const, Session.advance, hi.fileLen hh]

/-- **Announced lengths.**  In a whole run, each step forward is made for a body
of the announced length exactly when each answer that is closed has it. -/
theorem advances_iff {n₀ n : Session} {es : List NetEvent} (h₀ : webboot.init n₀)
    (hrun : webboot.run n₀ es = some n) :
    (∀ a ∈ n.advances, a.announced = some (a.received : Int)) ↔ webboot.Along FullAnswer n₀ es := by
  obtain ⟨fresh, s, rfl⟩ := h₀
  have hiff := Machine.run_iff_along (M := webboot) (G := FullAnswer) (I := Session.Inv)
    (P := Session.Complete) (fun n e n' hi hn => (webbootNext_advances hi hn).1)
    (fun n e n' hi hn => complete_next hi hn) (inv_webbootStart fresh s) hrun
  have hstart : (webbootStart fresh s).Complete := fun a ha => by cases ha
  exact hiff.trans (and_iff_right hstart)

end

def bareSession : Session :=
  webbootStart (fun _ _ => 0) ⟨bareReceive, 0, 0, 0, none, fun _ => 0, 0, []⟩

/-- The server announces a kernel of one byte, and ends its next answer after this. -/
def oneByteKernel (answer : List Char) : List NetEvent :=
  [.connected, .recv (fun _ _ => 0) [chars "Content-Length: 1\r\n\r\n".toList], .close fun _ _ => 0,
    .connected, .recv (fun _ _ => 0) [chars answer], .close fun _ _ => 0]

theorem bareSession_init : webboot.init bareSession := ⟨_, _, rfl⟩

theorem advances_iff_one_byte : ∃ n : Session, n.advances = [⟨.handleKernel, 1, some 1⟩] ∧
    webboot.Along FullAnswer bareSession (oneByteKernel "\r\n\r\nK".toList) := by
  have hrun : (webboot.run bareSession (oneByteKernel "\r\n\r\nK".toList)).map Session.advances =
      some [⟨.handleKernel, 1, some 1⟩] := by
    decide +kernel
  obtain ⟨n, hn, hadv⟩ := Option.map_eq_some_iff.1 hrun
  refine ⟨n, hadv, (advances_iff bareSession_init hn).1 ?_⟩
  rw [hadv]
  decide

/-- **Closed before the first byte.**  A kernel of one byte was announced, and
one of none is placed. -/
theorem kernel_of_no_bytes : ∃ n, webboot.Reachable n ∧ placedKernels n.boot.effects = [0] ∧
    ∃ a ∈ n.advances, a.announced ≠ some (a.received : Int) := by
  have hrun : (webboot.run bareSession (oneByteKernel "\r\n\r\n".toList)).map
      (fun n => (placedKernels n.boot.effects, n.advances)) =
        some ([0], [⟨.handleKernel, 0, some 1⟩]) := by
    decide +kernel
  obtain ⟨n, hn, he⟩ := Option.map_eq_some_iff.1 hrun
  have hadv : n.advances = [⟨.handleKernel, 0, some 1⟩] := congrArg Prod.snd he
  refine ⟨n, (Machine.Reachable.of_init bareSession_init).run hn, congrArg Prod.fst he,
    ⟨.handleKernel, 0, some 1⟩, ?_, by decide⟩
  rw [hadv]
  exact List.mem_singleton.2 rfl

end Gentoox.Net
