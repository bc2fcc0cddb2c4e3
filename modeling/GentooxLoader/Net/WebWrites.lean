import GentooxLoader.Net.Session

/-!
# Where webboot's callbacks write (networktools/webboot)

The answer to a HEAD request goes to the 5120 bytes of `header`, the append line
to as many bytes as the answer to its HEAD request has announced and one more.
The loop over the bytes compares with neither, and puts a NUL behind each byte.

    dataWrites_header, dataWrites_line   the places a segment is written to
    byte_header_frame, byte_buf_frame    nothing else is written
    within_next          an event writes inside ↔ what has arrived with it fits
    writes_inside_iff    all places of a run are inside ↔ each HEAD answer is
                         shorter than `header`, and the append line no longer than
                         was announced
    header_overrun       an answer of 5120 bytes
    appendLine_overrun   an append line of one byte, announced as empty
-/

namespace Gentoox.Net

open Cells Lib Streams

/-! ## Algorithm -/

/-- A write of the loop, through one of the two pointers. -/
inductive Written where
  | header (i : Nat)
  | appendLine (i : Nat)
  deriving DecidableEq

/-- What the loop writes for a byte; `append` if the destination is `appendLine`. -/
def byteWrites (append : Bool) (s : Receive) : List Written :=
  (if s.head then [.header s.hLen, .header (s.hLen + 1)] else []) ++
    if append && s.eoh && !s.head then [.appendLine s.fileLen, .appendLine (s.fileLen + 1)] else []

def dataWrites (append : Bool) (contLen fraction : Int) : Receive → List UInt8 → List Written
  | _, [] => []
  | s, x :: t =>
    byteWrites append s ++ dataWrites append contLen fraction (s.byte contLen fraction x) t

/-- What a callback writes through `header` and `appendLine` for a segment. -/
def WebBoot.writes (s : WebBoot) (h : Handler) (p : Chain) : List Written :=
  dataWrites (h == .handleAppend) s.contLen s.fraction (s.loopRecv h).clearWindow p.flatten

def Session.writes (n : Session) : NetEvent → List Written
  | .recv _ p => n.boot.writes n.handler p
  | _ => []

/-- The place is in its block. -/
def Written.Inside (contLen : Int) : Written → Prop
  | .header i => i < headerBytes
  | .appendLine i => (i : Int) < contLen + 1

def WritesInside (n : Session) (e : NetEvent) : Prop :=
  ∀ w ∈ n.writes e, w.Inside n.boot.contLen

/-- With this segment the answer to a HEAD request is shorter than `header`, and
the append line is no longer than was announced. -/
def AnswerFits (n : Session) : NetEvent → Prop
  | .recv _ p =>
    (n.boot.recv.head = true → (n.answer ++ [p]).flatten.flatten.length < headerBytes) ∧
      (n.boot.recv.head = false → n.handler = .handleAppend → received (n.answer ++ [p]) ≠ [] →
        ((received (n.answer ++ [p])).length : Int) ≤ n.boot.contLen)
  | _ => True

instance (n : Session) (e : NetEvent) : Decidable (AnswerFits n e) :=
  match e with
  | .recv _ _ => inferInstanceAs (Decidable (_ ∧ _))
  | .connected => isTrue trivial
  | .close _ => isTrue trivial
  | .error => isTrue trivial

/-! ## One byte -/

section
variable {append : Bool} {contLen fraction : Int} {s : Receive} {x : UInt8}

/-- What a byte does to the two blocks and their lengths. -/
structure Stores (s s' : Receive) (x : UInt8) : Prop where
  head : s'.head = s.head
  hLen : s'.hLen = if s.head then s.hLen + 1 else s.hLen
  header : s'.header =
    if s.head then Function.update (Function.update s.header s.hLen x) (s.hLen + 1) 0 else s.header
  fileLen : s'.fileLen = if s.eoh && !s.head then s.fileLen + 1 else s.fileLen
  buf : s'.buf =
    if s.eoh && !s.head then Function.update (Function.update s.buf s.fileLen x) (s.fileLen + 1) 0
    else s.buf

theorem byte_stores (contLen fraction : Int) (s : Receive) (x : UInt8) :
    Stores s (s.byte contLen fraction x) x := by
  unfold Receive.byte Receive.shift Receive.storeHeader Receive.storeBody Receive.findHeaderEnd
  cases hh : s.head with
  | true =>
    cases he : s.eoh with
    | true => constructor <;> simp [hh, he]
    | false => constructor <;> simp [hh, he]
  | false =>
    cases he : s.eoh with
    | true => constructor <;> simp [hh, he]
    | false =>
      simp only [Bool.false_eq_true, if_false, Bool.not_false, Bool.and_true, Bool.true_and]
      split <;> constructor <;> simp [hh, he]

/-- Nothing of `header` changes but at the places written. -/
theorem byte_header_frame {i : Nat} (hi : .header i ∉ byteWrites append s) :
    (s.byte contLen fraction x).header i = s.header i := by
  rw [(byte_stores contLen fraction s x).header]
  unfold byteWrites at hi
  cases hh : s.head with
  | false => rfl
  | true =>
    simp only [hh, if_true, List.mem_append, List.mem_cons, Written.header.injEq, List.not_mem_nil,
      or_false, not_or] at hi
    rw [if_pos rfl, Function.update_of_ne hi.1.2, Function.update_of_ne hi.1.1]

/-- Nothing of the destination changes but at the places written. -/
theorem byte_buf_frame {i : Nat} (hi : .appendLine i ∉ byteWrites true s) :
    (s.byte contLen fraction x).buf i = s.buf i := by
  rw [(byte_stores contLen fraction s x).buf]
  unfold byteWrites at hi
  cases hbody : s.eoh && !s.head with
  | false => rfl
  | true =>
    rw [Bool.true_and, hbody] at hi
    simp only [if_true, List.mem_append, List.mem_cons, Written.appendLine.injEq,
      List.not_mem_nil, or_false, not_or] at hi
    rw [if_pos rfl, Function.update_of_ne hi.2.2, Function.update_of_ne hi.2.1]

end

/-! ## One segment -/

section
variable {append : Bool} {contLen fraction bound : Int}

theorem bytes_head (t : List UInt8) : ∀ {s : Receive},
    (t.foldl (Receive.byte contLen fraction) s).head = s.head := by
  induction t with
  | nil => exact rfl
  | cons x t ih =>
    intro s
    rw [List.foldl_cons, ih]
    exact (byte_stores contLen fraction s x).head

theorem bytes_hLen (t : List UInt8) : ∀ {s : Receive}, s.head = true →
    (t.foldl (Receive.byte contLen fraction) s).hLen = s.hLen + t.length := by
  induction t with
  | nil => exact fun _ => rfl
  | cons x t ih =>
    intro s hh
    have hx := byte_stores contLen fraction s x
    rw [List.foldl_cons, ih (hx.head.trans hh), hx.hLen, if_pos hh, List.length_cons]
    omega

theorem bytes_fileLen_le (contLen fraction : Int) (t : List UInt8) : ∀ {s : Receive},
    s.fileLen ≤ (t.foldl (Receive.byte contLen fraction) s).fileLen := by
  induction t with
  | nil => exact Nat.le_refl _
  | cons x t ih =>
    intro s
    rw [List.foldl_cons]
    refine Nat.le_trans ?_ ih
    rw [(byte_stores contLen fraction s x).fileLen]
    split <;> omega

/-- **A segment of a HEAD answer.** -/
theorem dataWrites_header (t : List UInt8) : ∀ {s : Receive}, s.head = true →
    ((∀ w ∈ dataWrites append contLen fraction s t, w.Inside bound) ↔
      t = [] ∨ s.hLen + t.length < headerBytes) := by
  induction t with
  | nil =>
    intro s _
    exact iff_of_true (fun w hw => by cases hw) (.inl rfl)
  | cons x t ih =>
    intro s hh
    have hx := byte_stores contLen fraction s x
    have h1 := hx.head
    have h2 := hx.hLen
    rw [if_pos hh] at h2
    have hnow : byteWrites append s = [.header s.hLen, .header (s.hLen + 1)] := by
      simp [byteWrites, hh]
    rw [dataWrites, List.forall_mem_append, ih (h1.trans hh), hnow, h2, List.length_cons]
    simp only [List.forall_mem_cons, Written.Inside, List.not_mem_nil, false_imp_iff, implies_true,
      and_true, reduceCtorEq, false_or]
    constructor
    · rintro ⟨⟨-, hlt⟩, rfl | hlt'⟩
      · simpa using hlt
      · omega
    · intro hlt
      exact ⟨⟨by omega, by omega⟩, .inr (by omega)⟩

/-- **A segment of the append line.** -/
theorem dataWrites_line (t : List UInt8) : ∀ {s : Receive}, s.head = false →
    ((∀ w ∈ dataWrites true contLen fraction s t, w.Inside bound) ↔
      (t.foldl (Receive.byte contLen fraction) s).fileLen = s.fileLen ∨
        ((t.foldl (Receive.byte contLen fraction) s).fileLen : Int) ≤ bound) := by
  induction t with
  | nil =>
    intro s _
    exact iff_of_true (fun w hw => by cases hw) (.inl rfl)
  | cons x t ih =>
    intro s hh
    have hx := byte_stores contLen fraction s x
    have h1 := hx.head
    have h3 := hx.fileLen
    have hle := bytes_fileLen_le contLen fraction t
      (s := s.byte contLen fraction x)
    rw [dataWrites, List.forall_mem_append, ih (h1.trans hh), List.foldl_cons]
    unfold byteWrites
    cases he : s.eoh with
    | false =>
      rw [he] at h3
      simp only [Bool.false_and, Bool.false_eq_true, if_false] at h3
      simp [hh, h3]
    | true =>
      rw [he, hh] at h3
      simp only [Bool.not_false, Bool.and_true, if_true] at h3
      simp only [hh, Bool.false_eq_true, if_false, List.nil_append, Bool.true_and, Bool.not_false,
        if_true, List.forall_mem_cons, Written.Inside, List.not_mem_nil, false_imp_iff,
        implies_true, and_true]
      omega

/-- The kernel and the initrd are stored elsewhere. -/
theorem dataWrites_none (t : List UInt8) : ∀ {s : Receive}, s.head = false →
    dataWrites false contLen fraction s t = [] := by
  induction t with
  | nil => exact fun _ => rfl
  | cons x t ih =>
    intro s hh
    rw [dataWrites, ih ((byte_stores contLen fraction s x).head.trans hh)]
    simp [byteWrites, hh]

end

/-! ## Runs -/

/-- What the places depend on, as long as all have been inside. -/
structure Session.Within (n : Session) : Prop where
  inv : n.Inv
  head : n.boot.recv.head = true → n.boot.recv.hLen = n.answer.flatten.flatten.length ∧
    n.boot.recv.hLen < headerBytes
  line : n.boot.recv.head = false → n.handler = .handleAppend →
    received n.answer = [] ∨ ((received n.answer).length : Int) ≤ n.boot.contLen

theorem loopRecv_hLen (s : WebBoot) (h : Handler) : (s.loopRecv h).hLen = s.recv.hLen := by
  cases h <;> rfl

theorem clearWindow_frame (s : Receive) : s.clearWindow.head = s.head ∧
    s.clearWindow.hLen = s.hLen ∧ s.clearWindow.fileLen = s.fileLen ∧
      s.clearWindow.header = s.header := by
  unfold Receive.clearWindow
  split <;> exact ⟨rfl, rfl, rfl, rfl⟩

section
variable {n n' : Session} {e : NetEvent} {fresh : Nat → Nat → UInt8} {p : Chain}

theorem data_hLen {contLen fraction : Int} {s : Receive} (hh : s.head = true) (p : Chain) :
    (s.data contLen fraction p).hLen = s.hLen + p.flatten.length := by
  obtain ⟨h1, h2, -⟩ := clearWindow_frame s
  rw [data_eq, bytes_hLen p.flatten (h1.trans hh), h2]

theorem data_head_same {contLen fraction : Int} (s : Receive) (p : Chain) :
    (s.data contLen fraction p).head = s.head := by
  rw [data_eq, bytes_head]
  exact (clearWindow_frame s).1

/-- What a segment leaves of a session. -/
structure Received (n n' : Session) (p : Chain) : Prop where
  handler : n'.handler = n.handler
  answer : n'.answer = n.answer ++ [p]
  contLen : n'.boot.contLen = n.boot.contLen
  recv : n'.boot.loopRecv n.handler =
    (n.boot.loopRecv n.handler).data n.boot.contLen n.boot.fraction p

theorem receive_received (n : Session) (fresh : Nat → Nat → UInt8) (p : Chain) :
    Received n (n.receive fresh p) p := by
  obtain ⟨boot, handler, connected, halt, answer, headAnswer, advances⟩ := n
  cases handler with
  | handleKernel => exact ⟨rfl, rfl, rfl, rfl⟩
  | handleInitrd => exact ⟨rfl, rfl, rfl, rfl⟩
  | handleAppend => exact ⟨rfl, rfl, rfl, rfl⟩

theorem Received.head (h : Received n n' p) : n'.boot.recv.head = n.boot.recv.head := by
  rw [← loopRecv_head n'.boot n.handler, h.recv, data_head_same, loopRecv_head]

/-- **A segment of a HEAD answer.** -/
theorem Session.Within.receive_head (hw : n.Within) (fresh : Nat → Nat → UInt8)
    (hr : Received n n' p) (hi : n'.Inv) (hh : n.boot.recv.head = true) :
    (WritesInside n (.recv fresh p) ↔ (n.answer ++ [p]).flatten.flatten.length < headerBytes) ∧
      (WritesInside n (.recv fresh p) → n'.Within) := by
  obtain ⟨hlen, hlt⟩ := hw.head hh
  have hhead : (n.boot.loopRecv n.handler).clearWindow.head = true := by
    rw [(clearWindow_frame _).1, loopRecv_head]
    exact hh
  have hlen' : (n.answer ++ [p]).flatten.flatten.length = n.boot.recv.hLen + p.flatten.length := by
    rw [hlen]
    simp
  have hiff : WritesInside n (.recv fresh p) ↔
      (n.answer ++ [p]).flatten.flatten.length < headerBytes := by
    refine (dataWrites_header p.flatten hhead).trans ?_
    rw [hlen', (clearWindow_frame _).2.1, loopRecv_hLen]
    constructor
    · rintro (hnil | h)
      · rw [hnil]
        exact hlt
      · exact h
    · exact .inr
  refine ⟨hiff, fun hinside => ⟨hi, fun _ => ?_, fun hc => ?_⟩⟩
  · have hn' : n'.boot.recv.hLen = n.boot.recv.hLen + p.flatten.length := by
      rw [← loopRecv_hLen n'.boot n.handler, hr.recv,
        data_hLen ((loopRecv_head _ _).trans hh), loopRecv_hLen]
    rw [hn', hr.answer, hlen']
    refine ⟨rfl, ?_⟩
    rw [← hlen']
    exact hiff.1 hinside
  · rw [hr.head, hh] at hc
    cases hc

/-- **A segment of a body.** -/
theorem Session.Within.receive_body (hw : n.Within) (fresh : Nat → Nat → UInt8)
    (hr : Received n n' p) (hi : n'.Inv) (hh : n.boot.recv.head = false) :
    (WritesInside n (.recv fresh p) ↔ (n.handler = .handleAppend → received (n.answer ++ [p]) ≠ [] →
        ((received (n.answer ++ [p])).length : Int) ≤ n.boot.contLen)) ∧
      (WritesInside n (.recv fresh p) → n'.Within) := by
  have hhead : (n.boot.loopRecv n.handler).clearWindow.head = false := by
    rw [(clearWindow_frame _).1, loopRecv_head]
    exact hh
  have hh' : n'.boot.recv.head = false := hr.head.trans hh
  have hlen : (n.boot.loopRecv n.handler).clearWindow.fileLen = (received n.answer).length := by
    rw [(clearWindow_frame _).2.2.1, loopRecv_fileLen]
    exact hw.inv.fileLen hh
  have hlen' : (p.flatten.foldl (Receive.byte n.boot.contLen n.boot.fraction)
      (n.boot.loopRecv n.handler).clearWindow).fileLen = (received (n.answer ++ [p])).length := by
    rw [← data_eq, ← hr.recv, loopRecv_fileLen, ← hr.answer]
    exact hi.fileLen hh'
  have hle := bytes_fileLen_le n.boot.contLen n.boot.fraction p.flatten
    (s := (n.boot.loopRecv n.handler).clearWindow)
  rw [hlen, hlen'] at hle
  have hiff : WritesInside n (.recv fresh p) ↔ (n.handler = .handleAppend →
      received (n.answer ++ [p]) ≠ [] →
        ((received (n.answer ++ [p])).length : Int) ≤ n.boot.contLen) := by
    show (∀ w ∈ dataWrites (n.handler == .handleAppend) _ _ _ _, w.Inside n.boot.contLen) ↔ _
    by_cases happend : n.handler = .handleAppend
    · rw [beq_iff_eq.2 happend, dataWrites_line p.flatten hhead, hlen, hlen']
      have hold := hw.line hh happend
      simp only [happend, forall_const, ne_eq, ← List.length_eq_zero_iff] at hold ⊢
      omega
    · rw [beq_eq_false_iff_ne.2 happend, dataWrites_none p.flatten hhead]
      exact iff_of_true (fun w hw => by cases hw) fun h => absurd h happend
  refine ⟨hiff, fun hinside => ⟨hi, fun hc => ?_, fun _ hc => ?_⟩⟩
  · rw [hh'] at hc
    cases hc
  · rw [hr.answer, hr.contLen]
    by_cases hnil : received (n.answer ++ [p]) = []
    · exact .inl hnil
    · exact .inr (hiff.1 hinside (hr.handler.symm.trans hc) hnil)

theorem startRequest_hLen (fresh : Nat → Nat → UInt8) (s : WebBoot) :
    (s.startRequest fresh).recv.hLen = 0 := by
  simp [WebBoot.startRequest, WebBoot.mallocHeader, WebBoot.effect, freeHeader_recv]

theorem webbootInit_hLen (fresh : Nat → Nat → UInt8) (s : WebBoot) :
    (webbootInit fresh s).recv.hLen = 0 :=
  startRequest_hLen fresh s

/-- The next answer goes to the start of a new block. -/
theorem close_hLen {s s' : WebBoot} {h : Handler} (hh : s.recv.head = false)
    (hs : callback fresh h s none = .ok s') : s'.recv.hLen = 0 := by
  have hrequest : ∀ u : WebBoot, u.recv.hLen = 0 → u.clearWindow.recv.hLen = 0 := by
    intro u hu
    exact (clearWindow_frame _).2.1.trans hu
  have hpos : (s.effect .tcpClose).recv.head = false := hh
  cases h with
  | handleKernel =>
    simp only [callback, recvKernel, if_pos hpos, Except.ok.injEq] at hs
    rw [← hs]
    exact hrequest _ (startRequest_hLen fresh _)
  | handleInitrd =>
    simp only [callback, recvInitrd, if_pos hpos, Except.ok.injEq] at hs
    rw [← hs]
    exact hrequest _ (startRequest_hLen fresh _)
  | handleAppend =>
    simp only [callback, recvAppend, if_pos hpos] at hs
    cases hs

/-- After the end of an answer: nothing has changed, or the next one is to come. -/
theorem Session.Inv.close_cases (hi : n.Inv) (fresh : Nat → Nat → UInt8) :
    ((n.close fresh).boot = n.boot ∧ (n.close fresh).handler = n.handler ∧
        (n.close fresh).answer = n.answer) ∨
      ((n.close fresh).answer = [] ∧
        ((n.close fresh).boot.recv.head = true → (n.close fresh).boot.recv.hLen = 0)) := by
  cases hcb : callback fresh n.handler n.boot none with
  | error halt =>
    unfold Session.close
    rw [hcb]
    exact .inl ⟨rfl, rfl, rfl⟩
  | ok boot =>
    have h0 : boot.recv.head = true → boot.recv.hLen = 0 := by
      intro hh
      cases hold : n.boot.recv.head with
      | false => exact close_hLen hold hcb
      | true =>
        obtain ⟨t, ht, -, hhead, -⟩ := close_head fresh (hi.head_phase hold) n.handler
        cases ht.symm.trans hcb
        cases hh.symm.trans hhead
    unfold Session.close
    rw [hcb]
    exact .inr ⟨rfl, h0⟩

theorem Session.Within.close (hw : n.Within) (fresh : Nat → Nat → UInt8) :
    (n.close fresh).Within := by
  have hi := (hw.inv.close fresh).1
  rcases hw.inv.close_cases fresh with ⟨h1, h2, h3⟩ | ⟨hnil, h0⟩
  · refine ⟨hi, ?_, ?_⟩
    · rw [h1, h3]
      exact hw.head
    · rw [h1, h2, h3]
      exact hw.line
  · refine ⟨hi, fun hh => ?_, fun _ _ => .inl (by rw [hnil]; rfl)⟩
    rw [h0 hh, hnil]
    exact ⟨rfl, by decide⟩

/-- **Event step.** -/
theorem within_next (hw : n.Within) (hn : webbootNext n e = some n') :
    (WritesInside n e ↔ AnswerFits n e) ∧ (WritesInside n e → n'.Within) := by
  have hi := (webbootNext_advances hw.inv hn).1
  have hnone : ∀ e, n.writes e = [] → WritesInside n e := by
    intro e he w hw
    rw [he] at hw
    cases hw
  cases (webbootNext_happens hn).2 with
  | connected => exact ⟨iff_of_true (hnone _ rfl) trivial, fun _ => ⟨hi, hw.head, hw.line⟩⟩
  | recv fresh p =>
    have hr := receive_received n fresh p
    cases hh : n.boot.recv.head with
    | true =>
      obtain ⟨hiff, hkeep⟩ := hw.receive_head fresh hr hi hh
      refine ⟨hiff.trans ?_, hkeep⟩
      simp [AnswerFits, hh]
    | false =>
      obtain ⟨hiff, hkeep⟩ := hw.receive_body fresh hr hi hh
      refine ⟨hiff.trans ?_, hkeep⟩
      simp [AnswerFits, hh]
  | close fresh => exact ⟨iff_of_true (hnone _ rfl) trivial, fun _ => hw.close fresh⟩
  | error => exact ⟨iff_of_true (hnone _ rfl) trivial, fun _ => ⟨hi, hw.head, hw.line⟩⟩

theorem within_webbootStart (fresh : Nat → Nat → UInt8) (s : WebBoot) :
    (webbootStart fresh s).Within := by
  have h0 : (webbootStart fresh s).boot.recv.hLen = 0 := webbootInit_hLen fresh s
  exact ⟨inv_webbootStart fresh s, fun _ => ⟨h0, h0.trans_lt (by decide)⟩, fun _ _ => .inl rfl⟩

/-- **Writes inside.**  In a whole run, everything the callbacks write is inside
`header` and `appendLine` exactly when each answer to a HEAD request is shorter
than 5120 bytes, and the append line no longer than was announced for it. -/
theorem writes_inside_iff {n₀ n : Session} {es : List NetEvent} (h₀ : webboot.init n₀)
    (hrun : webboot.run n₀ es = some n) :
    webboot.Along WritesInside n₀ es ↔ webboot.Along AnswerFits n₀ es := by
  obtain ⟨fresh, s, rfl⟩ := h₀
  exact Machine.along_iff_along (M := webboot) (I := Session.Within)
    (fun n e n' hw hn => within_next hw hn) (within_webbootStart fresh s) hrun

end

/-- As many bytes as this digit says are announced for the append line. -/
def announcedLine (digit : Char) : List NetEvent :=
  [.connected, .close fun _ _ => 0, .connected, .close fun _ _ => 0,
    .connected, .close fun _ _ => 0, .connected, .close fun _ _ => 0,
    .connected,
    .recv (fun _ _ => 0) [chars ("Content-Length: ".toList ++ [digit] ++ "\r\n\r\n".toList)],
    .close fun _ _ => 0, .connected]

def oneByteLine : NetEvent := .recv (fun _ _ => 0) [chars "\r\n\r\nx".toList]

/-- An append line of one byte, as announced: the byte and the NUL behind it. -/
theorem writes_inside_iff_line :
    webboot.Along WritesInside bareSession (announcedLine '1' ++ [oneByteLine]) ∧
      (webboot.run bareSession (announcedLine '1')).map (fun n => n.writes oneByteLine) =
        some [.appendLine 0, .appendLine 1] := by
  have hsome : (webboot.run bareSession (announcedLine '1' ++ [oneByteLine])).isSome = true := by
    decide +kernel
  obtain ⟨n, hn⟩ := Option.isSome_iff_exists.1 hsome
  exact ⟨(writes_inside_iff bareSession_init hn).2 (by decide +kernel), by decide +kernel⟩

/-- **An answer of 5120 bytes.**  The NUL behind its last byte is outside `header`. -/
theorem header_overrun : ¬ webboot.Along WritesInside bareSession
    [.connected, .recv (fun _ _ => 0) [List.replicate headerBytes 0x78]] := by
  rintro ⟨hfirst, h⟩
  have hw : ({ bareSession with connected := true } : Session).Within :=
    (within_next (e := .connected) (within_webbootStart _ _) rfl).2 hfirst
  have hinside := (h _ rfl).1
  have hfits := (within_next hw rfl).1.1 hinside
  have hlen := hfits.1 rfl
  simp [bareSession, webbootStart] at hlen

/-- **One byte more than announced.** -/
theorem appendLine_overrun : ∃ n, webboot.Reachable n ∧
    ¬ WritesInside n oneByteLine := by
  have hrun : (webboot.run bareSession (announcedLine '0')).map (fun n =>
      (n.writes oneByteLine, n.boot.contLen)) = some ([.appendLine 0, .appendLine 1], 0) := by
    decide +kernel
  obtain ⟨n, hn, he⟩ := Option.map_eq_some_iff.1 hrun
  refine ⟨n, (Machine.Reachable.of_init bareSession_init).run hn, fun hinside => ?_⟩
  have hwrites := congrArg Prod.fst he
  have hlen := congrArg Prod.snd he
  simp only at hwrites hlen
  rw [WritesInside, hwrites, hlen] at hinside
  have hlast : (1 : Int) < 0 + 1 := hinside (.appendLine 1) (by decide)
  omega

end Gentoox.Net
