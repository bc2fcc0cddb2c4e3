import GentooxLoader.Base.Loops
import GentooxLoader.Net.NetBoot
import GentooxLoader.Net.NetFlash

/-!
# A response on its way (networktools/netboot, networktools/netflash)

The machine `response` takes the calls that send a file, from the place where
`handle_line` or `handle_post` has selected it: the first one at the end of the
request, then `http_sent` and `http_poll` in any order.  The send buffer may have
any room and `tcp_write` answer anything.

    tcpWrite_ends        the loop around `tcp_write` ends by itself
    Sending              what has been accepted, and what is left
    response_sends       the file is sent from its start on without a gap, and the
                         connection is closed at its end only
    netboot_httpSent     the callbacks of the two servers are these
-/

namespace Gentoox.Net

open Cells Loops

/-! ## Algorithm -/

/-- The `do` loop around `tcp_write`: the number of the call and `len`. -/
def tcpWriteTurn (tcpWrite : Nat → Err) (v : Nat × Nat) : Option (Turn (Nat × Nat) (Err × Nat)) :=
  match tcpWrite v.1 with
  | .mem => if v.2 / 2 > 1 then some (.next (v.1 + 1, v.2 / 2)) else some (.done (.mem, v.2 / 2))
  | err => some (.done (err, v.2))

/-- The bytes of the file at `data` that `tcp_write` accepts in `send_data`. -/
def sentBytes (data : Nat → UInt8) (l : Locals) (hs : HttpState) : List UInt8 :=
  match tcpWriteLoop l.tcpWrite 17 0 (sendLen l hs) with
  | (.ok, len) => read data hs.fileOffset len
  | _ => []

inductive Ending where
  | closed
  | aborted
  deriving DecidableEq

/-- A connection with a response, and the bytes of it that were accepted. -/
structure Response where
  hs : HttpState
  accepted : List UInt8
  ending : Option Ending

inductive SendEvent where
  | respond (l : Locals)
  | sent (l : Locals)
  | poll (l : Locals)

section
variable (data : Nat → UInt8) (n : Response) (l : Locals)

def Response.respond : Response :=
  { n with hs := n.hs.respond l, accepted := n.accepted ++ sentBytes data l n.hs }

def Response.send : Response :=
  { n with hs := sendData l n.hs, accepted := n.accepted ++ sentBytes data l n.hs }

def Response.httpSent : Response :=
  let n := { n with hs := { n.hs with retries := 0 } }
  if n.hs.left > 0 then n.send data l else { n with ending := some .closed }

def Response.httpPoll : Response :=
  let n := { n with hs := { n.hs with retries := n.hs.retries + 1 } }
  if n.hs.retries = 4 then { n with ending := some .aborted } else n.send data l

end

def responseNext (data : Nat → UInt8) (n : Response) (e : SendEvent) : Option Response :=
  if n.ending = none then
    match e with
    | .respond l => some (n.respond data l)
    | .sent l => if n.hs.polled then some (n.httpSent data l) else none
    | .poll l => if n.hs.polled then some (n.httpPoll data l) else none
  else none

/-- The response is the file of `length` bytes at `data`. -/
def response (data : Nat → UInt8) (length : Nat) : Machine Response SendEvent where
  init n := ∃ hs : HttpState, hs.fileOffset = 0 ∧ hs.left = length ∧ n = ⟨hs, [], none⟩
  next := responseNext data

/-! ## The loop around `tcp_write` -/

/-- What is halved is soon used up. -/
theorem tcpWrite_ends (tcpWrite : Nat → Err) : ∀ {fuel k len : Nat}, len < 2 ^ (fuel + 1) →
    Fuel.Ends (fun fuel => loop (tcpWriteTurn tcpWrite) fuel (k, len))
      (some (tcpWriteLoop tcpWrite (fuel + 1) k len)) := by
  intro fuel
  induction fuel with
  | zero =>
    intro k len hlen
    refine Fuel.Ends.now fun fuel => loop_done ?_ fuel
    unfold tcpWriteTurn tcpWriteLoop
    have hhalf : ¬ len / 2 > 1 := by omega
    cases tcpWrite k with
    | mem => simp only [if_neg hhalf]
    | ok => rfl
    | other => rfl
  | succ fuel ih =>
    intro k len hlen
    cases hk : tcpWrite k with
    | mem =>
      by_cases hhalf : len / 2 > 1
      · have hturn : tcpWriteTurn tcpWrite (k, len) = some (.next (k + 1, len / 2)) := by
          unfold tcpWriteTurn
          simp only [hk, if_pos hhalf]
        have hloop : tcpWriteLoop tcpWrite (fuel + 1 + 1) k len =
            tcpWriteLoop tcpWrite (fuel + 1) (k + 1) (len / 2) := by
          rw [tcpWriteLoop]
          simp only [hk, if_pos hhalf]
        rw [hloop]
        rw [Nat.pow_succ] at hlen
        exact Fuel.Ends.succ (ih (by omega)) fun fuel => loop_next hturn fuel
      · refine Fuel.Ends.now fun fuel => loop_done ?_ fuel
        unfold tcpWriteTurn tcpWriteLoop
        simp only [hk, if_neg hhalf]
    | ok =>
      refine Fuel.Ends.now fun fuel => loop_done ?_ fuel
      unfold tcpWriteTurn tcpWriteLoop
      simp only [hk]
    | other =>
      refine Fuel.Ends.now fun fuel => loop_done ?_ fuel
      unfold tcpWriteTurn tcpWriteLoop
      simp only [hk]

theorem tcpWriteLoop_le (tcpWrite : Nat → Err) (fuel k len : Nat) :
    (tcpWriteLoop tcpWrite fuel k len).2 ≤ len := by
  induction fuel generalizing k len with
  | zero => exact Nat.le_refl _
  | succ fuel ih =>
    unfold tcpWriteLoop
    split
    · split
      · exact Nat.le_trans (ih _ _) (Nat.div_le_self _ _)
      · exact Nat.div_le_self _ _
    · exact Nat.le_refl _

theorem sendLen_lt (l : Locals) (hs : HttpState) : sendLen l hs < 2 ^ 16 := by
  unfold sendLen
  split <;> omega

theorem sendLen_le (l : Locals) {hs : HttpState} (h : 0 ≤ hs.left) :
    (sendLen l hs : Int) ≤ hs.left := by
  unfold sendLen
  split
  · have := Nat.mod_le l.sndbuf (2 ^ 16)
    omega
  · omega

/-! ## What is left -/

/-- What was accepted is the file up to `hs->file`, and `left` the rest of it. -/
structure Sending (data : Nat → UInt8) (length : Nat) (n : Response) : Prop where
  accepted : n.accepted = read data 0 n.hs.fileOffset
  total : (n.hs.fileOffset : Int) + n.hs.left = length
  nonneg : 0 ≤ n.hs.left
  closed : n.ending = some .closed → n.hs.left = 0

section
variable {data : Nat → UInt8} {length : Nat} {n n' : Response}

/-- **`send_data`.**  All that `tcp_write` takes, or nothing. -/
theorem Sending.send (h : Sending data length n) (hopen : n.ending = none) (l : Locals) :
    Sending data length (n.send data l) := by
  obtain ⟨haccepted, htotal, hnonneg, -⟩ := h
  have hle := tcpWriteLoop_le l.tcpWrite 17 0 (sendLen l n.hs)
  have hleft := sendLen_le l hnonneg
  unfold Response.send sendData sentBytes
  generalize tcpWriteLoop l.tcpWrite 17 0 (sendLen l n.hs) = r at hle
  obtain ⟨err, len⟩ := r
  have hclosed : n.ending ≠ some .closed := by rw [hopen]; exact nofun
  cases err with
  | ok =>
    refine ⟨?_, ?_, ?_, fun hc => absurd hc hclosed⟩
    · simp only
      rw [read_add, haccepted, Nat.zero_add]
    · simp only [Nat.cast_add]
      omega
    · simp only at hle ⊢
      omega
  | mem =>
    exact ⟨by rw [List.append_nil]; exact haccepted, htotal, hnonneg,
      fun hc => absurd hc hclosed⟩
  | other =>
    exact ⟨by rw [List.append_nil]; exact haccepted, htotal, hnonneg, fun hc => absurd hc hclosed⟩

/-- **Event step.** -/
theorem Sending.next {e : SendEvent} (h : Sending data length n)
    (hn : responseNext data n e = some n') : Sending data length n' := by
  unfold responseNext at hn
  split at hn
  · rename_i hopen
    cases e with
    | respond l =>
      cases hn
      obtain ⟨h1, h2, h3, h4⟩ := h.send hopen l
      exact ⟨h1, h2, h3, h4⟩
    | sent l =>
      simp only at hn
      split at hn
      · cases hn
        unfold Response.httpSent
        simp only
        have h' : Sending data length { n with hs := { n.hs with retries := 0 } } :=
          ⟨h.accepted, h.total, h.nonneg, h.closed⟩
        split
        · exact h'.send hopen l
        · rename_i hleft
          exact ⟨h.accepted, h.total, h.nonneg,
            fun _ => Int.le_antisymm (Int.not_lt.1 hleft) h.nonneg⟩
      · cases hn
    | poll l =>
      simp only at hn
      split at hn
      · cases hn
        unfold Response.httpPoll
        simp only
        have h' : Sending data length { n with hs := { n.hs with retries := n.hs.retries + 1 } } :=
          ⟨h.accepted, h.total, h.nonneg, h.closed⟩
        split
        · exact ⟨h.accepted, h.total, h.nonneg, nofun⟩
        · exact h'.send hopen l
      · cases hn
  · cases hn

theorem sending_reachable (h : (response data length).Reachable n) : Sending data length n := by
  refine Machine.invariant (I := Sending data length) ?_ (fun _ _ _ h hn => h.next hn) n h
  rintro _ ⟨hs, hoffset, hleft, rfl⟩
  refine ⟨?_, ?_, ?_, nofun⟩
  · rw [hoffset]
    rfl
  · simp only [hoffset, hleft]
    omega
  · simp only [hleft]
    omega

end

/-! ## The two servers -/

section
variable {files : Nat → Int} {l : Locals} {hs hs' : HttpState}

/-- A response is selected from its start on. -/
theorem requestLine_selects {s : Server} (h : requestLine files s hs = some hs') :
    hs'.fileOffset = 0 ∧ hs'.left = files hs'.file := by
  unfold requestLine at h
  split_ifs at h <;> cases h <;> exact ⟨rfl, rfl⟩

theorem netflash_handleLine_selects {malloc : Int → Option Nat} (hfirst : hs.gotfirst = false)
    (h : NetFlash.handleLine files l malloc hs = some hs') :
    hs'.fileOffset = 0 ∧ hs'.left = files hs'.file := by
  unfold NetFlash.handleLine at h
  rw [hfirst] at h
  simp only [Bool.not_false, if_true] at h
  split_ifs at h <;> cases h <;> exact ⟨rfl, rfl⟩

theorem netflash_handlePost_selects (ram : Nat → UInt8) (hs : HttpState) (postdata : Nat) :
    (NetFlash.handlePost files l ram hs postdata).2.fileOffset = 0 ∧
      (NetFlash.handlePost files l ram hs postdata).2.left =
        files (NetFlash.handlePost files l ram hs postdata).2.file := by
  unfold NetFlash.handlePost
  simp only
  split
  · exact ⟨rfl, rfl⟩
  · split_ifs <;> exact ⟨rfl, rfl⟩

variable {data : Nat → UInt8} {k : Nat} {r : Response}

theorem httpSent_ending (hopen : r.ending = none) :
    (r.httpSent data l).ending = if r.hs.left > 0 then none else some .closed := by
  unfold Response.httpSent
  simp only
  split <;> [exact hopen; rfl]

theorem httpPoll_ending (hopen : r.ending = none) :
    (r.httpPoll data l).ending = if r.hs.retries + 1 = 4 then some .aborted else none := by
  unfold Response.httpPoll
  simp only
  split <;> [rfl; exact hopen]

/-- `http_sent` of netboot. -/
theorem netboot_httpSent (n : NetBoot) (hopen : r.ending = none) :
    n.httpSent k r.hs l =
      if (r.httpSent data l).ending = some .closed then n.closeConn k (r.httpSent data l).hs
      else n.withConn k (some (r.httpSent data l).hs) := by
  rw [httpSent_ending hopen]
  unfold NetBoot.httpSent Response.httpSent
  simp only
  split <;> rfl

theorem netboot_httpPoll (n : NetBoot) (hopen : r.ending = none) :
    n.httpPoll k r.hs l =
      if (r.httpPoll data l).ending = some .aborted then n.withConn k none
      else n.withConn k (some (r.httpPoll data l).hs) := by
  rw [httpPoll_ending hopen]
  unfold NetBoot.httpPoll Response.httpPoll
  simp only
  split <;> rfl

/-- `http_sent` of netflash. -/
theorem netflash_httpSent (n : NetFlash) (hopen : r.ending = none) :
    n.httpSent k r.hs l =
      if (r.httpSent data l).ending = some .closed then n.closeConn k (r.httpSent data l).hs
      else .ok (n.withConn k (some (r.httpSent data l).hs)) := by
  rw [httpSent_ending hopen]
  unfold NetFlash.httpSent Response.httpSent
  simp only
  split <;> rfl

theorem netflash_httpPoll (n : NetFlash) (hopen : r.ending = none) :
    n.httpPoll k r.hs l =
      if (r.httpPoll data l).ending = some .aborted then n.withConn k none
      else n.withConn k (some (r.httpPoll data l).hs) := by
  rw [httpPoll_ending hopen]
  unfold NetFlash.httpPoll Response.httpPoll
  simp only
  split <;> rfl

end

/-! ## Top theorem -/

/-- **The file, from its start on.**  Whatever the send buffer and `tcp_write`
answer, what was accepted is a prefix of the file and `left` the length of the
rest, `http_sent` has closed the connection at the end only, and the loop around
`tcp_write` ends. -/
theorem response_sends (data : Nat → UInt8) (length : Nat) {n : Response}
    (h : (response data length).Reachable n) :
    n.accepted <+: read data 0 length ∧ n.hs.left = (length : Int) - n.accepted.length ∧
      0 ≤ n.hs.left ∧ (n.ending = some .closed → n.hs.left = 0) ∧
      ∀ l : Locals, Fuel.Ends (fun fuel => loop (tcpWriteTurn l.tcpWrite) fuel (0, sendLen l n.hs))
        (some (tcpWriteLoop l.tcpWrite 17 0 (sendLen l n.hs))) := by
  obtain ⟨haccepted, htotal, hnonneg, hclosed⟩ := sending_reachable h
  refine ⟨?_, ?_, hnonneg, hclosed, fun l => ?_⟩
  · obtain ⟨k, rfl⟩ : ∃ k, length = n.hs.fileOffset + k := ⟨n.hs.left.toNat, by omega⟩
    rw [haccepted, read_add]
    exact List.prefix_append _ _
  · rw [haccepted, length_read]
    omega
  · have hlt := sendLen_lt l n.hs
    exact tcpWrite_ends l.tcpWrite (by omega)

/-- A file of three bytes, of which one goes at a time. -/
theorem response_sends_three : ∃ n : Response, n.ending = some .closed ∧
    n.accepted <+: read (fun i => (i : Nat).toUInt8) 0 3 ∧
    n.hs.left = ((3 : Nat) : Int) - n.accepted.length := by
  let M := response (fun i => i.toUInt8) 3
  let l : Locals := ⟨0, 0, 1, fun _ => .ok⟩
  have hrun : ((M.run ⟨{ httpAccept fun _ => 0 with left := 3 }, [], none⟩
      [.respond l, .sent l, .poll l, .sent l]).map (·.ending)) = some (some .closed) := by
    decide +kernel
  obtain ⟨n, hn, hend⟩ := Option.map_eq_some_iff.1 hrun
  have hinit : M.init ⟨{ httpAccept fun _ => 0 with left := 3 }, [], none⟩ := ⟨_, rfl, rfl, rfl⟩
  have hsends := response_sends (fun i => i.toUInt8) 3 ((Machine.Reachable.of_init hinit).run hn)
  exact ⟨n, hend, hsends.1, hsends.2.1⟩

end Gentoox.Net
