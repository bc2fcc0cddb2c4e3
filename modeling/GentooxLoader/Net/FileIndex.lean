import GentooxLoader.Net.NetBoot

/-!
# Which file a request is answered with (networktools/netboot)

`handle_line` takes a place in `http_files` from the first line of a request.  The
number of a GET is checked against the table, the place for a POST is `postNum+2`,
and nothing but the end of the third upload's connection stops the counting.

    requestLine_file      the place is in the table ↔ no POST with `postNum` over 5
    requestLines_postNum  a segment counts no upload before its last request line
    postNum_uploads       `postNum` is the number of uploads accepted so far
    files_inside_iff      all places of a run are in the table ↔ no POST comes after
                          six uploads or more
    seventh_post          six uploads on open connections, and one more POST
-/

namespace Gentoox.Net

open Cells Lib

/-! ## Algorithm -/

/-- `handle_line` takes the first line for a POST. -/
def HttpState.posts (hs : HttpState) : Bool :=
  !(chars ['G', 'E', 'T', ' ']).isPrefixOf (hs.line 0) &&
    (chars ['P', 'O', 'S', 'T', ' ']).isPrefixOf (hs.line 0)

/-- The first lines that the bytes complete: the static variables and the
connection as `handle_line` has them. -/
def requestLines (files : Nat → Int) (l : Locals) :
    Server → HttpState → List UInt8 → List (Server × HttpState)
  | _, _, [] => []
  | s, hs, c :: cs =>
    let line := { hs with lineBuf := Function.update hs.lineBuf hs.lineBufpos 0 }
    let now := if hs.postdata = none ∧ c = 0x0a ∧ hs.gotfirst = false then [(s, line)] else []
    match recvByte files l s hs c with
    | (s', hs', true) => now ++ requestLines files l s' hs' cs
    | (_, _, false) => now

def NetBoot.requestLines (files : Nat → Int) (n : NetBoot) : Event → List (Server × HttpState)
  | .data k payload l =>
    match n.conns k with
    | some hs => if n.server.started then [] else Net.requestLines files l n.server hs payload
    | none => []
  | _ => []

/-- This byte completes a body, and the body is accepted. -/
def accepts (l : Locals) (s : Server) (hs : HttpState) (c : UInt8) : Bool :=
  match hs.postdata with
  | none => false
  | some a => ((hs.postpos + 1 : Nat) : Int) = hs.postlen &&
      (locate l (Function.update s.ram (a + hs.postpos) c) a hs.postlen).2.isSome

/-- The uploads that a segment completes and that are accepted. -/
def accepted (files : Nat → Int) (l : Locals) : Server → HttpState → List UInt8 → Nat
  | _, _, [] => 0
  | s, hs, c :: cs =>
    (accepts l s hs c).toNat +
      match recvByte files l s hs c with
      | (s', hs', true) => accepted files l s' hs' cs
      | (_, _, false) => 0

def NetBoot.accepted (files : Nat → Int) (n : NetBoot) : Event → Nat
  | .data k payload l =>
    match n.conns k with
    | some hs => Net.accepted files l n.server hs payload
    | none => 0
  | _ => 0

/-- The uploads accepted in a run. -/
def uploads (files : Nat → Int) : NetBoot → List Event → Nat
  | _, [] => 0
  | n, e :: es => n.accepted files e +
      match netbootNext files n e with
      | some n' => uploads files n' es
      | none => 0

/-- Every place that is used is one of the eight in `http_files`. -/
def FilesInside (files : Nat → Int) (n : NetBoot) (e : Event) : Prop :=
  ∀ p ∈ n.requestLines files e, ∀ hs, requestLine files p.1 p.2 = some hs → hs.file < 8

/-- A POST comes in, then less than six uploads have been accepted. -/
def PostsEarly (files : Nat → Int) (n : NetBoot) (e : Event) : Prop :=
  (∃ p ∈ n.requestLines files e, p.2.posts = true) → n.server.postNum < 6

/-! ## One line -/

section
variable {files : Nat → Int} {l : Locals} {s : Server} {hs : HttpState}

/-- The place is in the table unless it is one of a POST behind its end. -/
theorem requestLine_file :
    (∀ hs', requestLine files s hs = some hs' → hs'.file < 8) ↔
      (hs.posts = true → s.postNum < 6) := by
  unfold requestLine HttpState.posts
  split_ifs with hget hpost
  · simp only [hget, Bool.not_true, Bool.false_and, Bool.false_eq_true, false_imp_iff, iff_true]
    rintro hs' h
    cases h
    simp only
    split_ifs <;> omega
  · have hget' : (chars ['G', 'E', 'T', ' ']).isPrefixOf (hs.line 0) = false :=
      Bool.eq_false_iff.2 hget
    simp only [hget', hpost, Bool.not_false, Bool.and_true, forall_const]
    constructor
    · intro h
      have hlt : s.postNum + 2 < 8 := h _ rfl
      omega
    · rintro h hs' h'
      cases h'
      show s.postNum + 2 < 8
      omega
  · simp [hpost]

/-! ## One segment -/

theorem requestLines_cons (c : UInt8) (cs : List UInt8) :
    requestLines files l s hs (c :: cs) =
      (if hs.postdata = none ∧ c = 0x0a ∧ hs.gotfirst = false then
        [(s, { hs with lineBuf := Function.update hs.lineBuf hs.lineBufpos 0 })] else []) ++
      if (recvByte files l s hs c).2.2 then
        requestLines files l (recvByte files l s hs c).1 (recvByte files l s hs c).2.1 cs
      else [] := by
  rw [requestLines]
  rcases recvByte files l s hs c with ⟨s', hs', _ | _⟩
  · exact (List.append_nil _).symm
  · rfl

/-- A connection in the body stays there. -/
theorem recvByte_body {a : Nat} (hdata : hs.postdata = some a) (c : UInt8) :
    (recvByte files l s hs c).2.1.postdata = some a := by
  unfold recvByte HttpServer.recvByte
  rw [hdata]
  unfold HttpServer.bodyByte netbootServer
  simp only
  split_ifs
  · rw [(respond_same l _).postdata, (handlePost_frame l _ _ a).1]
    exact hdata
  · exact hdata

theorem requestLines_body {a : Nat} (hdata : hs.postdata = some a) (cs : List UInt8) :
    requestLines files l s hs cs = [] := by
  induction cs generalizing s hs with
  | nil => rfl
  | cons c cs ih =>
    rw [requestLines_cons, if_neg (by simp [hdata]), ih (recvByte_body hdata c)]
    split <;> rfl

/-- A byte of the header leaves the static variables alone, and one of the body is
followed by no more request lines. -/
theorem requestLines_postNum {cs : List UInt8} {p : Server × HttpState}
    (hp : p ∈ requestLines files l s hs cs) : p.1.postNum = s.postNum := by
  induction cs generalizing s hs with
  | nil => cases hp
  | cons c cs ih =>
    cases hdata : hs.postdata with
    | some a =>
      rw [requestLines_body hdata] at hp
      cases hp
    | none =>
      have hsame : (recvByte files l s hs c).1 = s := by
        unfold recvByte HttpServer.recvByte
        rw [hdata]
      rw [requestLines_cons] at hp
      rcases List.mem_append.1 hp with hp | hp
      · split at hp
        · rw [List.mem_singleton.1 hp]
        · cases hp
      · split at hp
        · rw [ih hp, hsame]
        · cases hp

end

/-! ## Uploads -/

section
variable {files : Nat → Int} {l : Locals} {n n' : NetBoot}

theorem recvByte_postNum (s : Server) (hs : HttpState) (c : UInt8) :
    (recvByte files l s hs c).1.postNum = s.postNum + (accepts l s hs c).toNat := by
  unfold recvByte HttpServer.recvByte accepts
  cases hs.postdata with
  | none => rfl
  | some a =>
    unfold HttpServer.bodyByte netbootServer handlePost
    simp only
    by_cases hend : ((hs.postpos + 1 : Nat) : Int) = hs.postlen
    · rw [if_pos hend, decide_eq_true hend, Bool.true_and]
      rcases locate l _ a hs.postlen with ⟨ram, _ | ⟨start, stop⟩⟩ <;> rfl
    · rw [if_neg hend, decide_eq_false hend]
      rfl

theorem httpRecv_postNum (cs : List UInt8) (s : Server) (hs : HttpState) :
    (httpRecv files l s hs cs).1.postNum = s.postNum + accepted files l s hs cs := by
  induction cs generalizing s hs with
  | nil => rfl
  | cons c cs ih =>
    have hbyte := @recvByte_postNum files l s hs c
    unfold httpRecv HttpServer.httpRecv accepted
    rw [← recvByte]
    generalize recvByte files l s hs c = t at hbyte ⊢
    obtain ⟨s', hs', _ | _⟩ := t
    · exact hbyte
    · have hrest := ih s' hs'
      rw [httpRecv] at hrest
      simp only at hbyte ⊢
      rw [hrest, hbyte, Nat.add_assoc]

theorem closeConn_postNum (n : NetBoot) (k : Nat) (hs : HttpState) :
    (n.closeConn k hs).server.postNum = n.server.postNum := by
  unfold NetBoot.closeConn
  split
  · rfl
  · show (useUpload n.server hs).postNum = n.server.postNum
    unfold useUpload
    split
    · rfl
    · simp only
      split_ifs <;> rfl

/-- **Event step.**  `postNum` grows by the uploads that the event completes. -/
theorem next_postNum {e : Event} (h : netbootNext files n e = some n') :
    n'.server.postNum = n.server.postNum + n.accepted files e := by
  unfold netbootNext at h
  split at h
  · cases h
  cases e with
  | accept k lineBuf =>
    simp only at h
    split at h
    · cases h
    · cases h
      rfl
  | data k payload l =>
    obtain ⟨hs, hk, rfl⟩ := Option.map_eq_some_iff.1 h
    have hrecv := @httpRecv_postNum files l payload n.server hs
    unfold NetBoot.accepted
    simp only [hk]
    rw [← hrecv]
    unfold NetBoot.recvData
    rcases httpRecv files l n.server hs payload with ⟨s, hs', _ | _⟩
    · simp only
      rw [closeConn_postNum, received_server]
    · simp only
      rw [NetBoot.withConn, received_server]
  | sent k l =>
    obtain ⟨hs, hk, rfl⟩ := Option.map_eq_some_iff.1 h
    unfold NetBoot.httpSent
    simp only
    split
    · rfl
    · exact closeConn_postNum ..
  | poll k l =>
    obtain ⟨hs, hk, rfl⟩ := Option.map_eq_some_iff.1 h
    unfold NetBoot.httpPoll
    simp only
    split <;> rfl
  | close k =>
    obtain ⟨hs, hk, rfl⟩ := Option.map_eq_some_iff.1 h
    exact closeConn_postNum ..
  | error k =>
    obtain ⟨hs, hk, rfl⟩ := Option.map_eq_some_iff.1 h
    rfl

theorem run_postNum {es : List Event} (h : (netboot files).run n es = some n') :
    n'.server.postNum = n.server.postNum + uploads files n es := by
  induction es generalizing n with
  | nil =>
    cases h
    rfl
  | cons e es ih =>
    obtain ⟨m, hm, hrest⟩ := Option.bind_eq_some_iff.1 h
    have hm' : netbootNext files n e = some m := hm
    rw [uploads, hm', ih hrest, next_postNum hm', Nat.add_assoc]

/-- **`postNum`** is the number of uploads accepted so far. -/
theorem postNum_uploads {ram : Nat → UInt8} {es : List Event}
    (h : (netboot files).run (netbootStart ram) es = some n) :
    n.server.postNum = uploads files (netbootStart ram) es :=
  (run_postNum h).trans (Nat.zero_add _)

end

/-! ## Runs -/

section
variable {files : Nat → Int} {n : NetBoot}

theorem netboot_requestLines_postNum {e : Event} {p : Server × HttpState}
    (hp : p ∈ n.requestLines files e) : p.1.postNum = n.server.postNum := by
  unfold NetBoot.requestLines at hp
  split at hp
  · split at hp
    · split at hp
      · cases hp
      · exact requestLines_postNum hp
    · cases hp
  · cases hp

/-- **Event step.** -/
theorem filesInside_iff (files : Nat → Int) (n : NetBoot) (e : Event) :
    FilesInside files n e ↔ PostsEarly files n e := by
  unfold FilesInside PostsEarly
  constructor
  · rintro h ⟨p, hp, hposts⟩
    rw [← netboot_requestLines_postNum hp]
    exact requestLine_file.1 (h p hp) hposts
  · intro h p hp
    refine requestLine_file.2 fun hposts => ?_
    rw [netboot_requestLines_postNum hp]
    exact h ⟨p, hp, hposts⟩

end

/-! ## Top theorem -/

/-- **The table of files.**  In a run of requests on any connections all places
used in `http_files` are below 8 exactly when no POST comes in while six uploads or
more have been accepted. -/
theorem files_inside_iff (files : Nat → Int) (ram : Nat → UInt8) (es : List Event) :
    (netboot files).Along (FilesInside files) (netbootStart ram) es ↔
      (netboot files).Along (PostsEarly files) (netbootStart ram) es :=
  Machine.along_congr (filesInside_iff files)

/-- Six kernels, each posted on a connection of its own that stays open. -/
def sixPosts : List Event :=
  (List.range 6).flatMap fun k => [.accept k fun _ => 0, .data k kernelPost plainLocals]

def postLine : Event := .data 6 (chars "POST /\n".toList) plainLocals

/-- **The seventh post.**  Its answer would be taken from place 8. -/
theorem seventh_post : ¬ (netboot fun _ => 1).Along (FilesInside fun _ => 1) blankBoot
    (sixPosts ++ [.accept 6 fun _ => 0, postLine]) := by
  have hrun : (((netboot fun _ => 1).run blankBoot (sixPosts ++ [.accept 6 fun _ => 0])).map
      fun n => (n.requestLines (fun _ => 1) postLine).filterMap fun p =>
        (requestLine (fun _ => 1) p.1 p.2).map (·.file)) = some [8] := by
    decide +kernel
  obtain ⟨n, hn, hfiles⟩ := Option.map_eq_some_iff.1 hrun
  have hmem : 8 ∈ (n.requestLines (fun _ => 1) postLine).filterMap fun p =>
      (requestLine (fun _ => 1) p.1 p.2).map (·.file) := by
    rw [hfiles]
    exact List.mem_singleton.2 rfl
  obtain ⟨p, hp, hfile⟩ := List.mem_filterMap.1 hmem
  obtain ⟨hs, hs1, hs2⟩ := Option.map_eq_some_iff.1 hfile
  intro h
  rw [← List.singleton_append, ← List.append_assoc] at h
  have hlt : hs.file < 8 := (h.of_append hn).1 p hp hs hs1
  omega

end Gentoox.Net
