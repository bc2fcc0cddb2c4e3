import GentooxLoader.Net.WebWrites

/-!
# Who frees `header` (networktools/webboot)

`processHeader` frees the block where it finds a Content-Length, and leaves the
pointer as it is; the end of the kernel and of the initrd, and `webboot_init`,
free what the pointer names and take a new block.  The machine `webbootCalls`
makes these calls in any order and on any connection; what `tcp_abort` and
`connErr` do to old connections only takes orders away.

    callback_head, callback_next   what a callback does to the block
    calls_of_run       a run of `webboot` is one of `webbootCalls`
    announces_sent     the Content-Length is one that was sent
    webCall_header     a call frees a block again ↔ it starts the next request after
                       an answer with a Content-Length
    live_along         `header` is only written while it is not freed
    freed_once_iff     each block is freed at most once ↔ no next request comes
                       after an answer with a Content-Length
    freed_twice        a kernel whose length was announced
-/

namespace Gentoox.Net

open Cells Lib Streams

/-! ## Algorithm -/

/-- The variables of webboot.c, and where a call did not come back from. -/
structure WebRun where
  boot : WebBoot
  halt : Option Halt

inductive WebCall where
  | recv (h : Handler) (fresh : Nat → Nat → UInt8) (p : Chain)
  | close (h : Handler) (fresh : Nat → Nat → UInt8)
  | webbootInit (fresh : Nat → Nat → UInt8)
  | connErr

def WebRun.after (n : WebRun) : Except Halt WebBoot → WebRun
  | .ok boot => { n with boot }
  | .error halt => { n with halt := some halt }

def webCall (n : WebRun) (e : WebCall) : Option WebRun :=
  if n.halt.isSome then none
  else
    match e with
    | .recv h fresh p => some (n.after (callback fresh h n.boot (some p)))
    | .close h fresh => some (n.after (callback fresh h n.boot none))
    | .webbootInit fresh => some { n with boot := webbootInit fresh n.boot }
    | .connErr => some { n with halt := some .loop }

/-- The first call is `webboot_init`, with `header` still NULL. -/
def webbootCalls : Machine WebRun WebCall where
  init n := ∃ fresh s, s.header = none ∧ s.effects = [] ∧ n = ⟨webbootInit fresh s, none⟩
  next := webCall

/-- The blocks that were passed to `free`. -/
def freedBlocks (effects : List Effect) : List Nat :=
  effects.filterMap fun
    | .free block => some block
    | _ => none

/-- `processHeader` finds a Content-Length. -/
def Receive.announces (s : Receive) : Bool :=
  (strstr (cstr (read s.header 0 (s.hLen + headerBytes)))
    (chars ['C', 'o', 'n', 't', 'e', 'n', 't', '-', 'L', 'e', 'n', 'g', 't', 'h'])).isSome

/-- `header` names a block that was not freed. -/
def WebBoot.HeaderLive (s : WebBoot) : Prop :=
  ∃ block, s.header = some block ∧ block ∉ freedBlocks s.effects

/-- If the call writes to `header`, the block was not freed. -/
def WritesLive (n : WebRun) : WebCall → Prop
  | .recv h _ p => ∀ i, .header i ∈ n.boot.writes h p → n.boot.HeaderLive
  | _ => True

/-- The answer to the last HEAD request is over, and had a Content-Length. -/
def WebBoot.Announced (s : WebBoot) : Prop := s.recv.head = false ∧ s.recv.announces = true

/-- The call does not start the next request after an answer with a Content-Length. -/
def NotAnnounced (n : WebRun) : WebCall → Prop
  | .close h _ => n.boot.recv.head = false → h ≠ .handleAppend → ¬ n.boot.Announced
  | .webbootInit _ => ¬ n.boot.Announced
  | _ => True

/-! ## The block -/

section
variable {fresh : Nat → Nat → UInt8} {s : WebBoot} {h : Handler} {block : Nat}

theorem announces_congr {r r' : Receive} (hheader : r'.header = r.header)
    (hlen : r'.hLen = r.hLen) : r'.announces = r.announces := by
  unfold Receive.announces
  rw [hheader, hlen]

theorem freedBlocks_effect (s : WebBoot) (e : Effect) :
    freedBlocks (s.effect e).effects = freedBlocks s.effects ++ freedBlocks [e] :=
  List.filterMap_append

theorem freedBlocks_freeHeader (s : WebBoot) :
    freedBlocks s.freeHeader.effects = freedBlocks s.effects ++ s.header.toList := by
  unfold WebBoot.freeHeader
  cases hb : s.header with
  | none => exact (List.append_nil _).symm
  | some block => exact freedBlocks_effect s (.free block)

theorem freeHeader_blocks (s : WebBoot) : s.freeHeader.blocks = s.blocks := by
  unfold WebBoot.freeHeader
  split <;> rfl

theorem freeHeader_header (s : WebBoot) : s.freeHeader.header = s.header := by
  unfold WebBoot.freeHeader
  split <;> rfl

/-- The block is left as it is. -/
structure SameBlock (s t : WebBoot) : Prop where
  freed : freedBlocks t.effects = freedBlocks s.effects
  header : t.header = s.header
  blocks : s.blocks ≤ t.blocks
  head : t.recv.head = s.recv.head
  announces : s.recv.head = false → t.recv.announces = s.recv.announces

/-- `processHeader` has looked at the answer to a HEAD request. -/
structure Processed (s t : WebBoot) (block : Nat) : Prop where
  freed : freedBlocks t.effects =
    freedBlocks s.effects ++ if s.recv.announces then [block] else []
  header : t.header = s.header
  blocks : s.blocks ≤ t.blocks
  head : t.recv.head = false
  announces : t.recv.announces = s.recv.announces

/-- The block is freed and a new one taken. -/
structure Renews (s t : WebBoot) (block : Nat) : Prop where
  freed : freedBlocks t.effects = freedBlocks s.effects ++ [block]
  header : ∃ next, t.header = some next ∧ s.blocks ≤ next ∧ next < t.blocks
  head : t.recv.head = true

theorem SameBlock.trans {t u : WebBoot} (h : SameBlock s t) (h' : SameBlock t u) :
    SameBlock s u where
  freed := h'.freed.trans h.freed
  header := h'.header.trans h.header
  blocks := h.blocks.trans h'.blocks
  head := h'.head.trans h.head
  announces hs := (h'.announces (h.head.trans hs)).trans (h.announces hs)

theorem Processed.trans {t u : WebBoot} (h : Processed s t block) (h' : SameBlock t u) :
    Processed s u block where
  freed := h'.freed.trans h.freed
  header := h'.header.trans h.header
  blocks := h.blocks.trans h'.blocks
  head := h'.head.trans h.head
  announces := (h'.announces h.head).trans h.announces

theorem Renews.trans {t u : WebBoot} (h : Renews s t block) (h' : SameBlock t u) :
    Renews s u block where
  freed := h'.freed.trans h.freed
  header := by
    obtain ⟨next, hnext, hle, hlt⟩ := h.header
    exact ⟨next, h'.header.trans hnext, hle, hlt.trans_le h'.blocks⟩
  head := h'.head.trans h.head

theorem SameBlock.renews {t u : WebBoot} (h : SameBlock s t) (h' : Renews t u block) :
    Renews s u block where
  freed := by rw [h'.freed, h.freed]
  header := by
    obtain ⟨next, hnext, hle, hlt⟩ := h'.header
    exact ⟨next, hnext, h.blocks.trans hle, hlt⟩
  head := h'.head

theorem sameBlock_effect (s : WebBoot) {e : Effect} (he : freedBlocks [e] = []) :
    SameBlock s (s.effect e) where
  freed := by rw [freedBlocks_effect, he, List.append_nil]
  header := rfl
  blocks := Nat.le_refl _
  head := rfl
  announces _ := rfl

theorem sameBlock_clearWindow (s : WebBoot) : SameBlock s s.clearWindow := by
  obtain ⟨hhead, hlen, -, hheader⟩ := clearWindow_frame s.recv
  exact ⟨rfl, rfl, Nat.le_refl _, hhead, fun _ => announces_congr hheader hlen⟩

/-- `appendLine` is allocated. -/
theorem sameBlock_malloc (s : WebBoot) (size : Nat) (appendLine : Nat → UInt8) : SameBlock s
    { s.effect (.malloc s.blocks size) with appendLine, blocks := s.blocks + 1 } where
  freed := (freedBlocks_effect s _).trans (List.append_nil _)
  header := rfl
  blocks := Nat.le_succ _
  head := rfl
  announces _ := rfl

/-- The next connection. -/
theorem sameBlock_tcpConnect (s : WebBoot) (h : Handler) :
    SameBlock s (s.effect (.tcpConnect h)).clearWindow :=
  (sameBlock_effect s rfl).trans (sameBlock_clearWindow _)

/-- The variables before `header` is freed, and what is done with it. -/
theorem startRequest_eq (fresh : Nat → Nat → UInt8) (s : WebBoot) : ∃ u : WebBoot,
    s.startRequest fresh = ({ u.freeHeader with header := none } : WebBoot).mallocHeader fresh ∧
      u.header = s.header ∧ u.effects = s.effects ∧ u.blocks = s.blocks ∧ u.recv.head = true :=
  ⟨_, rfl, rfl, rfl, rfl, rfl⟩

theorem startRequest_block (fresh : Nat → Nat → UInt8) (s : WebBoot) :
    freedBlocks (s.startRequest fresh).effects = freedBlocks s.effects ++ s.header.toList ∧
      (s.startRequest fresh).header = some s.blocks ∧
      (s.startRequest fresh).blocks = s.blocks + 1 ∧ (s.startRequest fresh).recv.head = true := by
  obtain ⟨u, hu, hheader, heffects, hblocks, hhead⟩ := startRequest_eq fresh s
  rw [hu]
  refine ⟨?_, ?_, ?_, ?_⟩
  · rw [← hheader, ← heffects, ← freedBlocks_freeHeader]
    exact (freedBlocks_effect _ _).trans (List.append_nil _)
  · rw [← hblocks, ← freeHeader_blocks u]
    rfl
  · rw [← hblocks, ← freeHeader_blocks u]
    rfl
  · show u.freeHeader.recv.head = true
    rw [freeHeader_recv, hhead]

theorem renews_startRequest (fresh : Nat → Nat → UInt8) (hb : s.header = some block) :
    Renews s (s.startRequest fresh) block := by
  obtain ⟨hfreed, hheader, hblocks, hhead⟩ := startRequest_block fresh s
  rw [hb] at hfreed
  exact ⟨hfreed, ⟨s.blocks, hheader, Nat.le_refl _, by omega⟩, hhead⟩

theorem processHeader_block (hb : s.header = some block) :
    freedBlocks (processHeader s).effects =
        freedBlocks s.effects ++ (if s.recv.announces then [block] else []) ∧
      (processHeader s).header = s.header ∧ (processHeader s).blocks = s.blocks := by
  unfold processHeader
  split
  · rename_i headerPtr hfound
    have hyes : s.recv.announces = true := by
      unfold Receive.announces
      rw [hfound]
      rfl
    have hfreed := freedBlocks_freeHeader s
    rw [hb] at hfreed
    rw [if_pos hyes]
    exact ⟨hfreed, freeHeader_header s, freeHeader_blocks s⟩
  · rename_i hfound
    have hno : s.recv.announces = false := by
      unfold Receive.announces
      rw [hfound]
      rfl
    rw [hno]
    exact ⟨(List.append_nil _).symm, rfl, rfl⟩

theorem processed_processHeader (hb : s.header = some block) : Processed s
    (processHeader { s.effect .tcpClose with recv := { s.recv with head := false } }) block := by
  obtain ⟨hfreed, hheader, hblocks⟩ := processHeader_block
    (s := { s.effect .tcpClose with recv := { s.recv with head := false } }) hb
  have hclose := (sameBlock_effect s (e := .tcpClose) rfl).freed
  refine ⟨?_, hheader, hblocks.ge, ?_, ?_⟩
  · rw [hfreed, announces_congr (r := s.recv) rfl rfl]
    exact congrArg₂ (· ++ ·) hclose rfl
  · rw [processHeader_recv]
  · rw [processHeader_recv]
    exact announces_congr rfl rfl

/-- The answer to a HEAD request is over. -/
theorem callback_head (fresh : Nat → Nat → UInt8) (h : Handler) (hh : s.recv.head = true)
    (hb : s.header = some block) :
    ∃ t, callback fresh h s none = .ok t ∧ Processed s t block := by
  have hneg : ¬ (s.effect .tcpClose).recv.head = false := by simp [WebBoot.effect, hh]
  have hp := processed_processHeader hb
  cases h with
  | handleKernel => exact ⟨_, if_neg hneg, hp.trans (sameBlock_tcpConnect _ _)⟩
  | handleInitrd => exact ⟨_, if_neg hneg, hp.trans (sameBlock_tcpConnect _ _)⟩
  | handleAppend =>
    have hline := fun size line => hp.trans (sameBlock_malloc _ size line)
    exact ⟨_, if_neg hneg, (hline _ _).trans (sameBlock_tcpConnect _ _)⟩

/-- The kernel or the initrd is over: the next request. -/
theorem callback_next (fresh : Nat → Nat → UInt8) (h : Handler) (hh : s.recv.head = false)
    (happend : h ≠ .handleAppend) (hb : s.header = some block) :
    ∃ t, callback fresh h s none = .ok t ∧ Renews s t block := by
  have hpos : (s.effect .tcpClose).recv.head = false := hh
  have hclose : SameBlock s (s.effect .tcpClose) := sameBlock_effect s rfl
  cases h with
  | handleKernel =>
    have hplace := hclose.trans (sameBlock_effect (s.effect .tcpClose)
      (e := .memPlaceKernel (read s.recv.buf 0 s.recv.fileLen)) rfl)
    have hnext := hplace.renews (renews_startRequest fresh hb)
    have hclear : Renews s (((s.effect .tcpClose).effect (.memPlaceKernel
        (read s.recv.buf 0 s.recv.fileLen))).startRequest fresh).clearTempBuf block :=
      ⟨hnext.freed, hnext.header, hnext.head⟩
    exact ⟨_, if_pos hpos, hclear.trans (sameBlock_tcpConnect _ _)⟩
  | handleInitrd =>
    have hsize : SameBlock s { s.effect .tcpClose with initrdSize := s.recv.fileLen } :=
      ⟨hclose.freed, hclose.header, hclose.blocks, hclose.head, hclose.announces⟩
    have hnext := hsize.renews (renews_startRequest fresh hb)
    exact ⟨_, if_pos hpos, hnext.trans (sameBlock_tcpConnect _ _)⟩
  | handleAppend => exact absurd rfl happend

/-- The append line is over: the system is booted. -/
theorem callback_append (fresh : Nat → Nat → UInt8) (hh : s.recv.head = false) :
    callback fresh .handleAppend s none = .error (.boot s.initrdSize s.appendLine) :=
  if_pos hh

theorem renews_webbootInit (fresh : Nat → Nat → UInt8) (hb : s.header = some block) :
    Renews s (webbootInit fresh s) block := by
  have hnext := renews_startRequest fresh hb
  have hconnect := sameBlock_effect (s.startRequest fresh) (e := .tcpConnect .handleKernel) rfl
  exact ⟨hconnect.freed.trans hnext.freed, hnext.header, hnext.head⟩

theorem bytes_header_same (contLen fraction : Int) (t : List UInt8) : ∀ {s : Receive},
    s.head = false → (t.foldl (Receive.byte contLen fraction) s).header = s.header ∧
      (t.foldl (Receive.byte contLen fraction) s).hLen = s.hLen := by
  induction t with
  | nil => exact fun _ => ⟨rfl, rfl⟩
  | cons x t ih =>
    intro s hh
    have hx := byte_stores contLen fraction s x
    obtain ⟨hheader, hlen⟩ := ih (hx.head.trans hh)
    have h1 := hx.header
    have h2 := hx.hLen
    rw [hh] at h1 h2
    exact ⟨hheader.trans h1, hlen.trans h2⟩

/-- A body does not change the header. -/
theorem data_announces {contLen fraction : Int} {s : Receive} (hh : s.head = false) (p : Chain) :
    (s.data contLen fraction p).announces = s.announces := by
  obtain ⟨hhead, hlen, -, hheader⟩ := clearWindow_frame s
  obtain ⟨h1, h2⟩ := bytes_header_same contLen fraction p.flatten
    (hhead.trans hh)
  rw [data_eq]
  exact announces_congr (h1.trans hheader) (h2.trans hlen)

/-- A segment. -/
theorem callback_recv (fresh : Nat → Nat → UInt8) (s : WebBoot) (h : Handler) (p : Chain) :
    ∃ t, callback fresh h s (some p) = .ok t ∧ SameBlock s t := by
  have hdata : ∀ (r : Receive) (t : WebBoot), r.head = s.recv.head →
      r.announces = s.recv.announces → t.effects = s.effects → t.header = s.header →
      t.blocks = s.blocks → t.recv.head = (r.data s.contLen s.fraction p).head →
      t.recv.announces = (r.data s.contLen s.fraction p).announces → SameBlock s t := by
    intro r t hhead hann heffects hheader hblocks hhead' hann'
    refine ⟨by rw [heffects], hheader, hblocks.ge, ?_, fun hh => ?_⟩
    · rw [hhead', data_head_same, hhead]
    · rw [hann', data_announces (hhead.trans hh), hann]
  cases h with
  | handleKernel => exact ⟨_, rfl, hdata s.recv _ rfl rfl rfl rfl rfl rfl rfl⟩
  | handleInitrd => exact ⟨_, rfl, hdata s.recv _ rfl rfl rfl rfl rfl rfl rfl⟩
  | handleAppend =>
    exact ⟨_, rfl, hdata s.appendRecv _ rfl (announces_congr rfl rfl) rfl rfl rfl rfl
      (announces_congr rfl rfl)⟩

end

/-! ## Runs -/

/-- Where `header` points. -/
structure HeaderInv (s : WebBoot) : Prop where
  lt : ∀ block ∈ freedBlocks s.effects, block < s.blocks
  header : ∃ block, s.header = some block ∧ block < s.blocks ∧
    (block ∈ freedBlocks s.effects ↔ s.Announced)

section
variable {s t : WebBoot} {block : Nat}

theorem SameBlock.announced_iff (h : SameBlock s t) : t.Announced ↔ s.Announced := by
  unfold WebBoot.Announced
  rw [h.head]
  refine and_congr_right fun hh => ?_
  rw [h.announces hh]

theorem HeaderInv.of_header (hi : HeaderInv s) (hb : s.header = some block) : block < s.blocks ∧
    (block ∈ freedBlocks s.effects ↔ s.Announced) := by
  obtain ⟨block', hb', h⟩ := hi.header
  cases hb.symm.trans hb'
  exact h

theorem HeaderInv.same (hi : HeaderInv s) (h : SameBlock s t) : HeaderInv t := by
  obtain ⟨block, hb, hlt, hiff⟩ := hi.header
  refine ⟨fun b hb => ?_, block, h.header.trans hb, hlt.trans_le h.blocks, ?_⟩
  · rw [h.freed] at hb
    exact (hi.lt b hb).trans_le h.blocks
  · rw [h.freed, h.announced_iff]
    exact hiff

/-- A block that is not in the list yet. -/
theorem nodup_concat_iff (freed : List Nat) :
    (freed ++ [block]).Nodup ↔ freed.Nodup ∧ block ∉ freed := by
  rw [List.nodup_append]
  simp only [List.nodup_cons, List.not_mem_nil, not_false_eq_true, List.nodup_nil, and_self,
    true_and, List.mem_singleton, forall_eq]
  refine and_congr_right fun _ => ⟨fun h hb => h block hb rfl, fun h a ha he => h (he ▸ ha)⟩

theorem HeaderInv.processed (hi : HeaderInv s) (hh : s.recv.head = true)
    (hb : s.header = some block) (hp : Processed s t block) :
    HeaderInv t ∧ ((freedBlocks t.effects).Nodup ↔ (freedBlocks s.effects).Nodup) := by
  obtain ⟨hlt, hiff⟩ := hi.of_header hb
  have hlive : block ∉ freedBlocks s.effects := fun hc => by
    cases hh.symm.trans (hiff.1 hc).1
  have hann : t.Announced ↔ s.recv.announces = true := by
    unfold WebBoot.Announced
    rw [hp.head, hp.announces]
    exact and_iff_right rfl
  refine ⟨⟨fun b hb' => ?_, block, hp.header.trans hb, hlt.trans_le hp.blocks, ?_⟩, ?_⟩
  · rw [hp.freed, List.mem_append] at hb'
    rcases hb' with hb' | hb'
    · exact (hi.lt b hb').trans_le hp.blocks
    · split at hb'
      · rw [List.mem_singleton.1 hb']
        exact hlt.trans_le hp.blocks
      · cases hb'
  · rw [hp.freed, hann, List.mem_append]
    split
    · rename_i hyes
      exact iff_of_true (.inr (List.mem_singleton.2 rfl)) hyes
    · rename_i hno
      exact iff_of_false (fun hc => hc.elim hlive fun hc => by cases hc) hno
  · rw [hp.freed]
    split
    · exact (nodup_concat_iff _).trans (and_iff_left hlive)
    · rw [List.append_nil]

theorem HeaderInv.renews (hi : HeaderInv s) (hb : s.header = some block) (hr : Renews s t block) :
    HeaderInv t ∧
      ((freedBlocks t.effects).Nodup ↔ (freedBlocks s.effects).Nodup ∧ ¬ s.Announced) := by
  obtain ⟨hlt, hiff⟩ := hi.of_header hb
  obtain ⟨next, hnext, hle, hlt'⟩ := hr.header
  have hnew : next ∉ freedBlocks t.effects := by
    rw [hr.freed, List.mem_append, not_or]
    refine ⟨fun hc => ?_, fun hc => ?_⟩
    · have hold := hi.lt next hc
      omega
    · rw [List.mem_singleton.1 hc] at hle
      omega
  refine ⟨⟨fun b hb' => ?_, next, hnext, hlt', ?_⟩, ?_⟩
  · rw [hr.freed, List.mem_append] at hb'
    rcases hb' with hb' | hb'
    · have hold := hi.lt b hb'
      omega
    · rw [List.mem_singleton.1 hb']
      omega
  · exact iff_of_false hnew fun hc => by cases hr.head.symm.trans hc.1
  · rw [hr.freed, nodup_concat_iff, hiff]

end

section
variable {n n' : WebRun} {e : WebCall}

/-- **Call step.** -/
theorem webCall_header (hi : HeaderInv n.boot) (hn : webCall n e = some n') :
    HeaderInv n'.boot ∧ ((freedBlocks n'.boot.effects).Nodup ↔
      (freedBlocks n.boot.effects).Nodup ∧ NotAnnounced n e) := by
  unfold webCall at hn
  split at hn
  · cases hn
  obtain ⟨block, hb, -⟩ := hi.header
  cases e with
  | recv h fresh p =>
    obtain ⟨t, ht, hsame⟩ := callback_recv fresh n.boot h p
    simp only [ht, Option.some.injEq] at hn
    cases hn
    refine ⟨hi.same hsame, ?_⟩
    show (freedBlocks t.effects).Nodup ↔ _
    rw [hsame.freed]
    exact (and_iff_left trivial).symm
  | close h fresh =>
    cases hh : n.boot.recv.head with
    | true =>
      obtain ⟨t, ht, hp⟩ := callback_head fresh h hh hb
      simp only [ht, Option.some.injEq] at hn
      cases hn
      obtain ⟨hinv, hiff⟩ := hi.processed hh hb hp
      refine ⟨hinv, hiff.trans (and_iff_left fun hc => ?_).symm⟩
      cases hh.symm.trans hc
    | false =>
      by_cases happend : h = .handleAppend
      · rw [happend] at hn ⊢
        simp only [callback_append fresh hh, Option.some.injEq] at hn
        cases hn
        exact ⟨hi, (and_iff_left fun _ hc => absurd rfl hc).symm⟩
      · obtain ⟨t, ht, hr⟩ := callback_next fresh h hh happend hb
        simp only [ht, Option.some.injEq] at hn
        cases hn
        obtain ⟨hinv, hiff⟩ := hi.renews hb hr
        refine ⟨hinv, hiff.trans (and_congr_right fun _ => ?_)⟩
        exact ⟨fun hno _ _ => hno, fun hno => hno hh happend⟩
  | webbootInit fresh =>
    cases hn
    exact hi.renews hb (renews_webbootInit fresh hb)
  | connErr =>
    cases hn
    exact ⟨hi, (and_iff_left trivial).symm⟩

/-- The loop writes to `header` for the answer to a HEAD request only. -/
theorem head_of_header_mem {append : Bool} {contLen fraction : Int} {i : Nat} (t : List UInt8) :
    ∀ {s : Receive}, .header i ∈ dataWrites append contLen fraction s t → s.head = true := by
  induction t with
  | nil => exact fun hi => by cases hi
  | cons x t ih =>
    intro s hi
    rw [dataWrites, List.mem_append] at hi
    rcases hi with hi | hi
    · unfold byteWrites at hi
      cases hh : s.head with
      | true => rfl
      | false => simp [hh] at hi
    · exact (byte_stores contLen fraction s x).head.symm.trans (ih hi)

theorem written_live (hi : HeaderInv n.boot) (e : WebCall) : WritesLive n e := by
  cases e with
  | recv h fresh p =>
    intro i hmem
    have hh := head_of_header_mem p.flatten hmem
    rw [(clearWindow_frame _).1, loopRecv_head] at hh
    obtain ⟨block, hb, -, hiff⟩ := hi.header
    exact ⟨block, hb, fun hc => by cases hh.symm.trans (hiff.1 hc).1⟩
  | close h fresh => trivial
  | webbootInit fresh => trivial
  | connErr => trivial

theorem webbootInit_header (fresh : Nat → Nat → UInt8) {s : WebBoot} (hb : s.header = none)
    (he : s.effects = []) : HeaderInv (webbootInit fresh s) ∧
      freedBlocks (webbootInit fresh s).effects = [] := by
  obtain ⟨hfreed, hheader, hblocks, hhead⟩ := startRequest_block fresh s
  have hnone : freedBlocks (webbootInit fresh s).effects = [] := by
    refine (freedBlocks_effect _ _).trans ((List.append_nil _).trans (hfreed.trans ?_))
    rw [hb, he]
    rfl
  refine ⟨⟨?_, s.blocks, hheader, hblocks.ge, ?_⟩, hnone⟩
  · rw [hnone]
    exact fun block hmem => by cases hmem
  · rw [hnone]
    exact iff_of_false (fun hc => by cases hc) fun hc => by cases hhead.symm.trans hc.1

end

/-! ## The answers -/

/-- What the server has sent is in `header`, with a NUL behind it. -/
structure Collected (s : Receive) (answer : List UInt8) : Prop where
  text : read s.header 0 s.hLen = answer
  nul : answer ≠ [] → s.header s.hLen = 0

section
variable {contLen fraction : Int} {s : Receive} {answer : List UInt8}

theorem Collected.byte (h : Collected s answer) (hh : s.head = true) (x : UInt8) :
    Collected (s.byte contLen fraction x) (answer ++ [x]) := by
  have hx := byte_stores contLen fraction s x
  have h1 := hx.header
  have h2 := hx.hLen
  rw [if_pos hh] at h1 h2
  refine ⟨?_, fun _ => ?_⟩
  · rw [h1, h2, read_add, read_update_of_outside (by omega), read_update_of_outside (by omega),
      h.text, read_update_of_outside (by omega)]
    congr 1
    show Function.update s.header s.hLen x (0 + s.hLen + 0) :: [] = [x]
    rw [Nat.zero_add, Nat.add_zero, Function.update_self]
  · rw [h1, h2, Function.update_self]

theorem Collected.data (contLen fraction : Int) (h : Collected s answer) (hh : s.head = true)
    (p : Chain) :
    Collected (s.data contLen fraction p) (answer ++ p.flatten) := by
  have hbytes : ∀ (t : List UInt8) {s : Receive} {answer : List UInt8}, s.head = true →
      Collected s answer → Collected (t.foldl (Receive.byte contLen fraction) s) (answer ++ t) := by
    intro t
    induction t with
    | nil =>
      intro s answer _ h
      rw [List.append_nil]
      exact h
    | cons x t ih =>
      intro s answer hh h
      rw [List.foldl_cons, ← List.singleton_append, ← List.append_assoc]
      exact ih ((byte_stores contLen fraction s x).head.trans hh) (h.byte hh x)
  obtain ⟨hhead, hlen, -, hheader⟩ := clearWindow_frame s
  rw [data_eq]
  refine hbytes p.flatten (hhead.trans hh) ⟨?_, ?_⟩
  · rw [hlen, hheader]
    exact h.text
  · rw [hlen, hheader]
    exact h.nul

/-- The Content-Length that `processHeader` finds is one that was sent. -/
theorem Collected.announces_eq (h : Collected s answer) (hne : answer ≠ []) :
    s.announces = (announcedLength answer).isSome := by
  have hcstr : cstr (read s.header 0 (s.hLen + headerBytes)) = cstr answer := by
    have hnul : read s.header (0 + s.hLen) headerBytes =
        0 :: read s.header (0 + s.hLen + 1) (headerBytes - 1) := by
      rw [show headerBytes = headerBytes - 1 + 1 from rfl, read_succ, Nat.zero_add, h.nul hne]
      rfl
    rw [read_add, h.text, hnul]
    unfold cstr
    rw [List.takeWhile_append]
    split
    · rename_i hall
      have hself := (List.takeWhile_prefix _).eq_of_length hall
      rw [hself]
      exact List.append_nil _
    · rfl
  unfold Receive.announces announcedLength
  rw [hcstr, Option.isSome_map]
  rfl

end

section
variable {n n' : Session} {e : NetEvent}

theorem collected_loopRecv {s : WebBoot} {h : Handler} {answer : List UInt8} :
    Collected (s.loopRecv h) answer ↔ Collected s.recv answer := by
  cases h with
  | handleKernel => exact Iff.rfl
  | handleInitrd => exact Iff.rfl
  | handleAppend => exact ⟨fun h => ⟨h.text, h.nul⟩, fun h => ⟨h.text, h.nul⟩⟩

/-- The answer to a HEAD request is in the header as it was sent. -/
def Session.Sent (n : Session) : Prop :=
  n.boot.recv.head = true → Collected n.boot.recv n.answer.flatten.flatten

theorem sent_next (hi : n.Inv) (hs : n.Sent) (hn : webbootNext n e = some n') : n'.Sent := by
  cases (webbootNext_happens hn).2 with
  | connected => exact hs
  | recv fresh p =>
    have hr := receive_received n fresh p
    intro hh
    rw [hr.head] at hh
    have hold := (collected_loopRecv (h := n.handler)).2 (hs hh)
    have hnew := hold.data n.boot.contLen n.boot.fraction ((loopRecv_head _ _).trans hh) p
    rw [← hr.recv, collected_loopRecv] at hnew
    rw [hr.answer]
    simpa using hnew
  | close fresh =>
    rcases hi.close_cases fresh with ⟨h1, -, h3⟩ | ⟨hnil, h0⟩
    · intro hh
      rw [h1] at hh ⊢
      rw [h3]
      exact hs hh
    · intro hh
      rw [hnil]
      refine ⟨?_, fun hc => absurd rfl hc⟩
      rw [h0 hh]
      rfl
  | error => exact hs

/-- **What was announced.**  The Content-Length that is found at the end of an
answer is one that the server has sent. -/
theorem announces_sent (hn : webboot.Reachable n) (hh : n.boot.recv.head = true)
    (hne : n.answer.flatten.flatten ≠ []) :
    n.boot.recv.announces = (announcedLength n.answer.flatten.flatten).isSome := by
  have hinv : n.Inv ∧ n.Sent := by
    refine Machine.invariant (M := webboot) (I := fun n => n.Inv ∧ n.Sent) ?_ ?_ n hn
    · rintro n ⟨fresh, s, rfl⟩
      refine ⟨inv_webbootStart fresh s, fun _ => ⟨?_, fun hc => absurd rfl hc⟩⟩
      have h0 : (webbootStart fresh s).boot.recv.hLen = 0 := webbootInit_hLen fresh s
      rw [h0]
      rfl
    · exact fun n e n' hi hn => ⟨(webbootNext_advances hi.1 hn).1, sent_next hi.1 hi.2 hn⟩
  exact (hinv.2 hh).announces_eq hne

/-- A run with one connection at a time is made of these calls. -/
theorem calls_of_run : ∀ {es : List NetEvent} {n n' : Session}, webboot.run n es = some n' →
    ∃ cs, webbootCalls.run ⟨n.boot, n.halt⟩ cs = some ⟨n'.boot, n'.halt⟩ := by
  intro es
  induction es with
  | nil =>
    intro n n' hrun
    cases hrun
    exact ⟨[], rfl⟩
  | cons e es ih =>
    intro n n' hrun
    rw [Machine.run_cons] at hrun
    obtain ⟨u, hu, hrun⟩ := Option.bind_eq_some_iff.1 hrun
    obtain ⟨cs, hcs⟩ := ih hrun
    obtain ⟨hhalt, happens⟩ := webbootNext_happens hu
    have hcall : ∀ c, webCall ⟨n.boot, n.halt⟩ c = some ⟨u.boot, u.halt⟩ →
        ∃ cs, webbootCalls.run ⟨n.boot, n.halt⟩ cs = some ⟨n'.boot, n'.halt⟩ := by
      intro c hc
      refine ⟨c :: cs, ?_⟩
      rw [Machine.run_cons, show webbootCalls.next _ c = _ from hc]
      exact hcs
    cases happens with
    | connected => exact ⟨cs, hcs⟩
    | recv fresh p =>
      refine hcall (.recv n.handler fresh p) ?_
      unfold webCall Session.receive
      simp only [hhalt, Option.isSome_none, Bool.false_eq_true, if_false]
      cases callback fresh n.handler n.boot (some p) <;> rfl
    | close fresh =>
      refine hcall (.close n.handler fresh) ?_
      unfold webCall Session.close
      simp only [hhalt, Option.isSome_none, Bool.false_eq_true, if_false]
      cases callback fresh n.handler n.boot none <;> rfl
    | error =>
      refine hcall .connErr ?_
      unfold webCall
      simp only [hhalt, Option.isSome_none, Bool.false_eq_true, if_false]

end

/-! ## Top theorem -/

/-- **Written while live.**  In every run `header` is never written after it was freed. -/
theorem live_along {n₀ : WebRun} (h₀ : webbootCalls.init n₀) (es : List WebCall) :
    webbootCalls.Along WritesLive n₀ es := by
  obtain ⟨fresh, s, hb, he, rfl⟩ := h₀
  exact Machine.along_of_invariant (M := webbootCalls) (I := fun n => HeaderInv n.boot)
    (fun n e n' hi hn => (webCall_header hi hn).1) (fun n e hi => written_live hi e)
    (webbootInit_header fresh hb he).1

/-- **Freed once.**  In every run, each block that was assigned to `header` is
passed to `free` at most once, and `header` is not written after that, exactly
when no next request is started, by the end of a file or by `webboot_init`, while
the last answer to a HEAD request had a Content-Length. -/
theorem freed_once_iff {n₀ n : WebRun} {es : List WebCall} (h₀ : webbootCalls.init n₀)
    (hrun : webbootCalls.run n₀ es = some n) :
    ((∀ block, (freedBlocks n.boot.effects).count block ≤ 1) ∧
      webbootCalls.Along WritesLive n₀ es) ↔ webbootCalls.Along NotAnnounced n₀ es := by
  obtain ⟨fresh, s, hb, he, rfl⟩ := h₀
  obtain ⟨hinv, hnone⟩ := webbootInit_header fresh hb he
  have hlive : webbootCalls.Along WritesLive ⟨webbootInit fresh s, none⟩ es :=
    live_along ⟨fresh, s, hb, he, rfl⟩ es
  have hnodup := Machine.run_iff_along (M := webbootCalls) (I := fun n => HeaderInv n.boot)
    (P := fun n => (freedBlocks n.boot.effects).Nodup)
    (fun n e n' hi hn => (webCall_header hi hn).1) (fun n e n' hi hn => (webCall_header hi hn).2)
    hinv hrun
  rw [and_iff_left hlive, ← List.nodup_iff_count_le_one, hnodup]
  refine and_iff_right ?_
  show (freedBlocks (webbootInit fresh s).effects).Nodup
  rw [hnone]
  exact List.nodup_nil

/-- The first `webboot_init`. -/
def firstCall : WebRun := ⟨bareWebBoot, none⟩

theorem firstCall_init : webbootCalls.init firstCall := ⟨_, _, rfl, rfl, rfl⟩

/-- The calls for a kernel of one byte; `answer` is what the HEAD request gets. -/
def kernelCalls (answer : List Char) : List WebCall :=
  [.recv .handleKernel (fun _ _ => 0) [chars answer], .close .handleKernel fun _ _ => 0,
    .recv .handleKernel (fun _ _ => 0) [chars "\r\n\r\nK".toList],
    .close .handleKernel fun _ _ => 0]

/-- No length is announced. -/
theorem freed_once_iff_bare : ∃ n : WebRun, freedBlocks n.boot.effects = [0] ∧
    webbootCalls.Along NotAnnounced firstCall (kernelCalls "\r\n\r\n".toList) := by
  have hrun : (webbootCalls.run firstCall (kernelCalls "\r\n\r\n".toList)).map
      (fun n => freedBlocks n.boot.effects) = some [0] := by
    decide +kernel
  obtain ⟨n, hn, hfreed⟩ := Option.map_eq_some_iff.1 hrun
  refine ⟨n, hfreed, (freed_once_iff firstCall_init hn).1 ⟨fun block => ?_, ?_⟩⟩
  · rw [hfreed]
    exact List.nodup_iff_count_le_one.1 (List.nodup_singleton 0) block
  · exact live_along firstCall_init _

/-- **Freed twice.**  The length of the kernel is announced: the end of the answer
frees the header, and the end of the kernel frees it again. -/
theorem freed_twice : ∃ n : WebRun, webbootCalls.Reachable n ∧
    (freedBlocks n.boot.effects).count 0 = 2 := by
  have hrun : (webbootCalls.run firstCall (kernelCalls "Content-Length: 1\r\n\r\n".toList)).map
      (fun n => freedBlocks n.boot.effects) = some [0, 0] := by
    decide +kernel
  obtain ⟨n, hn, hfreed⟩ := Option.map_eq_some_iff.1 hrun
  refine ⟨n, (Machine.Reachable.of_init firstCall_init).run hn, ?_⟩
  rw [hfreed]
  rfl

end Gentoox.Net
