import Mathlib.Data.List.Infix
import GentooxLoader.Base.Machine
import GentooxLoader.Net.NetBoot
import GentooxLoader.Net.NetFlash

/-!
# One connection of the http servers

The machine `connection` takes the callbacks of one connection, in any order,
with whatever the server's variables hold at the time.  It keeps what the
callbacks touch and which bytes they took for a header and for a body.

    lineWrites_iff        all writes to `lineBuf` are inside ↔ no line of the
                          header that was ended has more than 127 characters
    bodyStores_iff        N bytes at most are stored, to the first N places, and
                          `handle_post` is called once at most ↔ no more than N
                          bytes follow the header
    line_of_128           a line of 128 characters ends at `lineBuf[-128]`
    byte_behind_the_body  Content-Length 1 and two bytes
-/

namespace Gentoox.Net

open Cells Lib

/-! ## Algorithm -/

/-- A write of `http_recv`, or its call of `handle_post`. -/
inductive Touch where
  | lineBuf (i : Int)
  | store (a : Nat)
  | handlePost
  deriving DecidableEq

/-- What `HttpServer.recvByte` touches. -/
def touches (hs : HttpState) (c : UInt8) : List Touch :=
  match hs.postdata with
  | none =>
    if c = 0x0d then []
    else if c = 0x0a then [.lineBuf hs.lineBufpos]
    else if 0 ≤ hs.lineBufpos ∧ hs.lineBufpos < 256 - 2 then [.lineBuf hs.lineBufpos]
    else []
  | some postdata =>
    .store (postdata + hs.postpos) ::
      if ((hs.postpos + 1 : Nat) : Int) = hs.postlen then [.handlePost] else []

/-- A connection and what became of the bytes it sent. -/
structure Life where
  hs : HttpState
  opened : Bool
  touched : List Touch
  header : List UInt8
  body : List UInt8

inductive Callback (σ : Type) where
  | recv (s : σ) (l : Locals) (malloc : Int → Option Nat) (payload : List UInt8)
  | sent (l : Locals)
  | poll (l : Locals)
  | close

section
variable {σ : Type} (v : HttpServer σ) (l : Locals)

def Life.byte (s : σ) (n : Life) (c : UInt8) : Life where
  hs := (v.recvByte l s n.hs c).2.1
  opened := (v.recvByte l s n.hs c).2.2
  touched := n.touched ++ touches n.hs c
  header := if n.hs.postdata = none then n.header ++ [c] else n.header
  body := if n.hs.postdata = none then n.body else n.body ++ [c]

/-- `http_recv` with data. -/
def Life.bytes : σ → Life → List UInt8 → Life
  | _, n, [] => n
  | s, n, c :: cs =>
    if (n.byte v l s c).opened then Life.bytes (v.recvByte l s n.hs c).1 (n.byte v l s c) cs
    else n.byte v l s c

end

def Life.httpSent (n : Life) (l : Locals) : Life :=
  let hs := { n.hs with retries := 0 }
  if hs.left > 0 then { n with hs := sendData l hs } else { n with hs, opened := false }

def Life.httpPoll (n : Life) (l : Locals) : Life :=
  let hs := { n.hs with retries := n.hs.retries + 1 }
  if hs.retries = 4 then { n with hs, opened := false } else { n with hs := sendData l hs }

def connectionNext {σ : Type} (v : Locals → (Int → Option Nat) → HttpServer σ) (n : Life)
    (e : Callback σ) : Option Life :=
  if n.opened then
    match e with
    | .recv s l malloc payload => some (n.bytes (v l malloc) l s payload)
    | .sent l => if n.hs.polled then some (n.httpSent l) else none
    | .poll l => if n.hs.polled then some (n.httpPoll l) else none
    | .close => some { n with opened := false }
  else none

def connection {σ : Type} (v : Locals → (Int → Option Nat) → HttpServer σ) :
    Machine Life (Callback σ) where
  init n := ∃ lineBuf, n = ⟨httpAccept lineBuf, true, [], [], []⟩
  next := connectionNext v

def netbootConnection (files : Nat → Int) : Machine Life (Callback Server) :=
  connection fun l _ => netbootServer files l

def netflashConnection (files : Nat → Int) : Machine Life (Callback (Nat → UInt8)) :=
  connection fun l malloc => NetFlash.netflashServer files l malloc

/-! ## What a byte touches -/

section
variable {σ : Type} {v : HttpServer σ} {l : Locals} {s : σ} {n : Life}

theorem bytes_cons_life (v : HttpServer σ) (l : Locals) (s : σ) (n : Life) (c : UInt8)
    (cs : List UInt8) : n.bytes v l s (c :: cs) =
      if (n.byte v l s c).opened then
        (n.byte v l s c).bytes v l (v.recvByte l s n.hs c).1 cs
      else n.byte v l s c := rfl

/-- The life goes on as `http_recv` has it. -/
theorem bytes_httpRecv (s : σ) (n : Life) (hn : n.opened = true) (cs : List UInt8) :
    (n.bytes v l s cs).hs = (v.httpRecv l s n.hs cs).2.1 ∧
      (n.bytes v l s cs).opened = (v.httpRecv l s n.hs cs).2.2 := by
  induction cs generalizing s n with
  | nil => exact ⟨rfl, hn⟩
  | cons c cs ih =>
    rw [bytes_cons_life, HttpServer.httpRecv_cons]
    by_cases h : (v.recvByte l s n.hs c).2.2 = true
    · have hb : (n.byte v l s c).opened = true := h
      rw [if_pos hb, if_pos h]
      exact ih _ _ hb
    · have hb : ¬ (n.byte v l s c).opened = true := h
      rw [if_neg hb, if_neg h]
      exact ⟨rfl, rfl⟩

/-- What a touch does to the server's variables and the memory. -/
def Touch.act (v : HttpServer σ) (hs : HttpState) (c : UInt8) (s : σ) : Touch → σ
  | .lineBuf _ => s
  | .store a => v.store s a c
  | .handlePost =>
    (v.handlePost s { hs with postpos := hs.postpos + 1 } (hs.postdata.getD 0)).1

/-- Nothing but the touches gets at the memory. -/
theorem recvByte_touches (hs : HttpState) (c : UInt8) :
    (v.recvByte l s hs c).1 = (touches hs c).foldl (Touch.act v hs c) s := by
  unfold HttpServer.recvByte touches
  cases hdata : hs.postdata with
  | none =>
    simp only
    split_ifs <;> rfl
  | some postdata =>
    unfold HttpServer.bodyByte
    simp only
    split_ifs
    · simp only [List.foldl_cons, List.foldl_nil, Touch.act, hdata, Option.getD_some]
    · rfl

/-- What the two servers' `handle_line` and `handle_post` have in common. -/
structure HttpServer.Regular (v : HttpServer σ) : Prop where
  keeps_line : ∀ s hs hs', v.handleLine s hs = some hs' → hs'.lineBuf = hs.lineBuf
  starts : ∀ s hs hs', v.handleLine s hs = some hs' → hs.postdata = none →
    hs'.postdata = none ∨ hs'.postpos = 0
  keeps_post : ∀ s hs a, (v.handlePost s hs a).2.postdata = hs.postdata ∧
    (v.handlePost s hs a).2.postpos = hs.postpos ∧
    (v.handlePost s hs a).2.postlen = hs.postlen ∧ (v.handlePost s hs a).2.lineBuf = hs.lineBuf

theorem sendData_lineBuf (l : Locals) (hs : HttpState) : (sendData l hs).lineBuf = hs.lineBuf := by
  unfold sendData
  split <;> rfl

theorem pushLine_lineBuf (hs : HttpState) (c : UInt8) : (hs.pushLine c).lineBuf =
    if 0 ≤ hs.lineBufpos ∧ hs.lineBufpos < 256 - 2 then
      Function.update hs.lineBuf hs.lineBufpos c
    else hs.lineBuf := by
  unfold HttpState.pushLine
  split_ifs <;> rfl

/-- And nothing but the touches gets at `lineBuf`. -/
theorem recvByte_lineBuf (hv : v.Regular) {hs : HttpState} {c : UInt8} {i : Int}
    (hi : .lineBuf i ∉ touches hs c) : (v.recvByte l s hs c).2.1.lineBuf i = hs.lineBuf i := by
  unfold HttpServer.recvByte
  cases hdata : hs.postdata with
  | none =>
    rw [touches, hdata] at hi
    simp only at hi ⊢
    unfold headerByte
    by_cases hcr : c = 0x0d
    · rw [if_pos hcr]
    rw [if_neg hcr] at hi ⊢
    by_cases hlf : c = 0x0a
    · rw [if_pos hlf] at hi ⊢
      simp only [List.mem_singleton, Touch.lineBuf.injEq] at hi
      simp only
      split
      · exact Function.update_of_ne hi ..
      · rename_i hs' hl
        rw [hv.keeps_line _ _ _ hl]
        exact Function.update_of_ne hi ..
    · rw [if_neg hlf] at hi ⊢
      simp only [pushLine_lineBuf]
      split_ifs at hi ⊢
      · simp only [List.mem_singleton, Touch.lineBuf.injEq] at hi
        exact Function.update_of_ne hi ..
      · rfl
  | some postdata =>
    unfold HttpServer.bodyByte
    simp only
    split_ifs
    · have hkeep := (hv.keeps_post (v.store s (postdata + hs.postpos) c)
        { hs with postpos := hs.postpos + 1 } postdata).2.2.2
      exact congrFun ((sendData_lineBuf l _).trans hkeep) i
    · rfl

/-- A byte of the body goes to the next place, and the body stays where it is. -/
theorem bodyByte_post (hv : v.Regular) (l : Locals) (s : σ) (hs : HttpState) (postdata : Nat)
    (c : UInt8) : (v.bodyByte l s hs postdata c).2.postdata = hs.postdata ∧
      (v.bodyByte l s hs postdata c).2.postpos = hs.postpos + 1 ∧
      (v.bodyByte l s hs postdata c).2.postlen = hs.postlen := by
  unfold HttpServer.bodyByte
  simp only
  split_ifs
  · obtain ⟨h1, h2, h3, -⟩ := hv.keeps_post (v.store s (postdata + hs.postpos) c)
      { hs with postpos := hs.postpos + 1 } postdata
    obtain ⟨-, e1, e2, e3⟩ := respond_same l (v.handlePost (v.store s (postdata + hs.postpos) c)
      { hs with postpos := hs.postpos + 1 } postdata).2
    exact ⟨e1.trans h1, e2.trans h2, e3.trans h3⟩
  · exact ⟨rfl, rfl, rfl⟩

end

section
variable {files : Nat → Int} {l : Locals} {hs hs' : HttpState}

theorem respond_lineBuf (l : Locals) (hs : HttpState) : (hs.respond l).lineBuf = hs.lineBuf :=
  sendData_lineBuf l hs

theorem headerLine_lineBuf (l : Locals) (buffer : Option Nat) (hs : HttpState) :
    (hs.headerLine l buffer).lineBuf = hs.lineBuf := by
  unfold HttpState.headerLine HttpState.endOfHeader
  simp only
  split_ifs <;> first | rfl | exact respond_lineBuf l hs

/-- The empty line sets up a body from its first byte on. -/
theorem headerLine_starts (l : Locals) (buffer : Option Nat) (hdata : hs.postdata = none) :
    (hs.headerLine l buffer).postdata = none ∨ (hs.headerLine l buffer).postpos = 0 := by
  unfold HttpState.headerLine HttpState.endOfHeader
  simp only
  split_ifs <;> first
    | exact .inr rfl
    | exact .inl hdata
    | exact .inl ((respond_same l hs).postdata.trans hdata)

theorem netboot_regular (files : Nat → Int) (l : Locals) : (netbootServer files l).Regular := by
  refine ⟨?_, ?_, ?_⟩
  · intro s hs hs' hl
    simp only [netbootServer, Net.handleLine, requestLine] at hl
    split_ifs at hl <;> cases hl <;> first | rfl | exact headerLine_lineBuf l _ hs
  · intro s hs hs' hl hdata
    simp only [netbootServer, Net.handleLine] at hl
    split_ifs at hl
    · exact .inl ((requestLine_same hl).postdata.trans hdata)
    · cases hl
      exact headerLine_starts l _ hdata
  · intro s hs a
    obtain ⟨h1, h2, h3⟩ := handlePost_frame l s hs a
    refine ⟨h1, h2, h3, ?_⟩
    simp only [netbootServer, handlePost]
    split <;> rfl

theorem netflash_regular (files : Nat → Int) (l : Locals) (malloc : Int → Option Nat) :
    (NetFlash.netflashServer files l malloc).Regular := by
  refine ⟨?_, ?_, ?_⟩
  · intro s hs hs' hl
    simp only [NetFlash.netflashServer, NetFlash.handleLine] at hl
    split_ifs at hl <;> cases hl <;> first | rfl | exact headerLine_lineBuf l _ hs
  · intro s hs hs' hl hdata
    simp only [NetFlash.netflashServer, NetFlash.handleLine] at hl
    split_ifs at hl <;> obtain rfl := Option.some.inj hl <;>
      first | exact .inl hdata | exact headerLine_starts l _ hdata
  · intro ram hs a
    simp only [NetFlash.netflashServer, NetFlash.handlePost]
    split
    · exact ⟨rfl, rfl, rfl, rfl⟩
    · split_ifs <;> exact ⟨rfl, rfl, rfl, rfl⟩

end

/-! ## Lines -/

/-- The characters since the last line feed; carriage returns do not count. -/
def lineLength (header : List UInt8) : Nat :=
  header.foldl (fun k c => if c = 0x0d then k else if c = 0x0a then 0 else k + 1) 0

/-- No line that was ended is longer than 127 characters. -/
def ShortLines (header : List UInt8) : Prop :=
  ∀ line, line ++ [0x0a] <+: header → lineLength line ≤ 127

/-- A `char` that is counted up to `k`, and stops below 0. -/
def linePos (k : Nat) : Int := if k ≤ 127 then k else -128

/-- All writes to `lineBuf` are to one of its 256 places. -/
def Inside (touched : List Touch) : Prop := ∀ i, .lineBuf i ∈ touched → 0 ≤ i ∧ i < 256

/-- The writes to `lineBuf` are inside, and the position follows the line. -/
structure Life.Lines (n : Life) : Prop where
  inside : Inside n.touched ↔ ShortLines n.header
  pos : n.opened = true → n.hs.postdata = none → n.hs.lineBufpos = linePos (lineLength n.header)

/-- The lines that were ended are among the prefixes. -/
instance (header : List UInt8) : Decidable (ShortLines header) :=
  decidable_of_iff (∀ line ∈ header.inits, line ++ [0x0a] <+: header → lineLength line ≤ 127)
    ⟨fun h line hl => h line ((List.mem_inits _ _).2 ((List.prefix_append _ _).trans hl)) hl,
      fun h line _ => h line⟩

theorem lineLength_snoc (header : List UInt8) (c : UInt8) : lineLength (header ++ [c]) =
    if c = 0x0d then lineLength header else if c = 0x0a then 0 else lineLength header + 1 := by
  simp [lineLength, List.foldl_append]

theorem shortLines_snoc {header : List UInt8} {c : UInt8} :
    ShortLines (header ++ [c]) ↔ ShortLines header ∧ (c = 0x0a → lineLength header ≤ 127) := by
  unfold ShortLines
  simp only [List.prefix_concat_iff]
  constructor
  · intro h
    refine ⟨fun line hl => h line (.inr hl), ?_⟩
    rintro rfl
    exact h header (.inl rfl)
  · rintro ⟨h1, h2⟩ line (hl | hl)
    · obtain ⟨rfl, hc⟩ := List.append_inj' hl rfl
      exact h2 (List.singleton_inj.1 hc).symm
    · exact h1 line hl

/-- A character is stored inside, up to the 128th one. -/
theorem pushLine_pos {hs : HttpState} {k : Nat} (hk : hs.lineBufpos = linePos k) (c : UInt8) :
    (hs.pushLine c).lineBufpos = linePos (k + 1) := by
  unfold linePos at hk ⊢
  unfold HttpState.pushLine
  by_cases hin : 0 ≤ hs.lineBufpos ∧ hs.lineBufpos < 256 - 2
  · rw [if_pos hin]
    simp only
    split_ifs at hk ⊢ <;> omega
  · rw [if_neg hin]
    split_ifs at hk ⊢ <;> omega

section
variable {σ : Type} {v : HttpServer σ} {l : Locals} {s : σ} {n : Life}

theorem inside_append {ts ts' : List Touch} : Inside (ts ++ ts') ↔ Inside ts ∧ Inside ts' := by
  constructor
  · intro h
    exact ⟨fun i hi => h i (List.mem_append_left _ hi), fun i hi => h i (List.mem_append_right _ hi)⟩
  · rintro ⟨h, h'⟩ i hi
    rcases List.mem_append.1 hi with hi | hi
    · exact h i hi
    · exact h' i hi

/-- A byte of the header is written inside unless it ends a line that is too long. -/
theorem touches_inside {hs : HttpState} {k : Nat} (hdata : hs.postdata = none)
    (hk : hs.lineBufpos = linePos k) (c : UInt8) :
    Inside (touches hs c) ↔ (c = 0x0a → k ≤ 127) := by
  unfold linePos at hk
  unfold touches Inside
  simp only [hdata]
  by_cases hcr : c = 0x0d
  · subst hcr
    simp
  by_cases hlf : c = 0x0a
  · subst hlf
    simp only [if_neg hcr, if_true, List.mem_singleton, Touch.lineBuf.injEq, forall_eq,
      forall_const]
    split_ifs at hk <;> omega
  · simp only [if_neg hcr, if_neg hlf]
    refine ⟨fun _ hc => absurd hc hlf, fun _ i hi => ?_⟩
    split_ifs at hi
    · simp only [List.mem_singleton, Touch.lineBuf.injEq] at hi
      omega
    · cases hi

theorem touches_body {hs : HttpState} {postdata : Nat} (hdata : hs.postdata = some postdata)
    (c : UInt8) : Inside (touches hs c) := by
  intro i
  rw [touches, hdata]
  simp only
  split_ifs <;> simp

theorem headerByte_pos {handle : HttpState → Option HttpState} {hs : HttpState}
    {header : List UInt8} (hk : hs.lineBufpos = linePos (lineLength header)) (c : UInt8)
    (hopen : (headerByte handle hs c).2 = true) :
    (headerByte handle hs c).1.lineBufpos = linePos (lineLength (header ++ [c])) := by
  rw [lineLength_snoc]
  unfold headerByte at hopen ⊢
  split_ifs at hopen ⊢
  · exact hk
  · simp only at hopen ⊢
    split at hopen
    · cases hopen
    · rfl
  · exact pushLine_pos hk c

/-- **Byte step.** -/
theorem Life.Lines.byte (hv : v.Regular) (h : n.Lines) (hopen : n.opened = true) (s : σ)
    (c : UInt8) : (n.byte v l s c).Lines := by
  unfold Life.byte HttpServer.recvByte
  cases hdata : n.hs.postdata with
  | some postdata =>
    refine ⟨?_, fun _ hc => ?_⟩
    · simp only [inside_append, reduceCtorEq, if_false, h.inside]
      exact and_iff_left (touches_body hdata c)
    · rw [(bodyByte_post hv l s n.hs postdata c).1, hdata] at hc
      cases hc
  | none =>
    have hpos := h.pos hopen hdata
    refine ⟨?_, fun hopen' _ => headerByte_pos hpos c hopen'⟩
    simp only [inside_append, if_true, h.inside, shortLines_snoc]
    exact and_congr_right fun _ => touches_inside hdata hpos c

end

/-! ## Bodies -/

/-- The places that are stored to. -/
def stores (touched : List Touch) : List Nat :=
  touched.filterMap fun
    | .store a => some a
    | _ => none

/-- The bytes of the body are at the places from `postdata` on, and it has been
looked through if it is complete. -/
structure Life.Body (n : Life) : Prop where
  none_yet : n.hs.postdata = none → n.body = [] ∧ stores n.touched = [] ∧
    n.touched.count .handlePost = 0
  some_sent : ∀ postdata, n.hs.postdata = some postdata → n.hs.postpos = n.body.length ∧
    stores n.touched = List.range' postdata n.body.length ∧
    n.touched.count .handlePost = if 0 < n.hs.postlen ∧ n.hs.postlen ≤ n.body.length then 1 else 0

section
variable {σ : Type} {v : HttpServer σ} {l : Locals} {s : σ} {n : Life}

theorem stores_append (ts ts' : List Touch) : stores (ts ++ ts') = stores ts ++ stores ts' :=
  List.filterMap_append

theorem touches_some {hs : HttpState} {postdata : Nat} (hdata : hs.postdata = some postdata)
    (c : UInt8) : stores (touches hs c) = [postdata + hs.postpos] ∧
      (touches hs c).count .handlePost =
        if ((hs.postpos + 1 : Nat) : Int) = hs.postlen then 1 else 0 := by
  unfold touches
  simp only [hdata]
  split_ifs <;> exact ⟨rfl, rfl⟩

theorem touches_header {hs : HttpState} (hdata : hs.postdata = none) (c : UInt8) :
    stores (touches hs c) = [] ∧ (touches hs c).count .handlePost = 0 := by
  unfold touches
  simp only [hdata]
  split_ifs <;> exact ⟨rfl, rfl⟩

theorem headerByte_starts (hv : v.Regular) {hs : HttpState} (hdata : hs.postdata = none) (s : σ)
    (c : UInt8) : (headerByte (v.handleLine s) hs c).1.postdata = none ∨
      (headerByte (v.handleLine s) hs c).1.postpos = 0 := by
  unfold headerByte
  split_ifs
  · exact .inl hdata
  · simp only
    split
    · exact .inl hdata
    · rename_i hs' hl
      have hstarts := hv.starts _ _ hs' hl hdata
      exact hstarts
  · exact .inl ((pushLine_same hs c).postdata.trans hdata)

/-- **Byte step.** -/
theorem Life.Body.byte (hv : v.Regular) (h : n.Body) (s : σ) (c : UInt8) :
    (n.byte v l s c).Body := by
  unfold Life.byte HttpServer.recvByte
  cases hdata : n.hs.postdata with
  | none =>
    obtain ⟨hbody, hstores, hcount⟩ := h.none_yet hdata
    obtain ⟨hnoStore, hnoPost⟩ := touches_header hdata c
    have hstores' : stores (n.touched ++ touches n.hs c) = [] := by
      rw [stores_append, hstores, hnoStore]
      rfl
    have hcount' : (n.touched ++ touches n.hs c).count .handlePost = 0 := by
      rw [List.count_append, hcount, hnoPost]
    simp only [if_true]
    refine ⟨fun _ => ⟨hbody, hstores', hcount'⟩, fun postdata hpost => ?_⟩
    have hzero : (headerByte (v.handleLine s) n.hs c).1.postpos = 0 := by
      refine (headerByte_starts hv hdata s c).resolve_left fun hnone => ?_
      cases hnone.symm.trans hpost
    refine ⟨?_, ?_, ?_⟩
    · rw [hbody]
      exact hzero
    · rw [hbody]
      exact hstores'
    · rw [hbody, if_neg (by simp only [List.length_nil, Int.natCast_zero]; omega)]
      exact hcount'
  | some postdata =>
    obtain ⟨hpos, hstores, hcount⟩ := h.some_sent postdata hdata
    obtain ⟨e1, e2, e3⟩ := bodyByte_post hv l s n.hs postdata c
    obtain ⟨hstore, hpost⟩ := touches_some hdata c
    simp only [reduceCtorEq, if_false]
    refine ⟨fun hc => ?_, fun postdata' hpost' => ?_⟩
    · cases hc.symm.trans (e1.trans hdata)
    obtain rfl : postdata' = postdata := Option.some.inj (hpost'.symm.trans (e1.trans hdata))
    simp only [e2, e3, List.length_append, List.length_singleton]
    refine ⟨by omega, ?_, ?_⟩
    · rw [stores_append, hstores, hstore, hpos, List.range'_concat, Nat.one_mul]
    · rw [List.count_append, hcount, hpost, hpos]
      split_ifs <;> omega

end

/-! ## All callbacks -/

section
variable {σ : Type} {v : Locals → (Int → Option Nat) → HttpServer σ}

theorem sendData_lineBufpos (l : Locals) (hs : HttpState) :
    (sendData l hs).lineBufpos = hs.lineBufpos := by
  unfold sendData
  split <;> rfl

/-- What each byte keeps, and what does not depend on the answer that is sent. -/
structure KeepsConnection (v : Locals → (Int → Option Nat) → HttpServer σ) (P : Life → Prop) :
    Prop where
  init : ∀ lineBuf, P ⟨httpAccept lineBuf, true, [], [], []⟩
  byte : ∀ l malloc s n c, n.opened = true → P n → P (n.byte (v l malloc) l s c)
  quiet : ∀ n hs opened, P n → SamePost n.hs hs → hs.lineBufpos = n.hs.lineBufpos →
    (opened = true → n.opened = true) → P { n with hs, opened }

section
variable {P : Life → Prop} (h : KeepsConnection v P)

include h

theorem KeepsConnection.bytes (l : Locals) (malloc : Int → Option Nat) (cs : List UInt8) (s : σ)
    {n : Life} (hopen : n.opened = true) (hn : P n) : P (n.bytes (v l malloc) l s cs) := by
  induction cs generalizing s n with
  | nil => exact hn
  | cons c cs ih =>
    have hbyte := h.byte l malloc s n c hopen hn
    rw [bytes_cons_life]
    split
    · rename_i hopen'
      exact ih _ hopen' hbyte
    · exact hbyte

theorem KeepsConnection.closed {n : Life} {hs : HttpState} (hn : P n) (hsame : SamePost n.hs hs)
    (hpos : hs.lineBufpos = n.hs.lineBufpos) : P { n with hs, opened := false } :=
  h.quiet n hs false hn hsame hpos fun hc => by cases hc

theorem KeepsConnection.sendData (l : Locals) {n : Life} {hs : HttpState} (hn : P n)
    (hsame : SamePost n.hs hs) (hpos : hs.lineBufpos = n.hs.lineBufpos) :
    P { n with hs := Net.sendData l hs } := by
  obtain ⟨⟨d1, d2⟩, d3, d4, d5⟩ := hsame
  obtain ⟨⟨e1, e2⟩, e3, e4, e5⟩ := sendData_same l hs
  exact h.quiet n (Net.sendData l hs) n.opened hn
    ⟨⟨e1.trans d1, e2.trans d2⟩, e3.trans d3, e4.trans d4, e5.trans d5⟩
    ((sendData_lineBufpos l hs).trans hpos) id

/-- **Callback step.** -/
theorem KeepsConnection.next {n n' : Life} {e : Callback σ} (hn : P n)
    (hnext : connectionNext v n e = some n') : P n' := by
  unfold connectionNext at hnext
  by_cases hopen : n.opened = true
  swap
  · rw [if_neg hopen] at hnext
    cases hnext
  rw [if_pos hopen] at hnext
  cases e with
  | recv s l malloc payload =>
    cases hnext
    exact h.bytes l malloc payload s hopen hn
  | sent l =>
    simp only at hnext
    split_ifs at hnext
    cases hnext
    unfold Life.httpSent
    simp only
    split_ifs
    · exact h.sendData l hn ⟨⟨rfl, rfl⟩, rfl, rfl, rfl⟩ rfl
    · exact h.closed hn ⟨⟨rfl, rfl⟩, rfl, rfl, rfl⟩ rfl
  | poll l =>
    simp only at hnext
    split_ifs at hnext
    cases hnext
    unfold Life.httpPoll
    simp only
    split_ifs
    · exact h.closed hn ⟨⟨rfl, rfl⟩, rfl, rfl, rfl⟩ rfl
    · exact h.sendData l hn ⟨⟨rfl, rfl⟩, rfl, rfl, rfl⟩ rfl
  | close =>
    cases hnext
    exact h.closed hn ⟨⟨rfl, rfl⟩, rfl, rfl, rfl⟩ rfl

/-- It holds of a connection at any time. -/
theorem KeepsConnection.reachable {n : Life} (hreach : (connection v).Reachable n) : P n := by
  refine Machine.invariant (M := connection v) (I := P) ?_ (fun n e n' hn hnext => ?_) n hreach
  · rintro _ ⟨lineBuf, rfl⟩
    exact h.init lineBuf
  · exact h.next hn hnext

end

theorem lines_reachable (hv : ∀ l malloc, (v l malloc).Regular) {n : Life}
    (h : (connection v).Reachable n) : n.Lines := by
  refine KeepsConnection.reachable ⟨fun lineBuf => ?_, fun l malloc s n c hopen hn => ?_, ?_⟩ h
  · refine ⟨iff_of_true (fun i hi => by cases hi) fun line hl => ?_, fun _ _ => rfl⟩
    simp at hl
  · exact hn.byte (hv l malloc) hopen s c
  · intro n hs opened hn hsame hpos hopen
    refine ⟨hn.inside, fun ho hdata => ?_⟩
    exact hpos.trans (hn.pos (hopen ho) (hsame.postdata.symm.trans hdata))

theorem body_reachable (hv : ∀ l malloc, (v l malloc).Regular) {n : Life}
    (h : (connection v).Reachable n) : n.Body := by
  refine KeepsConnection.reachable ⟨fun lineBuf => ?_, fun l malloc s n c _ hn => ?_, ?_⟩ h
  · exact ⟨fun _ => ⟨rfl, rfl, rfl⟩, fun postdata hc => by cases hc⟩
  · exact hn.byte (hv l malloc) s c
  · intro n hs opened hn hsame _ _
    refine ⟨fun hdata => hn.none_yet (hsame.postdata.symm.trans hdata), fun postdata hdata => ?_⟩
    obtain ⟨h1, h2, h3⟩ := hn.some_sent postdata (hsame.postdata.symm.trans hdata)
    refine ⟨hsame.postpos.trans h1, h2, ?_⟩
    simp only [hsame.postlen]
    exact h3

end

/-! ## Top theorems -/

/-- The Content-Length that a body was announced with, as `malloc` takes it. -/
def Life.announced (n : Life) : Nat := (UInt32.ofInt n.hs.postlen).toNat

/-- No more than the announced bytes are stored, all in the buffer, and the body
is looked through once at most. -/
structure Life.Bounded (n : Life) (postdata : Nat) : Prop where
  count : (stores n.touched).length ≤ n.announced
  place : ∀ a ∈ stores n.touched, postdata ≤ a ∧ a < postdata + n.announced
  once : n.touched.count .handlePost ≤ 1

theorem Life.Body.bounded_iff {n : Life} (h : n.Body) {postdata : Nat}
    (hdata : n.hs.postdata = some postdata) :
    n.Bounded postdata ↔ n.body.length ≤ n.announced := by
  obtain ⟨-, hstores, hcount⟩ := h.some_sent postdata hdata
  constructor
  · rintro ⟨hlen, -, -⟩
    rw [hstores, List.length_range'] at hlen
    exact hlen
  · intro hle
    refine ⟨?_, ?_, ?_⟩
    · rw [hstores, List.length_range']
      exact hle
    · intro a ha
      rw [hstores, List.mem_range'_1] at ha
      omega
    · rw [hcount]
      split_ifs <;> omega

/-- A connection of one of the two servers. -/
def Served (files : Nat → Int) (n : Life) : Prop :=
  (netbootConnection files).Reachable n ∨ (netflashConnection files).Reachable n

/-- **Where `lineBuf` is written.** -/
theorem lineWrites_iff (files : Nat → Int) {n : Life} (h : Served files n) :
    (∀ i, .lineBuf i ∈ n.touched → 0 ≤ i ∧ i < 256) ↔ ShortLines n.header := by
  rcases h with h | h
  · exact (lines_reachable (fun l _ => netboot_regular files l) h).inside
  · exact (lines_reachable (netflash_regular files) h).inside

/-- **Where a body goes.** -/
theorem bodyStores_iff (files : Nat → Int) {n : Life} {postdata : Nat} (h : Served files n)
    (hdata : n.hs.postdata = some postdata) :
    n.Bounded postdata ↔ n.body.length ≤ n.announced := by
  rcases h with h | h
  · exact (body_reachable (fun l _ => netboot_regular files l) h).bounded_iff hdata
  · exact (body_reachable (netflash_regular files) h).bounded_iff hdata

/-! ## Runs -/

/-- One segment for a fresh connection. -/
def afterSegment {σ : Type} (v : Locals → (Int → Option Nat) → HttpServer σ) (s : σ)
    (payload : List UInt8) : Life :=
  Life.bytes (v plainLocals fun _ => some postBuffer) plainLocals s
    ⟨httpAccept fun _ => 0, true, [], [], []⟩ payload

theorem afterSegment_reachable {σ : Type} (v : Locals → (Int → Option Nat) → HttpServer σ) (s : σ)
    (payload : List UInt8) : (connection v).Reachable (afterSegment v s payload) := by
  have hinit : (connection v).init ⟨httpAccept fun _ => 0, true, [], [], []⟩ := ⟨_, rfl⟩
  exact (Machine.Reachable.of_init hinit).step
    (show (connection v).next _ (.recv s plainLocals (fun _ => some postBuffer) payload) = _ from rfl)

/-- A request line with this many characters. -/
def longLine (k : Nat) : List UInt8 :=
  chars "GET /".toList ++ List.replicate (k - 5) 0x61 ++ [0x0a]

def blankServer : Server := ⟨0, 0, fun _ => 0, false⟩

theorem lineWrites_iff_of_127 :
    let n := afterSegment (fun l _ => netbootServer (fun _ => 1) l) blankServer (longLine 127)
    ∀ i, .lineBuf i ∈ n.touched → 0 ≤ i ∧ i < 256 := by
  have hreach := afterSegment_reachable (fun l _ => netbootServer (fun _ => 1) l) blankServer
    (longLine 127)
  exact (lineWrites_iff (fun _ => 1) (.inl hreach)).2 (by decide +kernel)

/-- **A line of 128 characters.** -/
theorem line_of_128 : (∃ n, (netbootConnection fun _ => 1).Reachable n ∧
    .lineBuf (-128) ∈ n.touched) ∧
    ∃ n, (netflashConnection fun _ => 1).Reachable n ∧ .lineBuf (-128) ∈ n.touched :=
  ⟨⟨_, afterSegment_reachable _ blankServer (longLine 128), by decide +kernel⟩,
    ⟨_, afterSegment_reachable _ (fun _ => 0) (longLine 128), by decide +kernel⟩⟩

/-- A post whose body is this long where Content-Length says 1. -/
def overPost (body : List Char) : List UInt8 :=
  chars ("POST /\nContent-Length: 1\n\n".toList ++ body)

theorem bodyStores_iff_of_1 :
    let n := afterSegment (fun l _ => netbootServer (fun _ => 1) l) blankServer (overPost ['a'])
    n.hs.postdata = some postBuffer ∧ n.Bounded postBuffer := by
  have hreach := afterSegment_reachable (fun l _ => netbootServer (fun _ => 1) l) blankServer
    (overPost ['a'])
  have hdata : (afterSegment (fun l _ => netbootServer (fun _ => 1) l) blankServer
      (overPost ['a'])).hs.postdata = some postBuffer := by
    decide +kernel
  exact ⟨hdata, (bodyStores_iff (fun _ => 1) (.inl hreach) hdata).2 (by decide +kernel)⟩

/-- **Content-Length 1 and two bytes.** -/
theorem byte_behind_the_body : (∃ n, (netbootConnection fun _ => 1).Reachable n ∧
    n.announced = 1 ∧ n.hs.postdata = some postBuffer ∧ postBuffer + 1 ∈ stores n.touched) ∧
    ∃ n, (netflashConnection fun _ => 1).Reachable n ∧ n.announced = 1 ∧
      n.hs.postdata = some postBuffer ∧ postBuffer + 1 ∈ stores n.touched :=
  ⟨⟨_, afterSegment_reachable _ blankServer (overPost ['a', 'b']), by decide +kernel⟩,
    ⟨_, afterSegment_reachable _ (fun _ => 0) (overPost ['a', 'b']), by decide +kernel⟩⟩

end Gentoox.Net
