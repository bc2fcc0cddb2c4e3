import GentooxLoader.Flash.Reflash
import GentooxLoader.Net.Http

/-!
# Flashing from a browser (networktools/netflash)

The body of each POST goes to a block of its own.  An image is flashed when its
connection is closed, and `handle_post` has looked at its size before.

    closeConn_legal   an image is flashed with one of the three sizes
    next_legal        so is every image in any order of events, and each in hand has one
-/

namespace Gentoox.Net

open Cells Lib Flash

/-! ## Algorithm -/

/-- `http_files`; the numbers are their places in the source's table. -/
def okFile : Nat := 2
def failFile : Nat := 3
def errorFile : Nat := 5

namespace NetFlash

section
variable (files : Nat → Int) (l : Locals)

/-- A response starts with this file. -/
def serve (hs : HttpState) (file : Nat) : HttpState :=
  { hs with file, fileOffset := 0, left := files file }

/-- `malloc` gives the block for the body, or NULL. -/
def handleLine (malloc : Int → Option Nat) (hs : HttpState) : Option HttpState :=
  if !hs.gotfirst then
    if (chars ['G', 'E', 'T', ' ']).isPrefixOf (hs.line 0) then
      let fno := (simpleStrtoul (hs.line 5) 0).toNat
      let fno := if fno > 2 then 4 else fno
      some { serve files hs fno with gotfirst := true }
    else if (chars ['P', 'O', 'S', 'T', ' ']).isPrefixOf (hs.line 0) then
      some { serve files hs errorFile with ispost := true, gotfirst := true }
    else none
  else some (hs.headerLine l (malloc hs.postlen))

def handlePost (ram : Nat → UInt8) (hs : HttpState) (postdata : Nat) : (Nat → UInt8) × HttpState :=
  let hs := serve files hs errorFile
  match locate l ram postdata hs.postlen with
  | (ram, none) => (ram, hs)
  | (ram, some (start, stop)) =>
    let len := (stop : Int) - 2 - start
    if len ≠ 256 * 1024 ∧ len ≠ 512 * 1024 ∧ len ≠ 1024 * 1024 then (ram, serve files hs failFile)
    else (ram, serve files { hs with dataStart := some start, dataLen := len } okFile)

def netflashServer (malloc : Int → Option Nat) : HttpServer (Nat → UInt8) where
  handleLine _ := handleLine files l malloc
  store := Function.update
  handlePost := handlePost files l

end

end NetFlash

/-- The memory and the connections; `dataStart` and `dataLen` of a connection
are `bios_start` and `bios_len`. -/
structure NetFlash where
  ram : Nat → UInt8
  conns : Nat → Option HttpState

namespace NetFlash

inductive Event where
  | accept (conn : Nat) (lineBuf : Int → UInt8)
  | data (conn : Nat) (payload : List UInt8) (l : Locals) (malloc : Int → Option Nat)
  | sent (conn : Nat) (l : Locals)
  | poll (conn : Nat) (l : Locals)
  | close (conn : Nat)
  | error (conn : Nat)

def withConn (n : NetFlash) (k : Nat) (hs : Option HttpState) : NetFlash :=
  { n with conns := Function.update n.conns k hs }

/-- There is no way back from flashing. -/
def closeConn (n : NetFlash) (k : Nat) (hs : HttpState) : Except Reflash NetFlash :=
  match hs.dataStart with
  | none => .ok (n.withConn k none)
  | some start =>
    let len := UInt32.ofInt hs.dataLen
    .error ⟨read n.ram start len.toNat, 0, len⟩

def recvData (files : Nat → Int) (n : NetFlash) (k : Nat) (hs : HttpState) (payload : List UInt8)
    (l : Locals) (malloc : Int → Option Nat) : Except Reflash NetFlash :=
  match (netflashServer files l malloc).httpRecv l n.ram hs payload with
  | (ram, hs, true) => .ok (withConn { n with ram } k (some hs))
  | (ram, hs, false) => closeConn { n with ram } k hs

def httpSent (n : NetFlash) (k : Nat) (hs : HttpState) (l : Locals) : Except Reflash NetFlash :=
  let hs := { hs with retries := 0 }
  if hs.left > 0 then .ok (n.withConn k (some (sendData l hs))) else n.closeConn k hs

def httpPoll (n : NetFlash) (k : Nat) (hs : HttpState) (l : Locals) : NetFlash :=
  let hs := { hs with retries := hs.retries + 1 }
  if hs.retries = 4 then n.withConn k none else n.withConn k (some (sendData l hs))

def next (files : Nat → Int) (n : NetFlash) (e : Event) : Option (Except Reflash NetFlash) :=
  match e with
  | .accept k lineBuf =>
    if (n.conns k).isSome then none else some (.ok (n.withConn k (some (httpAccept lineBuf))))
  | .data k payload l malloc => (n.conns k).map fun hs => n.recvData files k hs payload l malloc
  | .sent k l => ((n.conns k).filter (·.polled)).map fun hs => n.httpSent k hs l
  | .poll k l => ((n.conns k).filter (·.polled)).map fun hs => .ok (n.httpPoll k hs l)
  | .close k => (n.conns k).map fun hs => n.closeConn k hs
  | .error k => (n.conns k).map fun _ => .ok (n.withConn k none)

end NetFlash

/-! ## Sizes -/

/-- An image in hand has one of the three sizes. -/
def HttpState.LegalImage (hs : HttpState) : Prop :=
  hs.dataStart ≠ none → Legal (UInt32.ofInt hs.dataLen)

namespace NetFlash

section
variable {files : Nat → Int} {l : Locals} {malloc : Int → Option Nat} {n : NetFlash} {k : Nat}
  {hs hs' : HttpState}

theorem legalImage_congr (hsame : SameUpload hs hs') (h : hs.LegalImage) : hs'.LegalImage := by
  unfold HttpState.LegalImage
  rw [hsame.dataStart, hsame.dataLen]
  exact h

theorem handleLine_same (hl : handleLine files l malloc hs = some hs') : SameUpload hs hs' := by
  unfold handleLine at hl
  split_ifs at hl
  · cases hl
    exact ⟨rfl, rfl⟩
  · cases hl
    exact ⟨rfl, rfl⟩
  · cases hl
    exact headerLine_same l _ hs

/-- The test of the size. -/
theorem handlePost_legalImage {ram : Nat → UInt8} {postdata : Nat} (h : hs.LegalImage) :
    (handlePost files l ram hs postdata).2.LegalImage := by
  unfold handlePost
  simp only
  split
  · exact legalImage_congr ⟨rfl, rfl⟩ h
  · rename_i start stop _
    split_ifs with hsize
    · exact legalImage_congr ⟨rfl, rfl⟩ h
    · intro _
      show Legal (UInt32.ofInt ((stop : Int) - 2 - start))
      obtain ⟨len, hlen⟩ : ∃ len : Nat, (stop : Int) - 2 - start = len :=
        ⟨_, (Int.toNat_of_nonneg (by omega)).symm⟩
      rw [hlen]
      exact legal_of_exact (by omega)

/-- Every connection's image has one of the three sizes. -/
def LegalConns (n : NetFlash) : Prop := ∀ k hs, n.conns k = some hs → hs.LegalImage

theorem LegalConns.withConn (h : LegalConns n) {hs' : Option HttpState}
    (hk : ∀ hs, hs' = some hs → hs.LegalImage) : LegalConns (n.withConn k hs') := by
  intro j hsj hj
  change Function.update n.conns k hs' j = some hsj at hj
  by_cases hjk : j = k
  · subst hjk
    rw [Function.update_self] at hj
    exact hk hsj hj
  · rw [Function.update_of_ne hjk] at hj
    exact h j hsj hj

/-- What a step of the server ends in: legal images, or the flash of one. -/
def LegalStep : Except Reflash NetFlash → Prop
  | .ok n => LegalConns n
  | .error f => Legal f.dwLength

theorem closeConn_legal (h : LegalConns n) (hk : hs.LegalImage) : LegalStep (n.closeConn k hs) := by
  unfold closeConn
  split
  · exact h.withConn fun _ hc => by cases hc
  · rename_i start hstart
    exact hk (by simp [hstart])

theorem recvData_legal (h : LegalConns n) (hk : hs.LegalImage) (payload : List UInt8) :
    LegalStep (n.recvData files k hs payload l malloc) := by
  have hkeep : ((netflashServer files l malloc).httpRecv l n.ram hs payload).2.1.LegalImage :=
    HttpServer.httpRecv_keeps (fun _ _ => legalImage_congr) (fun _ _ _ => handleLine_same)
      (fun _ _ _ => handlePost_legalImage) hk
  unfold recvData
  generalize (netflashServer files l malloc).httpRecv l n.ram hs payload = r at hkeep ⊢
  obtain ⟨ram, hs', opened⟩ := r
  have h' : LegalConns { n with ram } := h
  cases opened with
  | true => exact h'.withConn fun _ hc => Option.some.inj hc ▸ hkeep
  | false => exact closeConn_legal h' hkeep

/-- **Only legal sizes.**  Whatever the events, each image in hand and each one
flashed has passed the test. -/
theorem next_legal {e : Event} {r : Except Reflash NetFlash} (h : LegalConns n)
    (hn : n.next files e = some r) : LegalStep r := by
  cases e with
  | accept k lineBuf =>
    unfold next at hn
    simp only at hn
    split at hn
    · cases hn
    · cases hn
      exact h.withConn fun _ hc => Option.some.inj hc ▸ fun hc => absurd rfl hc
  | data k payload l malloc =>
    obtain ⟨hs, hk, rfl⟩ := Option.map_eq_some_iff.1 hn
    exact recvData_legal h (h k hs hk) payload
  | sent k l =>
    obtain ⟨hs, hk, rfl⟩ := Option.map_eq_some_iff.1 hn
    have hk := h k hs (Option.filter_eq_some_iff.1 hk).1
    unfold httpSent
    simp only
    split
    · exact h.withConn fun _ hc =>
        Option.some.inj hc ▸ legalImage_congr (sendData_same l _).toSameUpload hk
    · exact closeConn_legal h hk
  | poll k l =>
    obtain ⟨hs, hk, rfl⟩ := Option.map_eq_some_iff.1 hn
    have hk := h k hs (Option.filter_eq_some_iff.1 hk).1
    show LegalConns (n.httpPoll k hs l)
    unfold httpPoll
    simp only
    split
    · exact h.withConn fun _ hc => by cases hc
    · exact h.withConn fun _ hc =>
        Option.some.inj hc ▸ legalImage_congr (sendData_same l _).toSameUpload hk
  | close k =>
    obtain ⟨hs, hk, rfl⟩ := Option.map_eq_some_iff.1 hn
    exact closeConn_legal h (h k hs hk)
  | error k =>
    obtain ⟨hs, hk, rfl⟩ := Option.map_eq_some_iff.1 hn
    exact h.withConn fun _ hc => by cases hc

end

end NetFlash

end Gentoox.Net
