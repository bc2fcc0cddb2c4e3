import GentooxLoader.Net.HandlePost

/-!
# Uploads in a form

A browser sends a file as the one part of a form: the boundary, the part's header
lines, an empty line, the content, and the boundary again.  The content is found
by both servers, to the byte (`handlePost_locates`): the boundary has no line end
in it and the content no boundary, so that the boundary stands nowhere between
the empty line and the end of the content (`Part.Laid.not_boundary`).
-/

namespace Gentoox.Net

open Cells Lib

/-! ## A form with one part -/

def crlf : List UInt8 := [0x0d, 0x0a]

/-- A part with the boundary around it.  A header line may hold a CR, but has a
byte besides. -/
structure Part where
  boundary : List UInt8
  lines : List (List UInt8)
  content : List UInt8
  boundary_ne : boundary ≠ []
  boundary_line : ∀ c ∈ boundary, c ≠ 0x0d ∧ c ≠ 0x0a
  header_line : ∀ h ∈ lines, 0x0a ∉ h ∧ ∃ c ∈ h, c ≠ 0x0d
  content_free : ¬ boundary <:+: content

/-- What is in front of the content. -/
def Part.head (p : Part) : List UInt8 :=
  p.boundary ++ crlf ++ p.lines.flatMap (fun h => h ++ crlf) ++ crlf

def Part.body (p : Part) : List UInt8 :=
  p.head ++ p.content ++ crlf ++ p.boundary ++ [0x2d, 0x2d]

/-- With a header line in it the body is the one with the lines joined. -/
theorem Part.body_joined (p : Part) (h : p.lines ≠ []) : p.body = p.boundary ++ crlf ++
    crlf.intercalate p.lines ++ crlf ++ crlf ++ p.content ++ crlf ++ p.boundary ++ [0x2d, 0x2d] := by
  have hjoin : ∀ lines : List (List UInt8), lines ≠ [] →
      lines.flatMap (fun h => h ++ crlf) = crlf.intercalate lines ++ crlf := by
    intro lines hne
    induction lines with
    | nil => exact absurd rfl hne
    | cons h lines ih =>
      cases lines with
      | nil => simp [List.intercalate]
      | cons h' lines =>
        rw [List.flatMap_cons, ih (by simp), List.intercalate_cons_cons]
        simp
  unfold Part.body Part.head
  rw [hjoin p.lines h]
  simp only [List.append_assoc]

/-! ## The three loops over it -/

section
variable {m : Nat → UInt8} {postdata : Nat}

/-- A line without its end: the count is 0 behind it, or what it was if there are
only CRs in it. -/
theorem findStart_line {h : List UInt8} (hlf : 0x0a ∉ h) : ∀ {n i ncnt : Nat},
    Holds m (postdata + i) h → findStart m postdata (h.length + n) i ncnt =
      findStart m postdata n (i + h.length) (if ∃ c ∈ h, c ≠ 0x0d then 0 else ncnt) := by
  induction h with
  | nil =>
    intro n i ncnt _
    simp
  | cons c h ih =>
    intro n i ncnt hm
    obtain ⟨hc, hm⟩ := holds_cons.1 hm
    have hne : c ≠ 0x0a := fun e => hlf (e ▸ List.mem_cons_self)
    have ih : ∀ ncnt, findStart m postdata (h.length + n) (i + 1) ncnt =
        findStart m postdata n (i + 1 + h.length) (if ∃ c ∈ h, c ≠ 0x0d then 0 else ncnt) :=
      fun _ => ih (fun hmem => hlf (List.mem_cons_of_mem c hmem)) (by rwa [← Nat.add_assoc])
    rw [List.length_cons, show h.length + 1 + n = h.length + n + 1 by omega, findStart_succ, hc,
      show i + (h.length + 1) = i + 1 + h.length by omega]
    by_cases hcr : c = 0x0d
    · rw [if_pos hcr, ih]
      simp [hcr]
    · rw [if_neg hcr, if_neg hne, ih]
      simp [hcr]

/-- A line end, after a line of its own. -/
theorem findStart_crlf {n i : Nat} (hm : Holds m (postdata + i) crlf) :
    findStart m postdata (2 + n) i 0 = findStart m postdata n (i + 2) 1 := by
  obtain ⟨h0, h1, -⟩ := And.imp_right holds_cons.1 (holds_cons.1 hm)
  rw [show 2 + n = n + 1 + 1 by omega, findStart_succ, if_pos h0, findStart_succ,
    ← Nat.add_assoc, h1, if_neg (by decide), if_pos rfl, if_neg (by decide)]

theorem findStart_lines {lines : List (List UInt8)}
    (hlines : ∀ h ∈ lines, 0x0a ∉ h ∧ ∃ c ∈ h, c ≠ 0x0d) : ∀ {n i : Nat},
    Holds m (postdata + i) (lines.flatMap fun h => h ++ crlf) →
    findStart m postdata ((lines.flatMap fun h => h ++ crlf).length + n) i 1 =
      findStart m postdata n (i + (lines.flatMap fun h => h ++ crlf).length) 1 := by
  induction lines with
  | nil =>
    intro n i _
    simp
  | cons h lines ih =>
    intro n i hm
    obtain ⟨hlf, hc⟩ := hlines h List.mem_cons_self
    rw [List.flatMap_cons, List.append_assoc] at hm ⊢
    obtain ⟨hh, hm⟩ := holds_append.1 hm
    obtain ⟨hend, hrest⟩ := holds_append.1 hm
    have hplace : postdata + i + h.length + crlf.length = postdata + (i + h.length + 2) := by
      show postdata + i + h.length + 2 = _
      omega
    rw [hplace] at hrest
    rw [Nat.add_assoc] at hend
    have ih := fun n => ih (fun h' hmem => hlines h' (List.mem_cons_of_mem h hmem)) (n := n) hrest
    generalize (lines.flatMap fun h => h ++ crlf) = rest at *
    rw [List.length_append, List.length_append, Nat.add_assoc, findStart_line hlf hh, if_pos hc,
      show crlf.length = 2 from rfl, Nat.add_assoc, findStart_crlf hend, ih]
    congr 1
    omega

section
variable (p : Part) (hm : Holds m postdata p.body)

/-- The header lines with their ends. -/
def Part.header (p : Part) : List UInt8 := p.lines.flatMap fun h => h ++ crlf

theorem Part.length_head : p.head.length = p.boundary.length + 2 + p.header.length + 2 := by
  unfold Part.head Part.header
  simp [crlf]
  omega

theorem Part.length_body : p.body.length =
    p.head.length + p.content.length + 2 + p.boundary.length + 2 := by
  unfold Part.body
  simp [crlf]
  omega

/-- Where the parts of the body are. -/
structure Part.Laid (p : Part) (m : Nat → UInt8) (postdata : Nat) : Prop where
  boundary : Holds m postdata p.boundary
  first : Holds m (postdata + p.boundary.length) crlf
  header : Holds m (postdata + p.boundary.length + 2) p.header
  blank : Holds m (postdata + p.boundary.length + 2 + p.header.length) crlf
  content : Holds m (postdata + p.head.length) p.content
  last : Holds m (postdata + p.head.length + p.content.length) crlf
  closing : Holds m (postdata + p.head.length + p.content.length + 2) p.boundary

include hm

theorem Part.laid : p.Laid m postdata := by
  unfold Part.body at hm
  obtain ⟨hm, -⟩ := holds_append.1 hm
  obtain ⟨hm, hclosing⟩ := holds_append.1 hm
  obtain ⟨hm, hlast⟩ := holds_append.1 hm
  obtain ⟨hhead, hcontent⟩ := holds_append.1 hm
  unfold Part.head at hhead
  obtain ⟨hhead, hblank⟩ := holds_append.1 hhead
  obtain ⟨hhead, hheader⟩ := holds_append.1 hhead
  obtain ⟨hboundary, hfirst⟩ := holds_append.1 hhead
  simp only [List.length_append, ← Nat.add_assoc] at hblank hheader hlast hclosing
  exact ⟨hboundary, hfirst, hheader, hblank, hcontent, hlast, hclosing⟩

end

section
variable {p : Part} (h : p.Laid m postdata)

include h

theorem Part.Laid.findBoundary {n : Nat} (hn : p.boundary.length < n) :
    Net.findBoundary m postdata n = some p.boundary.length := by
  refine findBoundary_iff.2 ⟨Or.inr (holds_cons.1 h.first).1, hn, ?_⟩
  intro i hi hend
  obtain ⟨hcr, hlf⟩ := p.boundary_line _ (h.boundary.mem hi)
  rcases hend with hend | hend
  · exact hlf hend
  · exact hcr hend

/-- The NUL the first loop stores is not looked at as a part of the body. -/
theorem Part.Laid.findStart (n : Nat) :
    Net.findStart (Function.update m (postdata + p.boundary.length) 0) postdata
      (2 + (p.header.length + (2 + n))) p.boundary.length 0 = some (p.head.length - 1) := by
  have hframe : ∀ {a : Nat} {l : List UInt8}, Holds m a l → postdata + p.boundary.length < a →
      Holds (Function.update m (postdata + p.boundary.length) 0) a l :=
    fun hl hlt => hl.update (Or.inl hlt)
  have hnul : Function.update m (postdata + p.boundary.length) 0 (postdata + p.boundary.length) = 0 :=
    Function.update_self _ _ _
  have hfirst := hframe (holds_cons.1 h.first).2 (by omega)
  have hheader := hframe h.header (by omega)
  have hblank := hframe h.blank (by omega)
  have hlen := p.length_head
  generalize Function.update m (postdata + p.boundary.length) 0 = m' at *
  rw [Nat.add_assoc] at hfirst hheader
  rw [Nat.add_assoc, Nat.add_assoc, ← Nat.add_assoc p.boundary.length] at hblank
  rw [hlen]
  obtain ⟨hlf, -⟩ := holds_cons.1 hfirst
  obtain ⟨hcr, hlf'⟩ := holds_cons.1 hblank
  obtain ⟨hlf', -⟩ := holds_cons.1 hlf'
  rw [Nat.add_assoc] at hlf'
  -- the first line end, without its CR
  rw [show 2 + (p.header.length + (2 + n)) = p.header.length + (2 + n) + 1 + 1 by omega,
    findStart_succ, hnul, if_neg (by decide), if_neg (by decide), findStart_succ, hlf,
    if_neg (by decide), if_pos rfl, if_neg (by decide)]
  -- the header lines, and the empty line behind them
  unfold Part.header at *
  rw [findStart_lines p.header_line hheader, show 2 + n = n + 1 + 1 by omega, findStart_succ,
    if_pos hcr, findStart_succ, hlf', if_neg (by decide), if_pos rfl, if_pos rfl]
  rfl

/-- Between the empty line and its place at the end the boundary does not stand. -/
theorem Part.Laid.not_boundary {k : Nat} (h1 : p.head.length - 1 ≤ k)
    (h2 : k < p.head.length + p.content.length + 2) : ¬ Holds m (postdata + k) p.boundary := by
  intro hk
  have hlen := p.length_head
  have hpos : 0 < p.boundary.length := List.length_pos_iff.2 p.boundary_ne
  -- a line end at `k + i` is none of the boundary's bytes
  have hline : ∀ i, m (postdata + (k + i)) = 0x0d ∨ m (postdata + (k + i)) = 0x0a →
      p.boundary.length ≤ i := by
    intro i hend
    by_contra hlt
    obtain ⟨hcr, hlf⟩ := p.boundary_line _ (hk.mem (Nat.lt_of_not_le hlt))
    rw [← Nat.add_assoc] at hend
    rcases hend with hend | hend
    · exact hcr hend
    · exact hlf hend
  obtain ⟨-, hblank⟩ := holds_cons.1 h.blank
  obtain ⟨hlf, -⟩ := holds_cons.1 hblank
  obtain ⟨hcr, hlast⟩ := holds_cons.1 h.last
  obtain ⟨hlf', -⟩ := holds_cons.1 hlast
  rcases Nat.lt_or_ge k p.head.length with hb | hb
  · have := hline 0 (Or.inr (by
      rw [← hlf]
      congr 1
      omega))
    omega
  rcases Nat.lt_or_ge (p.head.length + p.content.length) k with hc | hc
  · have := hline 0 (Or.inr (by
      rw [← hlf']
      congr 1
      omega))
    omega
  · -- the boundary ends before the line end: it is a part of the content
    have hend := hline (p.head.length + p.content.length - k) (Or.inl (by
      rw [← hcr]
      congr 1
      omega))
    apply p.content_free
    have hpart : read m (postdata + p.head.length + (k - p.head.length)) p.boundary.length =
        ((read m (postdata + p.head.length) p.content.length).drop (k - p.head.length)).take
          p.boundary.length := read_part (by omega)
    rw [show postdata + p.head.length + (k - p.head.length) = postdata + k by omega,
      show read m (postdata + k) p.boundary.length = p.boundary from hk,
      show read m (postdata + p.head.length) p.content.length = p.content from h.content] at hpart
    rw [hpart]
    exact (List.take_prefix _ _).isInfix.trans (List.drop_suffix _ _).isInfix

theorem Part.Laid.findEnd {n : Nat}
    (hn : p.head.length + p.content.length + 2 + p.boundary.length ≤ n) :
    Net.findEnd (Function.update m (postdata + p.boundary.length) 0) postdata n
      (p.head.length - 1) p.boundary.length = some (p.head.length + p.content.length + 2) := by
  have hlen := p.length_head
  have hpos : 0 < p.boundary.length := List.length_pos_iff.2 p.boundary_ne
  have hstands : ∀ k, Stands m postdata p.boundary.length k ↔ Holds m (postdata + k) p.boundary := by
    intro k
    unfold Stands
    rw [show read m postdata p.boundary.length = p.boundary from h.boundary]
    rfl
  refine (findEnd_iff (by omega) _).2 ⟨by omega, by omega, (hstands _).2 ?_, fun k h1 h2 hk => ?_⟩
  · rw [← Nat.add_assoc, ← Nat.add_assoc]
    exact h.closing
  · exact h.not_boundary h1 h2 ((hstands k).1 hk)

end

/-- What the loops find in a form. -/
theorem locate_part (l : Locals) (p : Part) (hm : Holds m postdata p.body) :
    locate l m postdata p.body.length = (Function.update m (postdata + p.boundary.length) 0,
      some (postdata + p.head.length, postdata + p.head.length + p.content.length + 2)) := by
  have h := p.laid hm
  have hlen := p.length_head
  have hbody := p.length_body
  have hrest : p.body.length - p.boundary.length =
      2 + (p.header.length + (2 + (p.content.length + 2 + p.boundary.length + 2))) := by omega
  unfold locate
  simp only [Int.toNat_natCast, h.findBoundary (n := p.body.length) (by omega), hrest, h.findStart,
    Option.map_some, Option.getD_some, h.findEnd (n := p.body.length) (by omega)]
  rw [if_neg (by omega), if_neg (by omega)]
  congr 3
  · omega
  · omega

end

/-! ## Top theorem -/

/-- What is recorded is the content, which is still there. -/
structure Part.Located (p : Part) (ram : Nat → UInt8) (hs : HttpState) (postdata : Nat) : Prop where
  start : hs.dataStart = some (postdata + p.head.length)
  len : hs.dataLen = p.content.length
  bytes : Holds ram (postdata + p.head.length) p.content

section
variable {p : Part} {hs : HttpState} {postdata : Nat} {ram : Nat → UInt8} (l : Locals)
  (hlen : hs.postlen = p.body.length)

/-- The length the two places give. -/
theorem places_len (a clen : Nat) : ((a + clen + 2 : Nat) : Int) - 2 - (a : Nat) = clen := by
  omega

/-- The NUL is not stored into the content. -/
theorem content_kept (hm : Holds ram postdata p.body) :
    Holds (Function.update ram (postdata + p.boundary.length) 0) (postdata + p.head.length)
      p.content := by
  have hhead := p.length_head
  exact (p.laid hm).content.update (by omega)

include hlen

theorem handlePost_part {s : Server} (hm : Holds s.ram postdata p.body) :
    handlePostReturn l s hs postdata = 1 ∧
      p.Located (handlePost l s hs postdata).1.ram (handlePost l s hs postdata).2 postdata := by
  obtain ⟨hret, hpost⟩ := handlePost_some (hlen ▸ locate_part l p hm)
  rw [hpost]
  exact ⟨hret, rfl, places_len _ _, content_kept hm⟩

theorem netflash_part (files : Nat → Int) (hm : Holds ram postdata p.body)
    (hsize : Accepted p.content.length) :
    NetFlash.handlePostReturn l ram hs postdata = 1 ∧
      p.Located (NetFlash.handlePost files l ram hs postdata).1
        (NetFlash.handlePost files l ram hs postdata).2 postdata := by
  obtain ⟨hret, hram, hstart, hl⟩ := NetFlash.handlePost_accepted files
    (hlen ▸ locate_part l p hm) (by rwa [places_len])
  refine ⟨hret, hstart, hl.trans (places_len _ _), ?_⟩
  rw [hram]
  exact content_kept hm

theorem netflash_part_refused (hm : Holds ram postdata p.body) (hsize : ¬ Accepted p.content.length) :
    NetFlash.handlePostReturn l ram hs postdata = 0 :=
  (NetFlash.handlePost_refused (fun _ => 0) (hlen ▸ locate_part l p hm) (by rwa [places_len])).1

end

/-- A file of one byte. -/
def smallPart : Part where
  boundary := chars ['B']
  lines := [chars ['h']]
  content := chars ['K']
  boundary_ne := by decide
  boundary_line := List.forall_mem_singleton.2 (by decide)
  header_line := List.forall_mem_singleton.2 ⟨by decide, 0x68, List.mem_singleton_self _, by decide⟩
  content_free := by decide

def smallState : HttpState := { httpAccept (fun _ => 0) with postlen := 14 }

end Gentoox.Net
