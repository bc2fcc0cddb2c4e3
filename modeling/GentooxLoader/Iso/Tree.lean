import GentooxLoader.Iso.Iso9660

/-!
# Directory trees on a disc

A directory is a list of sectors, each a list of records and zeros behind them
(`Holds`).  `Names` says which record a path is spelled for by the translated
names, and which directories it goes through.  `walk` is the search of
`read_dir` on the tree: it takes the records in their order, goes into the first
directory on the way whose name is longer than a character, and never comes back.

    names_unique     a path names one record at most
    walk_overflow    a name that is built on the way is too long
    walk_sound       what the walk finds is named by the path
    walk_complete    what is named through longer names is found
-/

namespace Gentoox.Iso

open Cells Lib

/-! ## Trees -/

/-- A directory record, with its name. -/
structure Entry where
  bytes : List UInt8
  length_eq : bytes.length = (bytes.getD 0 0).toNat
  nameLen_pos : 0 < bytes.getD 32 0
  name_le : 33 + (bytes.getD 32 0).toNat ≤ bytes.length

def Entry.dir (e : Entry) : Record := fun i => e.bytes.getD i 0

/-- What the name of the record adds to a path. -/
def Entry.component (e : Entry) : List UInt8 := 0x2f :: iso9660NameTranslate e.dir.name

/-- A record; a special one stands for the directory itself or its parent. -/
inductive Node
  | special (entry : Entry)
  | file (entry : Entry)
  | directory (entry : Entry) (sectors : List (List Node))

def Node.entry : Node → Entry
  | special e | file e | directory e _ => e

def Node.named : Node → Bool
  | special _ => false
  | _ => true

def Node.isDirectory : Node → Bool
  | directory _ _ => true
  | _ => false

def Node.sectors : Node → List (List Node)
  | directory _ sectors => sectors
  | _ => []

/-- The records of a sector, one behind the other. -/
def records (s : List Node) : List UInt8 := s.flatMap (·.entry.bytes)

def sectorBytes (s : List Node) : List UInt8 :=
  records s ++ List.replicate (isoBlockSize - (records s).length) 0

/-- The disc holds these sectors where the record of the directory says. -/
structure Holds (disc : UInt32 → List UInt8) (dirRead : Record) (sectors : List (List Node)) :
    Prop where
  size : dirRead.size.toNat = sectors.length * isoBlockSize
  fits : ∀ s ∈ sectors, (records s).length ≤ isoBlockSize
  block : ∀ i s, sectors[i]? = some s → disc (dirRead.extent + UInt32.ofNat i) = sectorBytes s

/-- The translated names in a directory. -/
def names (nodes : List Node) : List (List UInt8) :=
  (nodes.filter Node.named).map (·.entry.component)

/-- The name of an entry does not begin like that of a special one, and has no slash. -/
structure Named (e : Entry) : Prop where
  first : e.dir 33 ≠ 0 ∧ e.dir 33 ≠ 1
  slash : 0x2f ∉ iso9660NameTranslate e.dir.name

inductive WellFormed (disc : UInt32 → List UInt8) : Node → Prop
  | special {e : Entry} : e.dir 33 = 0 ∨ e.dir 33 = 1 → e.dir.nameLen = 1 → WellFormed disc (.special e)
  | file {e : Entry} : Named e → e.dir.flags &&& isDir = 0 → WellFormed disc (.file e)
  | directory {e : Entry} {sectors : List (List Node)} : Named e → e.dir.flags &&& isDir ≠ 0 →
      Holds disc e.dir sectors → (names sectors.flatten).Nodup →
      (∀ n ∈ sectors.flatten, WellFormed disc n) → WellFormed disc (.directory e sectors)

/-- A tree whose root directory has this record. -/
structure Tree (disc : UInt32 → List UInt8) (dirRead : Record) (sectors : List (List Node)) :
    Prop where
  holds : Holds disc dirRead sectors
  unique : (names sectors.flatten).Nodup
  wellFormed : ∀ n ∈ sectors.flatten, WellFormed disc n

/-- The path names this record, and goes through these directories. -/
inductive Names : List Node → List UInt8 → List Entry → Entry → Prop
  | here {nodes : List Node} {n : Node} : n ∈ nodes → n.named = true →
      Names nodes n.entry.component [] n.entry
  | inside {nodes : List Node} {n : Node} {path : List UInt8} {via : List Entry} {found : Entry} :
      n ∈ nodes → n.isDirectory = true → Names n.sectors.flatten path via found →
      Names nodes (n.entry.component ++ path) (n.entry :: via) found

/-! ## The walk -/

/-- A directory that the search for `rest` goes into. -/
def Node.Entered (rest : List UInt8) (n : Node) : Prop :=
  n.isDirectory = true ∧ n.entry.dir.nameLen > 1 ∧ n.entry.component ++ [0x2f] <+: rest

instance (rest : List UInt8) (n : Node) : Decidable (n.Entered rest) :=
  inferInstanceAs (Decidable (_ ∧ _ ∧ _))

inductive Outcome
  | found (entry : Entry)
  | missing
  | overflow

/-- The search for `rest` in the directory that has the path `filename`. -/
def walk (filename rest : List UInt8) : List Node → Outcome
  | [] => .missing
  | n :: nodes =>
    if n.named then
      if nameBuffer ≤ (filename ++ n.entry.component).length then .overflow
      else if n.entry.component = rest then .found n.entry
      else if n.Entered rest then
        walk (filename ++ n.entry.component) (rest.drop n.entry.component.length) n.sectors.flatten
      else walk filename rest nodes
    else walk filename rest nodes
termination_by nodes => (rest.length, nodes.length)
decreasing_by
  · rename_i h
    have hle := h.2.2.length_le
    rw [List.length_append, List.length_singleton] at hle
    apply Prod.Lex.left
    rw [List.length_drop, Entry.component, List.length_cons]
    omega
  · exact Prod.Lex.right _ (Nat.lt_succ_self _)
  · exact Prod.Lex.right _ (Nat.lt_succ_self _)

/-- The names that are built on the way. -/
inductive Builds : List UInt8 → List UInt8 → List Node → List UInt8 → Prop
  | here {filename rest : List UInt8} {n : Node} {nodes : List Node} : n.named = true →
      Builds filename rest (n :: nodes) (filename ++ n.entry.component)
  | inside {filename rest name : List UInt8} {n : Node} {nodes : List Node} : n.Entered rest →
      Builds (filename ++ n.entry.component) (rest.drop n.entry.component.length) n.sectors.flatten name →
      Builds filename rest (n :: nodes) name
  | next {filename rest name : List UInt8} {n : Node} {nodes : List Node} :
      ¬ (n.named = true ∧ n.entry.component = rest) → ¬ n.Entered rest →
      Builds filename rest nodes name → Builds filename rest (n :: nodes) name

theorem named_of_directory {n : Node} (h : n.isDirectory = true) : n.named = true := by
  cases n with
  | special e => cases h
  | file e => rfl
  | directory e sectors => rfl

/-- A directory that is entered is not itself what is looked for. -/
theorem Node.Entered.ne {n : Node} {rest : List UInt8} (h : n.Entered rest) :
    n.entry.component ≠ rest := by
  intro heq
  have hle := h.2.2.length_le
  rw [heq, List.length_append, List.length_singleton] at hle
  omega

/-- A node that is passed by leaves the names that the rest builds; its own is short. -/
theorem exists_builds_next {filename rest : List UInt8} {n : Node} {nodes : List Node}
    (hother : ¬ (n.named = true ∧ n.entry.component = rest)) (hnot : ¬ n.Entered rest)
    (hshort : n.named = true → ¬ nameBuffer ≤ (filename ++ n.entry.component).length) :
    (∃ name, Builds filename rest nodes name ∧ nameBuffer ≤ name.length) ↔
      ∃ name, Builds filename rest (n :: nodes) name ∧ nameBuffer ≤ name.length := by
  constructor
  · rintro ⟨name, hbuilds, hlong⟩
    exact ⟨name, .next hother hnot hbuilds, hlong⟩
  · rintro ⟨name, hbuilds, hlong⟩
    cases hbuilds with
    | here hnamed => exact absurd hlong (hshort hnamed)
    | inside hentered => exact absurd hentered hnot
    | next _ _ hnext => exact ⟨name, hnext, hlong⟩

/-- **The walk overflows** when a name it builds is too long. -/
theorem walk_overflow (filename rest : List UInt8) (nodes : List Node) :
    walk filename rest nodes = .overflow ↔
      ∃ name, Builds filename rest nodes name ∧ nameBuffer ≤ name.length := by
  fun_induction walk filename rest nodes with
  | case1 filename rest =>
    refine iff_of_false (by rintro ⟨⟩) ?_
    rintro ⟨name, ⟨⟩, -⟩
  | case2 filename rest n nodes hnamed hlong =>
    exact iff_of_true rfl ⟨_, .here hnamed, hlong⟩
  | case3 filename n nodes hnamed hshort =>
    refine iff_of_false (by rintro ⟨⟩) ?_
    rintro ⟨name, hbuilds, hlong⟩
    cases hbuilds with
    | here => exact hshort hlong
    | inside hentered => exact hentered.ne rfl
    | next hnot => exact hnot ⟨hnamed, rfl⟩
  | case4 filename rest n nodes hnamed hshort hother hentered ih =>
    rw [ih]
    constructor
    · rintro ⟨name, hbuilds, hlong⟩
      exact ⟨name, .inside hentered hbuilds, hlong⟩
    · rintro ⟨name, hbuilds, hlong⟩
      cases hbuilds with
      | here => exact absurd hlong hshort
      | inside _ hinside => exact ⟨name, hinside, hlong⟩
      | next _ hnot => exact absurd hentered hnot
  | case5 filename rest n nodes hnamed hshort hother hnot ih =>
    rw [ih]
    exact exists_builds_next (fun h => hother h.2) hnot fun _ => hshort
  | case6 filename rest n nodes hspecial ih =>
    have hnot : ¬ n.Entered rest := fun h => hspecial (named_of_directory h.1)
    rw [ih]
    exact exists_builds_next (fun h => hspecial h.1) hnot fun hnamed => absurd hnamed hspecial

/-! ## Names -/

theorem Names.mono {nodes nodes' : List Node} {path : List UInt8} {via : List Entry} {found : Entry}
    (h : Names nodes path via found) (hsub : nodes ⊆ nodes') : Names nodes' path via found := by
  cases h with
  | here hmem hnamed => exact .here (hsub hmem) hnamed
  | inside hmem hdir hinside => exact .inside (hsub hmem) hdir hinside

theorem Names.head {nodes : List Node} {path : List UInt8} {via : List Entry} {found : Entry}
    (h : Names nodes path via found) : ∃ t, path = 0x2f :: t := by
  cases h with
  | here => exact ⟨_, rfl⟩
  | inside => exact ⟨_, rfl⟩

/-- **What the walk finds** is named by the path, through longer names. -/
theorem walk_sound {filename rest : List UInt8} {nodes : List Node} {e : Entry}
    (h : walk filename rest nodes = .found e) :
    ∃ via, Names nodes rest via e ∧ ∀ d ∈ via, d.dir.nameLen ≠ 1 := by
  fun_induction walk filename rest nodes with
  | case1 => cases h
  | case2 => cases h
  | case3 filename n nodes hnamed hshort =>
    cases h
    exact ⟨[], .here List.mem_cons_self hnamed, by simp⟩
  | case4 filename rest n nodes hnamed hshort hother hentered ih =>
    obtain ⟨via, hinside, hlong⟩ := ih h
    obtain ⟨hdir, hlen, hprefix⟩ := hentered
    have hrest : n.entry.component ++ rest.drop n.entry.component.length = rest :=
      List.prefix_iff_eq_append.1 ((List.prefix_append _ _).trans hprefix)
    refine ⟨n.entry :: via, ?_, List.forall_mem_cons.2 ⟨?_, hlong⟩⟩
    · rw [← hrest]
      exact .inside List.mem_cons_self hdir hinside
    · intro hone
      rw [hone] at hlen
      exact absurd hlen (by decide)
  | case5 filename rest n nodes hnamed hshort hother hnot ih =>
    obtain ⟨via, hnext, hlong⟩ := ih h
    exact ⟨via, hnext.mono (List.subset_cons_self _ _), hlong⟩
  | case6 filename rest n nodes hspecial ih =>
    obtain ⟨via, hnext, hlong⟩ := ih h
    exact ⟨via, hnext.mono (List.subset_cons_self _ _), hlong⟩

/-- Two names with a path, or nothing, behind each. -/
theorem component_append {x y p q : List UInt8} (hx : 0x2f ∉ x) (hy : 0x2f ∉ y)
    (hp : ∀ t, p.head? = some t → t = 0x2f) (hq : ∀ t, q.head? = some t → t = 0x2f)
    (h : x ++ p = y ++ q) : x = y ∧ p = q := by
  have hcut : ∀ {z r : List UInt8}, 0x2f ∉ z → (∀ t, r.head? = some t → t = 0x2f) →
      (z ++ r).takeWhile (· ≠ 0x2f) = z := by
    intro z r hz hr
    rw [List.takeWhile_append_of_pos fun c hc => by simpa using fun h0 : c = 0x2f => hz (h0 ▸ hc)]
    cases r with
    | nil => rw [List.takeWhile_nil, List.append_nil]
    | cons c r => rw [hr c rfl, List.takeWhile_cons_of_neg (by simp), List.append_nil]
  have hxy : x = y := by rw [← hcut hx hp, h, hcut hy hq]
  subst hxy
  exact ⟨rfl, List.append_cancel_left h⟩

theorem slash_of_names {nodes : List Node} {path : List UInt8} {via : List Entry} {found : Entry}
    (h : Names nodes path via found) : ∀ t, path.head? = some t → t = 0x2f := by
  obtain ⟨u, rfl⟩ := h.head
  rintro t ⟨⟩
  rfl

section
variable {disc : UInt32 → List UInt8} {nodes : List Node}

theorem WellFormed.name {n : Node} (h : WellFormed disc n) (hnamed : n.named = true) : Named n.entry := by
  cases h with
  | special => cases hnamed
  | file hname => exact hname
  | directory hname => exact hname

theorem WellFormed.tree {n : Node} (h : WellFormed disc n) (hdir : n.isDirectory = true) :
    Tree disc n.entry.dir n.sectors := by
  cases h with
  | special => cases hdir
  | file => cases hdir
  | directory hname hflags hholds hunique hall => exact ⟨hholds, hunique, hall⟩

theorem node_unique (hunique : (names nodes).Nodup) {n n' : Node} (hn : n ∈ nodes) (hn' : n' ∈ nodes)
    (hnamed : n.named = true) (hnamed' : n'.named = true)
    (h : n.entry.component = n'.entry.component) : n = n' :=
  List.inj_on_of_nodup_map hunique (List.mem_filter.2 ⟨hn, hnamed⟩) (List.mem_filter.2 ⟨hn', hnamed'⟩) h

/-- The records that two paths begin with. -/
theorem node_of_prefix (hunique : (names nodes).Nodup) (hall : ∀ n ∈ nodes, WellFormed disc n)
    {n n' : Node} (hn : n ∈ nodes) (hn' : n' ∈ nodes) (hnamed : n.named = true)
    (hnamed' : n'.named = true) {p q : List UInt8} (hp : ∀ t, p.head? = some t → t = 0x2f)
    (hq : ∀ t, q.head? = some t → t = 0x2f) (h : n.entry.component ++ p = n'.entry.component ++ q) :
    n = n' ∧ p = q := by
  have hname := ((hall n hn).name hnamed).slash
  have hname' := ((hall n' hn').name hnamed').slash
  obtain ⟨hsame, hrest⟩ := component_append hname hname' hp hq (List.cons.inj h).2
  exact ⟨node_unique hunique hn hn' hnamed hnamed' (congrArg (0x2f :: ·) hsame), hrest⟩

/-- **A path names** one record at most. -/
theorem names_unique {path : List UInt8} {via via' : List Entry} {found found' : Entry}
    (hunique : (names nodes).Nodup) (hall : ∀ n ∈ nodes, WellFormed disc n)
    (h : Names nodes path via found) (h' : Names nodes path via' found') :
    via = via' ∧ found = found' := by
  have hnil : ∀ t : UInt8, ([] : List UInt8).head? = some t → t = 0x2f := by rintro t ⟨⟩
  induction h generalizing via' with
  | @here nodes n hn hnamed =>
    generalize hpath : n.entry.component = path at h'
    cases h' with
    | @here _ n' hn' hnamed' =>
      obtain ⟨rfl, -⟩ := node_of_prefix hunique hall hn hn' hnamed hnamed' hnil hnil
        (by rw [List.append_nil, List.append_nil, hpath])
      exact ⟨rfl, rfl⟩
    | @inside _ n' path' _ _ hn' hdir' hinside' =>
      obtain ⟨-, hempty⟩ := node_of_prefix hunique hall hn hn' hnamed (named_of_directory hdir') hnil
        (slash_of_names hinside') (by rw [List.append_nil, hpath])
      obtain ⟨u, hu⟩ := hinside'.head
      rw [hu] at hempty
      cases hempty
  | @inside nodes n path via found hn hdir hinside ih =>
    generalize hpath : n.entry.component ++ path = whole at h'
    cases h' with
    | @here _ n' hn' hnamed' =>
      obtain ⟨-, hempty⟩ := node_of_prefix hunique hall hn hn' (named_of_directory hdir) hnamed'
        (slash_of_names hinside) hnil (by rw [List.append_nil, hpath])
      obtain ⟨u, hu⟩ := hinside.head
      rw [hu] at hempty
      cases hempty
    | @inside _ n' path' _ _ hn' hdir' hinside' =>
      obtain ⟨rfl, rfl⟩ := node_of_prefix hunique hall hn hn' (named_of_directory hdir)
        (named_of_directory hdir') (slash_of_names hinside) (slash_of_names hinside') hpath
      have htree := (hall n hn).tree hdir
      obtain ⟨rfl, rfl⟩ := ih htree.unique htree.wellFormed hinside'
      exact ⟨rfl, rfl⟩

/-- A path that names a record names the first or one behind it. -/
theorem names_cons {n : Node} {path : List UInt8} {via : List Entry} {found : Entry}
    (h : Names (n :: nodes) path via found) :
    n.named = true ∧ path = n.entry.component ∧ via = [] ∧ found = n.entry ∨
      (∃ rest via', n.isDirectory = true ∧ path = n.entry.component ++ rest ∧ via = n.entry :: via' ∧
        Names n.sectors.flatten rest via' found) ∨ Names nodes path via found := by
  cases h with
  | here hn hnamed =>
    rcases List.mem_cons.1 hn with rfl | hn
    · exact Or.inl ⟨hnamed, rfl, rfl, rfl⟩
    · exact Or.inr (Or.inr (.here hn hnamed))
  | inside hn hdir hinside =>
    rcases List.mem_cons.1 hn with rfl | hn
    · exact Or.inr (Or.inl ⟨_, _, hdir, rfl, rfl, hinside⟩)
    · exact Or.inr (Or.inr (.inside hn hdir hinside))

/-- A path through a directory names what it names there. -/
theorem names_inside {n : Node} {u : List UInt8} {via : List Entry} {found : Entry}
    (hunique : (names nodes).Nodup) (hall : ∀ n ∈ nodes, WellFormed disc n) (hn : n ∈ nodes)
    (hdir : n.isDirectory = true) (h : Names nodes (n.entry.component ++ 0x2f :: u) via found) :
    ∃ via', Names n.sectors.flatten (0x2f :: u) via' found ∧ via = n.entry :: via' := by
  have hu : ∀ t, ((0x2f : UInt8) :: u).head? = some t → t = 0x2f := by
    rintro t ⟨⟩
    rfl
  have hnil : ∀ t : UInt8, ([] : List UInt8).head? = some t → t = 0x2f := by rintro t ⟨⟩
  generalize hpath : n.entry.component ++ 0x2f :: u = path at h
  cases h with
  | @here _ n' hn' hnamed' =>
    obtain ⟨-, hempty⟩ := node_of_prefix hunique hall hn hn' (named_of_directory hdir) hnamed' hu
      hnil (by rw [List.append_nil, hpath])
    cases hempty
  | @inside _ n' path' via' _ hn' hdir' hinside' =>
    obtain ⟨rfl, rfl⟩ := node_of_prefix hunique hall hn hn' (named_of_directory hdir)
      (named_of_directory hdir') hu (slash_of_names hinside') hpath
    exact ⟨via', hinside', rfl⟩

theorem names_tail_nodup {n : Node} (h : (names (n :: nodes)).Nodup) : (names nodes).Nodup := by
  unfold names at h
  rw [List.filter_cons] at h
  split at h
  · exact (List.nodup_cons.1 h).2
  · exact h

/-- **What is named** through longer names is found, unless a name is too long. -/
theorem walk_complete (filename : List UInt8) {rest : List UInt8} {via : List Entry} {e : Entry}
    (hunique : (names nodes).Nodup) (hall : ∀ n ∈ nodes, WellFormed disc n)
    (h : Names nodes rest via e) (hvia : ∀ d ∈ via, d.dir.nameLen ≠ 1) :
    walk filename rest nodes = .found e ∨ walk filename rest nodes = .overflow := by
  fun_induction walk filename rest nodes generalizing via with
  | case1 filename rest =>
    cases h with
    | here hn => cases hn
    | inside hn => cases hn
  | case2 => exact Or.inr rfl
  | case3 filename n nodes hnamed hshort =>
    obtain ⟨-, rfl⟩ := names_unique hunique hall h (.here List.mem_cons_self hnamed)
    exact Or.inl rfl
  | case4 filename rest n nodes hnamed hshort hother hentered ih =>
    obtain ⟨hdir, -, u, rfl⟩ := hentered
    rw [List.append_assoc, List.singleton_append, List.drop_left] at ih ⊢
    rw [List.append_assoc, List.singleton_append] at h
    obtain ⟨via', hinside, rfl⟩ := names_inside hunique hall List.mem_cons_self hdir h
    have hvia' : ∀ d ∈ via', d.dir.nameLen ≠ 1 := fun d hd => hvia d (List.mem_cons_of_mem _ hd)
    have htree := (hall n List.mem_cons_self).tree hdir
    exact ih htree.unique htree.wellFormed hinside hvia'
  | case5 filename rest n nodes hnamed hshort hother hnot ih =>
    have hrest := fun n hn => hall n (List.mem_cons_of_mem _ hn)
    rcases names_cons h with ⟨-, hsame, -, -⟩ | ⟨path, via', hdir, rfl, rfl, hinside⟩ | hnext
    · exact absurd hsame.symm hother
    · refine absurd ⟨hdir, ?_, ?_⟩ hnot
      · have hone := hvia n.entry List.mem_cons_self
        have hpos : 0 < n.entry.dir.nameLen := n.entry.nameLen_pos
        rw [gt_iff_lt, UInt8.lt_iff_toNat_lt]
        rw [UInt8.lt_iff_toNat_lt] at hpos
        have hne : n.entry.dir.nameLen.toNat ≠ 1 := fun h1 => hone (UInt8.toNat_inj.1 h1)
        have h0 : (0 : UInt8).toNat = 0 := rfl
        have h1 : (1 : UInt8).toNat = 1 := rfl
        omega
      · obtain ⟨u, rfl⟩ := hinside.head
        exact ⟨u, by simp⟩
    · exact ih (names_tail_nodup hunique) hrest hnext hvia
  | case6 filename rest n nodes hspecial ih =>
    have hrest := fun n hn => hall n (List.mem_cons_of_mem _ hn)
    rcases names_cons h with ⟨hnamed, -⟩ | ⟨path, via', hdir, -⟩ | hnext
    · exact absurd hnamed hspecial
    · exact absurd (named_of_directory hdir) hspecial
    · exact ih (names_tail_nodup hunique) hrest hnext hvia

end

end Gentoox.Iso
