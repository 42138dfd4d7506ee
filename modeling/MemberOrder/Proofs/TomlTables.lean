import Mathlib.Data.List.Induction
import MemberOrder.Toml.Document

/-! The names at the top level of a document. A line or a header puts its first name behind the
others unless it stands there already. Only the header of a table that longer headers implied
takes the name from its place and puts it last. So no name stands there twice, and without such
a header all names stand in the order of their first appearance. -/
namespace MemberOrder.Toml

variable {name : String} {node node' : Node} {entries : List (String × Node)} {path : List Key}
  {key : Key} {dotted : Bool} {change : Node → Option Node}

section Orders

variable {names : List String}

/-- A name stays where it stands; a new one is put behind the others. -/
def keep (names : List String) (name : String) : List String :=
  if name ∈ names then names else names ++ [name]

def putLast (names : List String) (name : String) : List String :=
  names.filter (· != name) ++ [name]

def Line.first (l : Line) : String :=
  (l.path.headD l.key).name

def Header.first (h : Header) : String :=
  (h.path.headD h.key).name

/-- The header is that of one table, and of one at top level. -/
def Header.IsOwn (h : Header) : Prop :=
  h.kind = .table ∧ h.path = []

instance (h : Header) : Decidable h.IsOwn :=
  inferInstanceAs (Decidable (_ ∧ _))

/-- Its own header puts a table last; every other header only names it. -/
def Header.place (names : List String) (h : Header) : List String :=
  if h.IsOwn then putLast names h.first else keep names h.first

abbrev Sections := List Line × List (Header × List Line)

/-- The first names of the lines in front of all headers, and of the headers. -/
def Sections.firsts (parts : Sections) : List String :=
  parts.1.map Line.first ++ parts.2.map fun s => s.1.first

def Sections.appearances (parts : Sections) : List String :=
  parts.firsts.foldl keep []

/-- The names in the order in which the entries are visited. -/
def Sections.visited (parts : Sections) : List String :=
  (parts.2.map Prod.fst).foldl Header.place ((parts.1.map Line.first).foldl keep [])

/-- A header is that of a table which was named before. -/
def Sections.Reopens (parts : Sections) : Prop :=
  ∃ before s after, parts.2 = before ++ s :: after ∧ s.1.IsOwn ∧
    s.1.first ∈ Sections.firsts (parts.1, before)

theorem nodup_concat (distinct : names.Nodup) (absent : name ∉ names) :
    (names ++ [name]).Nodup := by
  refine List.nodup_append.mpr ⟨distinct, by simp, ?_⟩
  intro other known last same equal
  rw [List.mem_singleton] at same
  exact absent (same ▸ equal ▸ known)

theorem nodup_keep (distinct : names.Nodup) (name : String) : (keep names name).Nodup := by
  unfold keep
  split
  · exact distinct
  · next absent => exact nodup_concat distinct absent

theorem nodup_putLast (distinct : names.Nodup) (name : String) : (putLast names name).Nodup :=
  nodup_concat (distinct.sublist List.filter_sublist) (by simp)

theorem nodup_place (distinct : names.Nodup) (h : Header) : (h.place names).Nodup := by
  unfold Header.place
  split
  · exact nodup_putLast distinct _
  · exact nodup_keep distinct _

theorem nodup_foldl {ε : Type} {put : List String → ε → List String}
    (keeps : ∀ {names}, names.Nodup → ∀ e, (put names e).Nodup) (distinct : names.Nodup)
    (l : List ε) : (l.foldl put names).Nodup := by
  induction l generalizing names with
  | nil => exact distinct
  | cons e l ih => exact ih (keeps distinct e)

theorem Sections.nodup_visited (parts : Sections) : parts.visited.Nodup :=
  nodup_foldl nodup_place (nodup_foldl nodup_keep List.nodup_nil _) _

theorem mem_keep {other : String} : other ∈ keep names name ↔ other ∈ names ∨ other = name := by
  unfold keep
  split
  · next known =>
    refine ⟨.inl, ?_⟩
    rintro (member | rfl)
    · exact member
    · exact known
  · simp

theorem mem_foldl_keep {l : List String} : name ∈ l.foldl keep names ↔ name ∈ names ∨ name ∈ l := by
  induction l generalizing names with
  | nil => simp
  | cons first l ih => rw [List.foldl_cons, ih, mem_keep, List.mem_cons, or_assoc]

theorem putLast_of_not_mem (absent : name ∉ names) : putLast names name = keep names name := by
  have others : names.filter (· != name) = names :=
    List.filter_eq_self.mpr fun other known => bne_iff_ne.mpr fun same => absent (same ▸ known)
  rw [putLast, keep, others, if_neg absent]

end Orders

section Entries

def Node.names : Node → List String
  | .table _ _ entries => entries.map Prod.fst
  | _ => []

theorem map_fst_append (missing : entries.lookup name = none) :
    (entries ++ [(name, node)]).map Prod.fst = keep (entries.map Prod.fst) name := by
  rw [keep, if_neg (not_mem_of_lookup_eq_none missing), List.map_append]
  rfl

theorem map_fst_dropEntry :
    (dropEntry name entries ++ [(name, node)]).map Prod.fst =
      putLast (entries.map Prod.fst) name := by
  rw [List.map_append, dropEntry, putLast, List.filter_map]
  rfl

/-- Below a table a change puts no more than the first name of its path. -/
theorem names_within (changed : node.within dotted change (key :: path) = some node') :
    node'.names = keep node.names key.name := by
  cases node with
  | table span origin entries =>
    rw [Node.within] at changed
    split at changed
    · next missing =>
      obtain ⟨below, -, same⟩ := Option.bind_eq_some_iff.mp changed
      cases same
      exact map_fst_append missing
    · next held =>
      split at changed
      · contradiction
      · obtain ⟨below, -, same⟩ := Option.bind_eq_some_iff.mp changed
        cases same
        exact map_fst_setEntry
    · obtain ⟨last, -, changed⟩ := Option.bind_eq_some_iff.mp changed
      obtain ⟨below, -, same⟩ := Option.bind_eq_some_iff.mp changed
      cases same
      exact map_fst_setEntry
    · contradiction
  | _ => simp [Node.within] at changed

theorem names_enterValue {line : Line} (entered : node.enterValue line = some node') :
    node'.names = keep node.names line.key.name := by
  unfold Node.enterValue at entered
  split at entered
  · split at entered
    · contradiction
    · split at entered
      · contradiction
      · next known =>
        cases entered
        exact map_fst_append (Option.not_isSome_iff_eq_none.mp known)
  · contradiction

theorem names_reachTo (stop : Nat) (node : Node) : (node.reachTo stop).names = node.names := by
  cases node <;> rfl

theorem names_enterLine {line : Line} (entered : node.enterLine line = some node') :
    node'.names = keep node.names line.first := by
  obtain ⟨grown, within, same⟩ := Option.bind_eq_some_iff.mp entered
  cases same
  rw [names_reachTo, Line.first]
  cases path : line.path with
  | nil =>
    rw [path, Node.within] at within
    exact names_enterValue within
  | cons first more =>
    rw [path] at within
    exact names_within within

theorem names_enterTable {h : Header} {lines : List Line}
    (entered : node.enterTable h lines = some node') :
    node'.names = putLast node.names h.key.name := by
  unfold Node.enterTable at entered
  split at entered
  · split at entered
    all_goals
      obtain ⟨held, -, entered⟩ := Option.bind_eq_some_iff.mp entered
      obtain ⟨table, -, same⟩ := Option.bind_eq_some_iff.mp entered
      cases same
      exact map_fst_dropEntry
  · contradiction

theorem names_enterElement {h : Header} {lines : List Line}
    (entered : node.enterElement h lines = some node') :
    node'.names = keep node.names h.key.name := by
  unfold Node.enterElement at entered
  split at entered
  · obtain ⟨table, -, entered⟩ := Option.bind_eq_some_iff.mp entered
    split at entered
    · next missing =>
      cases entered
      exact map_fst_append missing
    · cases entered
      exact map_fst_setEntry
    · contradiction
  · contradiction

theorem names_enterSection {s : Header × List Line} (entered : node.enterSection s = some node') :
    node'.names = s.1.place node.names := by
  obtain ⟨⟨kind, path, key, span⟩, lines⟩ := s
  unfold Node.enterSection at entered
  cases path with
  | nil =>
    cases kind with
    | table => exact names_enterTable entered
    | element => exact names_enterElement entered
  | cons first more =>
    have below : ¬Header.IsOwn ⟨kind, first :: more, key, span⟩ := fun own => nomatch own.2
    rw [Header.place, if_neg below]
    cases kind with
    | table => exact names_within entered
    | element => exact names_within entered

end Entries

section Documents

/-- What every step does to the names, a run does one by one. -/
theorem names_foldlM {ε : Type} {step : Node → ε → Option Node}
    (put : List String → ε → List String)
    (puts : ∀ {n e n'}, step n e = some n' → n'.names = put n.names e) {l : List ε}
    (run : l.foldlM step node = some node') : node'.names = l.foldl put node.names := by
  induction l generalizing node with
  | nil =>
    cases run
    rfl
  | cons e l ih =>
    obtain ⟨next, taken, run⟩ := Option.bind_eq_some_iff.mp run
    rw [ih run, puts taken, List.foldl_cons]

/-- The entries at the top level of a document stand as the sections of its text put them. -/
theorem Document.names_of_read? {text : String} {d : Document}
    (read : Document.read? text = some d) :
    ∃ parts : Sections, sections? text.toList = some parts ∧ d.entries.map Prod.fst = parts.visited := by
  obtain ⟨parts, found, read⟩ := Option.bind_eq_some_iff.mp read
  obtain ⟨top, lines, read⟩ := Option.bind_eq_some_iff.mp read
  obtain ⟨root, sections, read⟩ := Option.bind_eq_some_iff.mp read
  refine ⟨parts, found, ?_⟩
  have own : top.names = (parts.1.map Line.first).foldl keep [] := by
    rw [names_foldlM (fun names l => keep names l.first) names_enterLine lines, List.foldl_map]
    rfl
  have names : root.names = Sections.visited parts := by
    rw [names_foldlM (fun names s => s.1.place names) names_enterSection sections, own]
    exact List.foldl_map.symm
  split at read
  · cases read
    exact names
  · contradiction

/-- No two entries at the top level of a document have one name. -/
theorem Document.nodup_of_read? {text : String} {d : Document}
    (read : Document.read? text = some d) : (d.entries.map Prod.fst).Nodup := by
  obtain ⟨parts, -, names⟩ := Document.names_of_read? read
  rw [names]
  exact parts.nodup_visited

/-- Entries are visited in the order of their first appearance unless a table is reopened. -/
theorem Sections.visited_eq_appearances {parts : Sections} (fresh : ¬parts.Reopens) :
    parts.visited = parts.appearances := by
  obtain ⟨lines, below⟩ := parts
  rw [appearances, firsts, List.foldl_append]
  induction below using List.reverseRecOn with
  | nil => rfl
  | append_singleton before s ih =>
    have ih := ih fun ⟨front, s', behind, split, reopens⟩ =>
      fresh ⟨front, s', behind ++ [s], by simp_all, reopens⟩
    simp only [visited] at ih ⊢
    rw [List.map_append, List.map_append, List.foldl_append, List.foldl_append, ih]
    change Header.place _ s.1 = keep _ s.1.first
    rw [Header.place]
    split
    · next own =>
      refine putLast_of_not_mem fun known => fresh ⟨before, s, [], rfl, own, ?_⟩
      rw [← List.foldl_append, mem_foldl_keep] at known
      exact known.resolve_left List.not_mem_nil
    · rfl

end Documents

end MemberOrder.Toml
