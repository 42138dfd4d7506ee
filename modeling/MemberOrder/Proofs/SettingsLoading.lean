import MemberOrder.Outcome
import MemberOrder.Proofs.ProjectAncestry

/-! Finding settings and then loading them. The outcome rests on one file, the one that is
selected: what stands behind it in the order of priority is never looked at, what stands before
it only has to be no file, and a selected file that does not load is an error. -/
namespace MemberOrder

structure Loading where
  source : Source
  settings : Except LoadError Settings
  log : List Event

namespace Discovery

variable {view other : View} {env : Environment} {project file : Path} {explicit : Option Path}
  {isFile isFile' : Path → Bool} {source : Source}

def load (view : View) (env : Environment) (project : Path) (explicit : Option Path) : Loading :=
  let found := find (fun p => (view p).isFile) env.globalDirectory project explicit
  ⟨found.source, found.source.load view, found.log ++ found.source.loadLog⟩

/-- Printing weights depends on a file system by what is loaded alone. -/
theorem runWeights_eq_load (env : Environment) (view : View) (config : Option Path)
    (project : Path) (strict : Bool) (order : Option (List String)) (format : Format) :
    CommandLine.runWeights env view config project strict order format =
      let loaded := load view env project config
      match loaded.settings with
      | .error e => { log := loaded.log, ending := .failed (.unloadable e) }
      | .ok s =>
        let shown := CommandLine.showWeights (s.override strict order) format
        { shown with log := loaded.log ++ shown.log } :=
  rfl

/-- The candidates that go before a source. A file that the user names has none before it, and
the defaults come after all. -/
def preferred (env : Environment) (project : Path) : Source → List Path
  | .explicit _ => []
  | .project file | .global file =>
    (candidates env.globalDirectory project).takeWhile (· ≠ file)
  | .builtIn => candidates env.globalDirectory project

theorem mem_candidates_iff :
    file ∈ candidates env.globalDirectory project ↔
      file ∈ projectFiles project ∨ GlobalFile env file := by
  rw [candidates, List.mem_append, Option.mem_toList, globalFile_iff, projectFiles_eq]

theorem takeWhile_ne_of_first {before after : List Path} (there : isFile file = true)
    (skipped : ∀ p ∈ before, isFile p = false) :
    (before ++ file :: after).takeWhile (· ≠ file) = before := by
  have apart : ∀ p ∈ before, decide (p ≠ file) = true := by
    intro p member
    refine decide_eq_true fun same => ?_
    rw [← same, skipped p member] at there
    contradiction
  rw [List.takeWhile_append_of_pos apart, List.takeWhile_cons_of_neg (by simp), List.append_nil]

/-- What is preferred to the first file is what stands before it. -/
theorem preferred_project {before after : List Path}
    (split : projectFiles project = before ++ file :: after) (there : isFile file = true)
    (skipped : ∀ p ∈ before, isFile p = false) :
    preferred env project (.project file) = before := by
  rw [preferred, candidates, ← projectFiles_eq, split, List.append_assoc, List.cons_append]
  exact takeWhile_ne_of_first there skipped

theorem preferred_global (candidate : GlobalFile env file) (there : isFile file = true)
    (absent : ∀ p ∈ projectFiles project, isFile p = false) :
    preferred env project (.global file) = projectFiles project := by
  rw [preferred, candidates, ← projectFiles_eq, globalFile_iff.mpr candidate]
  exact takeWhile_ne_of_first there absent

/-- A source stays selected while its file and everything preferred to it answer the same. -/
theorem Selects.of_agrees (selected : Selects isFile env project explicit source)
    (agrees : ∀ p ∈ preferred env project source, isFile' p = isFile p)
    (kept : ∀ p, source.path? = some p → isFile' p = isFile p) :
    Selects isFile' env project explicit source := by
  cases selected with
  | explicit given => exact .explicit given
  | project given first =>
    obtain ⟨before, after, split, there, skipped⟩ := first
    rw [preferred_project split there skipped] at agrees
    refine .project given ⟨before, after, split, (kept _ rfl).trans there, fun p member => ?_⟩
    rw [agrees p member, skipped p member]
  | global given absent candidate there =>
    rw [preferred_global candidate there absent] at agrees
    refine .global given (fun p member => ?_) candidate ((kept _ rfl).trans there)
    rw [agrees p member, absent p member]
  | builtIn given absent missing =>
    refine .builtIn given (fun p member => ?_) fun p candidate => ?_
    · rw [agrees p (mem_candidates_iff.mpr (.inl member)), absent p member]
    · rw [agrees p (mem_candidates_iff.mpr (.inr candidate)), missing p candidate]

def foundLog : Source → List Event
  | .project file => [.foundProject file]
  | .global file => [.foundGlobal file]
  | .explicit _ | .builtIn => []

theorem find_eq_source_log (isFile : Path → Bool) (globalDirectory : Option Path) (project : Path)
    (explicit : Option Path) :
    let found := find isFile globalDirectory project explicit
    found = ⟨found.source, foundLog found.source⟩ := by
  unfold find
  split
  · rfl
  · split
    · rfl
    · split <;> rfl

/-- The source tells what was reported in finding it. -/
theorem find_eq_of_source_eq {globalDirectory : Option Path}
    (same : (find isFile' globalDirectory project explicit).source =
      (find isFile globalDirectory project explicit).source) :
    find isFile' globalDirectory project explicit =
      find isFile globalDirectory project explicit :=
  calc find isFile' globalDirectory project explicit
    _ = ⟨_, foundLog _⟩ := find_eq_source_log isFile' globalDirectory project explicit
    _ = ⟨_, foundLog _⟩ := by rw [same]
    _ = find isFile globalDirectory project explicit :=
      (find_eq_source_log isFile globalDirectory project explicit).symm

/-- Loading reads the file of the source and nothing else. -/
theorem load_congr (kept : ∀ p, source.path? = some p → other p = view p) :
    source.load other = source.load view := by
  unfold Source.load
  split
  · rfl
  · next path isPath => rw [Settings.ofFile, Settings.ofFile, kept path isPath]

theorem fromUTF8?_eq_some_iff {content : ByteArray} {text : String} :
    String.fromUTF8? content = some text ↔ text.toUTF8 = content := by
  unfold String.fromUTF8?
  constructor
  · intro read
    split at read
    · obtain rfl := Option.some.inj read
      rfl
    · contradiction
  · rintro rfl
    exact dif_pos text.isValidUTF8

inductive Yields (file : Path) (content : ByteArray) : Except LoadError Settings → Prop
  | settings {text : String} {s : Settings} : text.toUTF8 = content → Settings.parse text = .ok s →
      Yields file content (.ok s)
  | unparsable {text : String} {e : ParseError} : text.toUTF8 = content →
      Settings.parse text = .error e → Yields file content (.error ⟨file, .unparsable e⟩)
  | notUnicode : (∀ text : String, text.toUTF8 ≠ content) →
      Yields file content (.error ⟨file, .unreadable file .notUnicode⟩)

theorem ofFile_of_text {text : String} {content : ByteArray} (there : view file = .file content)
    (decoded : text.toUTF8 = content) :
    Settings.ofFile view file = (Settings.parse text).mapError .unparsable := by
  simp only [Settings.ofFile, there, Sight.text, fromUTF8?_eq_some_iff.mpr decoded]

theorem ofFile_of_notUnicode {content : ByteArray} (there : view file = .file content)
    (undecoded : ∀ text : String, text.toUTF8 ≠ content) :
    Settings.ofFile view file = .error (.unreadable file .notUnicode) := by
  have unread : String.fromUTF8? content = none :=
    Option.eq_none_iff_forall_ne_some.mpr fun text read =>
      undecoded text (fromUTF8?_eq_some_iff.mp read)
  simp only [Settings.ofFile, there, Sight.text, unread]

theorem load_of_path (reads : source.path? = some file) :
    source.load view = (Settings.ofFile view file).mapError (⟨file, ·⟩) := by
  simp only [Source.load, reads]

theorem load_of_yields {content : ByteArray} {r : Except LoadError Settings}
    (reads : source.path? = some file) (there : view file = .file content)
    (yields : Yields file content r) : source.load view = r := by
  rw [load_of_path reads]
  cases yields with
  | settings decoded parsed =>
    rw [ofFile_of_text there decoded, parsed]
    rfl
  | unparsable decoded refused =>
    rw [ofFile_of_text there decoded, refused]
    rfl
  | notUnicode undecoded =>
    rw [ofFile_of_notUnicode there undecoded]
    rfl

theorem exists_yields (file : Path) (content : ByteArray) : ∃ r, Yields file content r := by
  by_cases unicode : ∃ text : String, text.toUTF8 = content
  · obtain ⟨text, decoded⟩ := unicode
    cases parsed : Settings.parse text with
    | ok s => exact ⟨_, .settings decoded parsed⟩
    | error e => exact ⟨_, .unparsable decoded parsed⟩
  · exact ⟨_, .notUnicode (not_exists.mp unicode)⟩

theorem load_eq_iff_yields {content : ByteArray} {r : Except LoadError Settings}
    (reads : source.path? = some file) (there : view file = .file content) :
    source.load view = r ↔ Yields file content r := by
  refine ⟨fun loaded => ?_, load_of_yields reads there⟩
  obtain ⟨r', yields⟩ := exists_yields file content
  rwa [← loaded, load_of_yields reads there yields]

/-- A file that was found, and not named by the user, is a file. -/
theorem Selects.isFile_of_found (selected : Selects isFile env project explicit source)
    (found : source = .project file ∨ source = .global file) : isFile file = true := by
  cases selected with
  | explicit => simp at found
  | project given first =>
    obtain ⟨before, after, split, there, skipped⟩ := first
    obtain rfl : _ = file := by simpa using found
    exact there
  | global given absent candidate there =>
    obtain rfl : _ = file := by simpa using found
    exact there
  | builtIn => simp at found

theorem exists_content_of_isFile (isFile : (view file).isFile = true) :
    ∃ content, view file = .file content := by
  cases seen : view file with
  | file content => exact ⟨content, rfl⟩
  | directory | missing | notDirectory => simp [seen, Sight.isFile] at isFile

/-- Settings load alike from two file systems that agree on the selected file and on which
candidates before it are files. A file that was found yields what its bytes say, or the error
in them. -/
theorem load_eq_of_agrees
    (agrees : ∀ p ∈ preferred env project (load view env project explicit).source,
      (other p).isFile = (view p).isFile)
    (kept : ∀ p, (load view env project explicit).source.path? = some p → other p = view p) :
    let loaded := load view env project explicit
    load other env project explicit = loaded ∧
      (loaded.source = .builtIn → loaded.settings = .ok {}) ∧
      ∀ file, loaded.source = .project file ∨ loaded.source = .global file →
        ∃ content, view file = .file content ∧
          (∀ r, loaded.settings = r ↔ Yields file content r) ∧
          ∀ e path reason, loaded.settings = .error e → e.cause = .unreadable path reason →
            reason = .notUnicode := by
  have selected := selects_find (fun p => (view p).isFile) env project explicit
  refine ⟨?_, ?_, fun file found => ?_⟩
  · -- the same source is selected, and its file loads alike
    have again : Selects (fun p => (other p).isFile) env project explicit
        (load view env project explicit).source :=
      selected.of_agrees agrees fun p isPath => congrArg Sight.isFile (kept p isPath)
    have same := find_eq_of_source_eq (find_source_of_selects again)
    have loads := load_congr kept
    unfold load at loads ⊢
    simp only [same, loads]
  · intro builtIn
    have loads : (load view env project explicit).settings =
        (load view env project explicit).source.load view := rfl
    rw [loads, builtIn]
    rfl
  · obtain ⟨content, there⟩ := exists_content_of_isFile (selected.isFile_of_found found)
    have reads : (load view env project explicit).source.path? = some file := by
      rcases found with found | found <;> rw [found] <;> rfl
    refine ⟨content, there, fun r => load_eq_iff_yields reads there, fun e path reason => ?_⟩
    intro failed cause
    have yields := (load_eq_iff_yields reads there).mp failed
    cases yields with
    | unparsable => contradiction
    | notUnicode => exact (FileError.unreadable.inj cause).2.symm

theorem ancestors_below : (Path.ofString "w").ancestors = [.ofString "w", .ofString ""] := by
  rw [Path.ancestors_of_parent?_eq_some (q := .ofString "") (by decide),
    Path.ancestors_of_parent?_eq_none (by decide)]

/-- A dotted file that is no text is an error beside a directory of the plain name, with and
without a good file further up. -/
theorem load_eq_of_agrees_notUnicode :
    let project := Path.ofString "w"
    let file := Path.ofString "w/.class-order.toml"
    let below : FileTree := .directory
      [("class-order.toml", .directory []), (".class-order.toml", .file ⟨#[255]⟩)]
    let view := (FileTree.directory [("w", below), ("class-order.toml", .file .empty)]).view []
    let other := (FileTree.directory [("w", below)]).view []
    let loaded := load view {} project none
    loaded.source = .project file ∧
      (∀ p ∈ preferred {} project loaded.source, (other p).isFile = (view p).isFile) ∧
      (∀ p, loaded.source.path? = some p → other p = view p) ∧
      load other {} project none = loaded ∧
      (loaded.source = .builtIn → loaded.settings = .ok {}) ∧
      ∀ file, loaded.source = .project file ∨ loaded.source = .global file →
        ∃ content, view file = .file content ∧
          (∀ r, loaded.settings = r ↔ Yields file content r) ∧
          ∀ e path reason, loaded.settings = .error e → e.cause = .unreadable path reason →
            reason = .notUnicode := by
  intro project file below view other loaded
  have found : loaded.source = .project file :=
    find_source_of_ancestors ancestors_below (by decide)
  have before : preferred {} project loaded.source = [.ofString "w/class-order.toml"] := by
    rw [found, preferred, candidates, ancestors_below]
    decide
  have agrees : ∀ p ∈ preferred {} project loaded.source, (other p).isFile = (view p).isFile := by
    rw [before]
    decide
  have kept : ∀ p, loaded.source.path? = some p → other p = view p := by
    rw [found]
    rintro p ⟨⟩
    rfl
  exact ⟨found, agrees, kept, load_eq_of_agrees agrees kept⟩

end Discovery

end MemberOrder
