import Pinout.Proofs.Command.Convert
import Pinout.Proofs.Command.Examination

/-! What bars a conversion, and what it does when nothing bars it. Everything that can go wrong
before the header is written leaves the files alone. After that the header is the only file
that changes, and the conversion succeeds exactly when the header is in place and nothing that
was found is an error. -/

set_option autoImplicit false

namespace Pinout.Command.Convert

open File (Location Path Tree)

def mcu? (project : Project) (request : Request) (text : String) : Option String :=
  request.mcu <|> (Board.parse project.configuration.policy text).board.metadata.mcu

/-- The examination is that of the text that the input holds, against the table that the
library has for the microcontroller of the conversion. -/
structure Examined (project : Project) (tree : Tree) (request : Request)
    (examination : Examination) : Prop where
  read : tree.readText request.input = .ok examination.text
  table : ∃ mcu library, mcu? project request examination.text = some mcu ∧
    project.library request.tables = .ok library ∧
      library.load tree mcu = .ok examination.loaded
  definition : examination.definition =
    (Board.parse project.configuration.policy examination.text).board
  board : examination.board =
    (Resolution.resolve examination.definition examination.loaded.table {}).board
  diagnostics : examination.diagnostics =
    (Board.parse project.configuration.policy examination.text).diagnostics ++
      (Resolution.resolve examination.definition examination.loaded.table {}).diagnostics

/-- Why a conversion comes to nothing. -/
inductive Barred (project : Project) (tree : Tree) (request : Request) : Prop where
  | unknownReport (unknown : Style.ofName? request.report = none)
  | missing (absent : tree.isFile request.input = false)
  | unreadable (fault : File.Fault) (failed : tree.readText request.input = .error fault)
  | unnamedMcu (text : String) (read : tree.readText request.input = .ok text)
      (unnamed : mcu? project request text = none)
  | noLibrary (fault : Project.NameFault) (failed : project.library request.tables = .error fault)
  | noTable (text mcu : String) (library : Library) (fault : Library.Fault)
      (read : tree.readText request.input = .ok text)
      (named : mcu? project request text = some mcu)
      (built : project.library request.tables = .ok library)
      (failed : library.load tree mcu = .error fault)
  | errors (examination : Examination) (examined : Examined project tree request examination)
      (found : ∃ diagnostic ∈ examination.diagnostics, diagnostic.severity = .error)
      (kept : request.force = false ∧ project.configuration.force = false)

section Examining

variable {project : Project} {tree : Tree} {request : Request} {examination : Examination}

theorem examine_eq_ok_iff :
    examine project tree request = .ok examination ↔
      Examined project tree request examination := by
  rw [← toOption_eq_some_iff, toOption_examine, examination?_eq_some_iff]
  constructor
  · rintro ⟨text, mcu, loaded, read, named, stands, rfl⟩
    obtain ⟨library, built, given⟩ := Option.bind_eq_some_iff.mp stands
    rw [toOption_eq_some_iff] at built given
    exact ⟨read, ⟨mcu, library, named, built, given⟩, rfl, rfl, rfl⟩
  · intro examined
    obtain ⟨mcu, library, named, built, given⟩ := examined.table
    refine ⟨examination.text, mcu, examination.loaded, examined.read, named, ?_, ?_⟩
    · rw [← toOption_eq_some_iff] at built given
      exact Option.bind_eq_some_iff.mpr ⟨library, built, given⟩
    · obtain ⟨text, definition, loaded, board, diagnostics⟩ := examination
      obtain ⟨_, _, rightDefinition, rightBoard, rightDiagnostics⟩ := examined
      dsimp only at rightDefinition rightBoard rightDiagnostics
      subst rightDefinition rightBoard rightDiagnostics
      rfl

theorem hasErrors_iff : examination.summary.hasErrors = true ↔
    ∃ diagnostic ∈ examination.diagnostics, diagnostic.severity = .error := by
  simp [Examination.summary, Diagnostic.hasErrors_summarize, Diagnostic.isError]

/-- A conversion is barred when its style is unknown, when the examination is refused, or when
it found errors that nobody chose to overlook. -/
theorem barred_iff : Barred project tree request ↔
    Style.ofName? request.report = none ∨
      (∃ refusal, examine project tree request = .error refusal) ∨
      ∃ examination, examine project tree request = .ok examination ∧
        writes project request examination = false := by
  have unread (stuck : ∀ examination, ¬ Examined project tree request examination) :
      ∃ refusal, examine project tree request = .error refusal := by
    cases result : examine project tree request with
    | error refusal => exact ⟨refusal, rfl⟩
    | ok examination => exact absurd (examine_eq_ok_iff.mp result) (stuck examination)
  constructor
  · -- Each bar contradicts the stage of an examination that it stands for.
    intro barred
    cases barred with
    | unknownReport unknown => exact .inl unknown
    | missing absent =>
        refine .inr (.inl (unread fun examination examined => ?_))
        cases absent.symm.trans (Tree.isFile_of_readText examined.read)
    | unreadable fault failed =>
        refine .inr (.inl (unread fun examination examined => ?_))
        cases failed.symm.trans examined.read
    | unnamedMcu text read unnamed =>
        refine .inr (.inl (unread fun examination examined => ?_))
        cases read.symm.trans examined.read
        obtain ⟨mcu, _, named, _⟩ := examined.table
        cases unnamed.symm.trans named
    | noLibrary fault failed =>
        refine .inr (.inl (unread fun examination examined => ?_))
        obtain ⟨_, library, _, built, _⟩ := examined.table
        cases failed.symm.trans built
    | noTable text mcu library fault read named built failed =>
        refine .inr (.inl (unread fun examination examined => ?_))
        cases read.symm.trans examined.read
        obtain ⟨_, _, same, again, loaded⟩ := examined.table
        cases named.symm.trans same
        cases built.symm.trans again
        cases failed.symm.trans loaded
    | errors examination examined found kept =>
        refine .inr (.inr ⟨examination, examine_eq_ok_iff.mpr examined, ?_⟩)
        rw [writes, hasErrors_iff.mpr found, kept.1, kept.2]
        rfl
  · rintro (unknown | ⟨refusal, refused⟩ | ⟨examination, examined, idle⟩)
    · exact .unknownReport unknown
    · cases read : tree.readText request.input with
      | error fault => exact .unreadable fault read
      | ok text =>
        cases named : mcu? project request text with
        | none => exact .unnamedMcu text read named
        | some mcu =>
          cases built : project.library request.tables with
          | error fault => exact .noLibrary fault built
          | ok library =>
            cases given : library.load tree mcu with
            | error fault => exact .noTable text mcu library fault read named built given
            | ok loaded =>
              have examined : Examined project tree request
                  (.of text (Board.parse project.configuration.policy text) loaded) :=
                ⟨read, ⟨mcu, library, named, built, given⟩, rfl, rfl, rfl⟩
              cases refused.symm.trans (examine_eq_ok_iff.mpr examined)
    · simp only [writes, Bool.or_eq_false_iff, Bool.not_eq_false'] at idle
      obtain ⟨⟨errors, unforced⟩, configured⟩ := idle
      exact .errors examination (examine_eq_ok_iff.mp examined)
        (hasErrors_iff.mp errors) ⟨unforced, configured⟩

end Examining

/-! ## Runs -/

/-- The files after a header was delivered. Each one is as it was, or the path of the header
leads to it and it holds the header; new directories stand on the way there. -/
structure Delivers (tree later : Tree) (output : Path) (header : String) : Prop where
  files : ∀ location content,
    tree.node? location = some (.file content) ∨ later.node? location = some (.file content) →
      later.node? location = tree.node? location ∨
        later.locate output = .ok (location, .file header.toUTF8.toList)
  kept : ∀ location, tree.node? location = some .directory →
    later.node? location = some .directory
  made : ∀ location, later.node? location = some .directory →
    tree.node? location = some .directory ∨
      ∃ path ∈ output.above, later.locate path = .ok (location, .directory)

/-- What a conversion does that nothing bars. -/
structure Converts (tree : Tree) (output : Path) (header : String)
    (diagnostics : List Diagnostic) (outcome : Outcome) : Prop where
  delivers : Delivers tree outcome.tree output header
  written : ∀ written, tree.deliver output header = .ok written →
    outcome.tree = written ∧
      (∃ location, written.locate output = .ok (location, .file header.toUTF8.toList)) ∧
      (outcome.failure = none ↔ ∀ diagnostic ∈ diagnostics, diagnostic.severity ≠ .error)
  stopped : ∀ fault left, tree.deliver output header = .error (fault, left) →
    outcome.tree = left ∧ outcome.failure ≠ none

section Running

variable {tree later : Tree} {output : Path} {header : String} {paths : List Path}

theorem node?_eq_of_extended (extended : Tree.ExtendedAlong tree later paths)
    {location : Location} {content : List UInt8}
    (stood : tree.node? location = some (.file content) ∨
      later.node? location = some (.file content)) :
    later.node? location = tree.node? location := by
  rcases extended.new location with same | ⟨path, _, found⟩
  · exact same
  · have directory := (Tree.locate_eq_ok_iff.mp found).2.2
    rcases stood with before | after
    · rw [extended.grown.nodes location _ before, before]
    · cases directory.symm.trans after

theorem delivers_of_extended (extended : Tree.ExtendedAlong tree later output.above) :
    Delivers tree later output header where
  files := fun _ _ stood => .inl (node?_eq_of_extended extended stood)
  kept := fun location => extended.grown.nodes location .directory
  made := by
    intro location found
    exact (extended.new location).imp_left fun same => same.symm.trans found

theorem delivers_put {place : Location} (extended : Tree.ExtendedAlong tree later output.above)
    (found : later.slot output = .ok place) :
    Delivers tree (later.put place (.file header.toUTF8.toList)) output header := by
  have ⟨_, vacant, _⟩ := Tree.slot_eq_ok found
  constructor
  case files =>
    intro location content stood
    by_cases same : location = place
    · subst same
      exact .inr (Tree.locate_put_of_slot found)
    · rw [Tree.node?_put, if_neg same] at stood ⊢
      exact .inl (node?_eq_of_extended extended stood)
  case kept =>
    intro location directory
    exact (Tree.keepsDirectories_put vacant).directories location
      (extended.grown.nodes location _ directory)
  case made =>
    intro location directory
    have apart : location ≠ place := by
      rintro rfl
      rw [Tree.node?_put, if_pos rfl] at directory
      cases directory
    rw [Tree.node?_put, if_neg apart] at directory
    refine (extended.new location).imp (fun same => same.symm.trans directory) ?_
    rintro ⟨path, member, led⟩
    exact ⟨path, member, Tree.locate_put_of_ne vacant led apart⟩

variable {project : Project} {request : Request} {examination : Examination} {style : Style}

theorem verdict_eq_none_iff : verdict project request examination = none ↔
    ∀ diagnostic ∈ examination.diagnostics, diagnostic.severity ≠ .error := by
  rw [← Option.not_isSome_iff_eq_none, isSome_verdict, hasErrors_iff]
  simp

theorem run_of_unknown (unknown : Style.ofName? request.report = none) :
    (run project tree request).failure ≠ none ∧ (run project tree request).tree = tree := by
  rw [run, unknown]
  exact ⟨Option.some_ne_none _, rfl⟩

theorem run_of_refused {refusal : Refusal}
    (refused : examine project tree request = .error refusal) :
    (run project tree request).failure ≠ none ∧ (run project tree request).tree = tree := by
  cases styled : Style.ofName? request.report with
  | none => exact run_of_unknown styled
  | some style =>
      rw [run, styled, refused]
      exact ⟨Option.some_ne_none _, rfl⟩

theorem run_of_examined (styled : Style.ofName? request.report = some style)
    (examined : examine project tree request = .ok examination) :
    match deliver project tree request examination with
    | .error (_, left) =>
      (run project tree request).failure ≠ none ∧ (run project tree request).tree = left
    | .ok written =>
      (run project tree request).failure = verdict project request examination ∧
        (run project tree request).tree = written := by
  rw [run, styled, examined]
  dsimp only
  cases deliver project tree request examination with
  | error stopped => exact ⟨Option.some_ne_none _, rfl⟩
  | ok written => exact ⟨rfl, rfl⟩

theorem converts_run (styled : Style.ofName? request.report = some style)
    (examined : examine project tree request = .ok examination)
    (busy : writes project request examination = true) :
    Converts tree (outputOf project request) (headerOf request examination)
      examination.diagnostics (run project tree request) := by
  have ran := run_of_examined styled examined
  rw [deliver, if_pos busy] at ran
  cases delivered : tree.deliver (outputOf project request) (headerOf request examination) with
  | error stopped =>
      obtain ⟨fault, left⟩ := stopped
      rw [delivered] at ran
      obtain ⟨failed, remaining⟩ := ran
      refine ⟨?_, by simp [delivered], ?_⟩
      · rw [remaining]
        exact delivers_of_extended (Tree.deliver_eq_error delivered)
      · intro other rest same
        cases delivered.symm.trans same
        exact ⟨remaining, failed⟩
  | ok written =>
      rw [delivered] at ran
      obtain ⟨judged, remaining⟩ := ran
      obtain ⟨ready, place, extended, found, rfl⟩ := Tree.deliver_eq_ok delivered
      refine ⟨?_, ?_, by simp [delivered]⟩
      · rw [remaining]
        exact delivers_put extended found
      · intro other same
        cases delivered.symm.trans same
        refine ⟨remaining, ⟨place, Tree.locate_put_of_slot found⟩, ?_⟩
        rw [judged, verdict_eq_none_iff]

end Running

/-- A conversion is all or nothing. What bars it leaves the files as they were and makes it fail;
otherwise the header of the board that was examined, with the name of the input and the digest of
what was read at its head, is delivered to the path that was asked for or to the usual one, and
the conversion succeeds exactly when this does and no finding is an error. -/
theorem allOrNothing_run (project : Project) (tree : Tree) (request : Request) :
    let outcome := run project tree request
    (Barred project tree request → outcome.failure ≠ none ∧ outcome.tree = tree) ∧
      (¬ Barred project tree request → ∃ examination, Examined project tree request examination ∧
        Converts tree (request.output.getD (project.defaultOutput request.input))
          (Header.generate examination.board {
            source := request.input.fileName?
            digest := some (Digest.ofParts
              [examination.text.toUTF8.toList, examination.loaded.digest]) })
          examination.diagnostics outcome) := by
  intro outcome
  rw [barred_iff]
  constructor
  · rintro (unknown | ⟨refusal, refused⟩ | ⟨examination, examined, idle⟩)
    · exact run_of_unknown unknown
    · exact run_of_refused refused
    · cases styled : Style.ofName? request.report with
      | none => exact run_of_unknown styled
      | some style =>
          have ran := run_of_examined styled examined
          rw [deliver, if_neg (by simp [idle])] at ran
          refine ⟨?_, ran.2⟩
          have errors : examination.summary.hasErrors = true := by
            cases found : examination.summary.hasErrors with
            | true => rfl
            | false => simp [writes, found] at idle
          rw [ran.1, ne_eq, verdict_eq_none_iff, not_forall]
          simpa using hasErrors_iff.mp errors
  · intro free
    rw [not_or, not_or] at free
    obtain ⟨known, accepted, busy⟩ := free
    obtain ⟨style, styled⟩ := Option.ne_none_iff_exists'.mp known
    cases examined : examine project tree request with
    | error refusal => exact absurd ⟨refusal, examined⟩ accepted
    | ok examination =>
        refine ⟨examination, examine_eq_ok_iff.mp examined, converts_run styled examined ?_⟩
        cases written : writes project request examination with
        | true => rfl
        | false => exact absurd ⟨examination, examined, written⟩ busy

end Pinout.Command.Convert
