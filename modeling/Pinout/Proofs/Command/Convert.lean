import Pinout.Command.Convert
import Pinout.Proofs.File.Tree
import Pinout.Proofs.Header.Device

/-! The effect of a conversion on the files. A conversion writes one file and may make the
directories on the way to it. Without a path for the header, that file stands beside the
definition or in the output directory, under the name of the definition with the ending of
headers; a definition that has this name itself can be the file that is written. -/

set_option autoImplicit false

namespace Pinout

namespace Project

variable {project : Project} {input : File.Path}

/-- The name of the header of a definition. -/
def headerName (input : File.Path) : String :=
  input.fileStem?.getD "board" ++ ".h"

theorem not_mem_headerName (input : File.Path) : '/' ∉ (headerName input).toList := by
  have ending : '/' ∉ ".h".toList := by decide
  rw [headerName, String.toList_append, List.mem_append, not_or]
  refine ⟨?_, ending⟩
  unfold File.Path.fileStem?
  cases named : input.fileName? with
  | none => decide
  | some name =>
      intro slash
      exact File.Path.not_mem_of_fileName? named (File.Path.mem_of_mem_stem slash)

theorem getLast?_pieces_defaultOutput (project : Project) (input : File.Path) :
    (project.defaultOutput input).pieces.getLast? = some (headerName input) := by
  have free := not_mem_headerName input
  unfold defaultOutput
  dsimp only
  split
  · exact File.Path.getLast?_pieces_join free
  · exact File.Path.getLast?_pieces_withFileName free

end Project

namespace Command.Convert

open File (Location Path Tree)
open File.Tree (remains)

variable {project : Project} {tree : Tree} {request : Request}

/-- A conversion that delivered what it should fails when there are errors. -/
theorem isSome_verdict (examination : Examination) :
    (verdict project request examination).isSome = examination.summary.hasErrors := by
  unfold verdict
  dsimp only
  cases examination.summary.hasErrors with
  | false => rfl
  | true =>
      rw [if_neg (by decide)]
      split
      · rfl
      · rfl

/-- Only a file is ever examined. -/
theorem exists_file_of_examine {examination : Examination}
    (examined : examine project tree request = .ok examination) :
    ∃ place content, tree.locate request.input = .ok (place, .file content) := by
  have readable : tree.isFile request.input = true := by
    cases readable : tree.isFile request.input with
    | true => rfl
    | false =>
        unfold examine at examined
        dsimp only at examined
        rw [readable] at examined
        cases examined
  unfold Tree.isFile at readable
  split at readable
  · rename_i place content found
    exact ⟨place, content, found⟩
  · cases readable

/-- A conversion leaves the files alone, or it has examined its input and delivered. -/
theorem tree_run_cases (project : Project) (tree : Tree) (request : Request) :
    (run project tree request).tree = tree ∨
      ∃ examination, examine project tree request = .ok examination ∧
        (run project tree request).tree = remains (tree.deliver (outputOf project request)
          (headerOf request examination)) := by
  unfold run
  split
  · exact .inl rfl
  · cases examined : examine project tree request with
    | error refusal => exact .inl rfl
    | ok examination =>
        have choice : deliver project tree request examination = .ok tree ∨
            deliver project tree request examination =
              tree.deliver (outputOf project request) (headerOf request examination) := by
          unfold deliver
          split
          · exact .inr rfl
          · exact .inl rfl
        dsimp only
        rcases choice with idle | busy
        · rw [idle]
          exact .inl rfl
        · rw [busy]
          refine .inr ⟨examination, rfl, ?_⟩
          cases tree.deliver (outputOf project request) (headerOf request examination) with
          | error stopped => rfl
          | ok written => rfl

/-- A delivery leaves a file alone unless its path leads there; then both paths lead to the
same location, which has the last name of either. -/
theorem locate_remains_deliver {path output : Path} {place : Location} {content : List UInt8}
    (text : String) (found : tree.locate path = .ok (place, .file content)) :
    let later := remains (tree.deliver output text)
    later.locate path = tree.locate path ∨
      ∃ node name, later.locate path = .ok (place, node) ∧ later.locate output = .ok (place, node) ∧
        output.pieces.getLast? = some name ∧ place.getLast? = some name := by
  intro later
  rcases Tree.remains_deliver_cases tree output text with grown | ⟨ready, slot, grown, taken, same⟩
  · exact .inl ((grown.locate found).trans found.symm)
  · have written : later = ready.put slot (.file text.toUTF8.toList) := same
    have before := grown.locate found
    have ⟨_, vacant, _, name, final, ending⟩ := Tree.slot_eq_ok taken
    rw [written]
    by_cases apart : place = slot
    · -- The input itself is written, so that both paths lead to what was written.
      subst apart
      have stands : (ready.put place (.file text.toUTF8.toList)).node? place =
          some (.file text.toUTF8.toList) := by
        rw [Tree.node?_put, if_pos rfl]
      exact .inr ⟨_, name, (Tree.keepsDirectories_put vacant).locate before stands,
        Tree.locate_put_of_slot taken, final, ending⟩
    · exact .inl ((Tree.locate_put_of_ne vacant before apart).trans found.symm)

/-- Without a path for the header, a conversion leaves its input as it was, unless the path of
the header leads to the input itself. For that the input must have the name of its header. -/
theorem locate_input_run (project : Project) (tree : Tree) (request : Request) :
    let later := (run project tree { request with output := none }).tree
    later.locate request.input = tree.locate request.input ∨
      (∃ found, later.locate request.input = .ok found ∧
        later.locate (project.defaultOutput request.input) = .ok found) ∧
      ∀ name, request.input.fileName? = some name → Path.stem name ++ ".h" = name := by
  intro later
  rcases tree_run_cases project tree { request with output := none } with
    idle | ⟨examination, examined, delivered⟩
  · exact .inl (congrArg (fun after => after.locate request.input) idle)
  · obtain ⟨place, content, found⟩ := exists_file_of_examine examined
    have written : later = remains (tree.deliver (project.defaultOutput request.input)
        (headerOf { request with output := none } examination)) := delivered
    rw [written]
    rcases locate_remains_deliver (headerOf { request with output := none } examination) found
      with kept | ⟨node, last, atInput, atOutput, final, ending⟩
    · exact .inl kept
    · refine .inr ⟨⟨_, atInput, atOutput⟩, ?_⟩
      intro name named
      obtain ⟨speaks, forth⟩ := Path.fileName?_eq_some_iff.mp named
      obtain ⟨_, followed, _⟩ := Tree.locate_eq_ok_iff.mp found
      have named_place := Tree.getLast?_of_follow followed speaks forth
      have header := Project.getLast?_pieces_defaultOutput project request.input
      rw [final, ← ending, named_place, Option.some.injEq, Project.headerName,
        Path.fileStem?, named] at header
      exact header.symm

/-! A definition that is named like a header stands where its own header goes. -/

def boardText : String := "resource LED 1 C13"

def namesakeTree : Tree where
  nodes := [(["b.h"], .file boardText.toUTF8.toList),
    (["tables"], .directory),
    (["tables", "STM32F411"], .directory),
    (["tables", "STM32F411", "PeripheralPins.c"], .file Header.deviceTable.toUTF8.toList)]
  working := []

def namesakeRequest : Request :=
  { input := ⟨"b.h"⟩, mcu := some "STM32F411", tables := some ⟨"tables"⟩ }

/-- The contents of a definition can be lost: nothing keeps its header from taking its place. -/
theorem exists_overwritten_input :
    ∃ project tree request, request.output = none ∧ tree.isFile request.input = true ∧
      (run project tree request).failure = none ∧
      (run project tree request).tree.locate request.input ≠ tree.locate request.input := by
  refine ⟨⟨⟨""⟩, {}⟩, namesakeTree, namesakeRequest, rfl, ?_, ?_, ?_⟩
  · decide +kernel
  · decide +kernel
  · decide +kernel

end Command.Convert

end Pinout
