import Pinout.Command.Check
import Pinout.Command.Convert
import Pinout.Proofs.File.Tree

/-! Examinations, stage by stage. A definition is read from its file, its microcontroller is
named and the table of that microcontroller is loaded; the first stage that fails ends the
examination. Both commands that examine definitions go through the same stages. -/

set_option autoImplicit false

namespace Pinout.Command

open File (Path Tree)

/-! ## Results without their faults -/

section Results

variable {ε φ α β : Type} {result : Except ε α}

theorem toOption_eq_some_iff {value : α} :
    result.toOption = some value ↔ result = .ok value := by
  cases result <;> simp [Except.toOption]

@[simp] theorem toOption_throw (fault : ε) : (throw fault : Except ε α).toOption = none := rfl

@[simp] theorem toOption_pure (value : α) : (pure value : Except ε α).toOption = some value := rfl

@[simp] theorem toOption_bind (next : α → Except ε β) :
    (result >>= next).toOption = result.toOption >>= fun value => (next value).toOption := by
  cases result <;> rfl

@[simp] theorem toOption_map (change : α → β) :
    (result.map change).toOption = result.toOption.map change := by
  cases result <;> rfl

@[simp] theorem toOption_mapError (change : ε → φ) :
    (result.mapError change).toOption = result.toOption := by
  cases result <;> rfl

end Results

/-! ## Stages -/

/-- An examination whose stages succeed. What loads a table is a parameter. -/
def examination? (project : Project) (tree : Tree) (input : Path) (mcu : Option String)
    (load? : String → Option Library.Loaded) : Option Examination := do
  let text ← (tree.readText input).toOption
  let parsed := Board.parse project.configuration.policy text
  let name ← mcu <|> parsed.board.metadata.mcu
  let loaded ← load? name
  return .of text parsed loaded

section Stages

variable {project : Project} {tree : Tree} {input : Path} {mcu : Option String}
  {load? : String → Option Library.Loaded}

theorem examination?_eq_some_iff {examination : Examination} :
    examination? project tree input mcu load? = some examination ↔
      ∃ text name loaded, tree.readText input = .ok text ∧
        (mcu <|> (Board.parse project.configuration.policy text).board.metadata.mcu) = some name ∧
        load? name = some loaded ∧
        .of text (Board.parse project.configuration.policy text) loaded = examination := by
  simp only [examination?, Option.bind_eq_bind, Option.bind_eq_some_iff, toOption_eq_some_iff,
    Option.pure_def, Option.some.injEq]
  constructor
  · rintro ⟨text, read, name, named, loaded, stands, same⟩
    exact ⟨text, name, loaded, read, named, stands, same⟩
  · rintro ⟨text, name, loaded, read, named, stands, same⟩
    exact ⟨text, read, name, named, loaded, stands, same⟩

/-- A conversion takes its table from the library of the project. -/
theorem Convert.toOption_examine (request : Convert.Request) :
    (Convert.examine project tree request).toOption =
      examination? project tree request.input request.mcu fun name =>
        (project.library request.tables).toOption.bind fun library =>
          (library.load tree name).toOption := by
  cases readable : tree.isFile request.input with
  | false =>
      have failed : (tree.readText request.input).toOption = none := by
        cases read : tree.readText request.input with
        | error fault => rfl
        | ok text => cases (Tree.isFile_of_readText read).symm.trans readable
      simp [Convert.examine, examination?, readable, failed]
  | true =>
      simp only [Convert.examine, examination?, readable, Manuscript.read, toOption_bind,
        toOption_map, toOption_mapError, Option.bind_eq_bind, Option.bind_map, Bool.not_true,
        Bool.false_eq_true, if_false, Function.comp_def]
      refine congrArg _ (funext fun text => ?_)
      dsimp only [Manuscript.mcu?]
      cases request.mcu <|> (Board.parse project.configuration.policy text).board.metadata.mcu with
      | none => rfl
      | some name =>
          simp only [toOption_bind, toOption_mapError, toOption_pure, Option.bind_eq_bind,
            Option.bind_some, Option.bind_assoc, Option.pure_def]

/-- A validation takes its table from the shelf. -/
theorem Check.toOption_examine (shelf : Library.Shelf) :
    (Check.examine project tree mcu shelf input).1.toOption =
      examination? project tree input mcu fun name =>
        ((shelf.get tree name).1.map Prod.snd).toOption := by
  unfold Check.examine examination? Manuscript.read
  cases read : tree.readText input with
  | error fault => rfl
  | ok text =>
      simp only [Except.map, Except.toOption, Manuscript.mcu?, Option.bind_eq_bind,
        Option.bind_some]
      cases mcu <|> (Board.parse project.configuration.policy text).board.metadata.mcu with
      | none => rfl
      | some name =>
          rw [Option.bind_some]
          dsimp only
          generalize shelf.get tree name = got
          obtain ⟨fault | standing, later⟩ := got
          · rfl
          · rfl

end Stages

end Pinout.Command
