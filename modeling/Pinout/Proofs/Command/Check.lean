import Pinout.Proofs.Command.Convert
import Pinout.Proofs.Command.Examination
import Pinout.Proofs.Library.Shelf

/-! Validation and conversion agree. Both go through the same stages, one with the library
itself and the other with a shelf of its tables, so they come to the same examination of every
definition or refuse it both. A validation therefore fails for the definitions of which the
conversion fails. The exception is a conversion that overlooks errors and cannot write. -/

set_option autoImplicit false

namespace Pinout.Command

open File (Path Tree)
open Library (Shelf)

/-- The examination was refused or found errors. -/
def flawed : Option Examination → Bool
  | none => true
  | some examination => examination.summary.hasErrors

/-! ## Conversions -/

namespace Convert

/-- The conversion comes as far as the delivery of its header, which fails. -/
def stopsAtWriting (project : Project) (tree : Tree) (request : Request) : Bool :=
  match Style.ofName? request.report, examine project tree request with
  | some _, .ok examination => !(deliver project tree request examination).isOk
  | _, _ => false

/-- The conversion fails for another reason than the writing of its header. -/
def failsOtherwise (project : Project) (tree : Tree) (request : Request) : Bool :=
  (run project tree request).failure.isSome && !stopsAtWriting project tree request

/-- The header is let through although there are errors. -/
def overlooksErrors (project : Project) (tree : Tree) (request : Request) : Bool :=
  match examine project tree request with
  | .ok examination => examination.summary.hasErrors && writes project request examination
  | .error _ => false

/-- The conversion fails for another reason than the writing of its header, or in writing a
header that is let through although there are errors. -/
def rejects (project : Project) (tree : Tree) (request : Request) : Bool :=
  failsOtherwise project tree request ||
    (stopsAtWriting project tree request && overlooksErrors project tree request)

variable {project : Project} {tree : Tree} {request : Request}

theorem writes_of_stopped {examination : Examination} {fault : File.DeliveryFault × Tree}
    (stopped : deliver project tree request examination = .error fault) :
    writes project request examination = true := by
  cases idle : writes project request examination with
  | true => rfl
  | false =>
      rw [deliver, if_neg (by simp [idle])] at stopped
      cases stopped

theorem rejects_eq_flawed (request : Request) (known : Style.ofName? request.report ≠ none) :
    rejects project tree request = flawed (examine project tree request).toOption := by
  obtain ⟨style, styled⟩ := Option.ne_none_iff_exists'.mp known
  unfold rejects failsOtherwise stopsAtWriting overlooksErrors run
  rw [styled]
  cases examine project tree request with
  | error refusal => rfl
  | ok examination =>
      dsimp only [Except.toOption, flawed]
      cases delivered : deliver project tree request examination with
      | ok written =>
          simp [Except.isOk, Except.toBool, isSome_verdict]
      | error stopped =>
          have busy : writes project request examination = true :=
            writes_of_stopped delivered
          simp [Except.isOk, Except.toBool, busy]

end Convert

/-! ## Validations -/

namespace Check

variable {project : Project} {tree : Tree} {mcu : Option String} {library : Library}
  {shelf : Shelf} {inputs : List Path}

theorem fails_eq_flawed (result : Except Refusal Examination) :
    fails result = flawed result.toOption := by
  cases result with
  | error refusal => rfl
  | ok examination => rfl

theorem toOption_examine_of_faithful (faithful : shelf.Faithful library tree) (input : Path) :
    (examine project tree mcu shelf input).1.toOption =
      examination? project tree input mcu fun name => (library.load tree name).toOption := by
  rw [toOption_examine]
  refine congrArg _ (funext fun name => ?_)
  rw [(faithful.get name).1]

theorem faithful_examine (faithful : shelf.Faithful library tree) (input : Path) :
    (examine project tree mcu shelf input).2.Faithful library tree := by
  unfold examine
  cases Manuscript.read project tree input with
  | error fault => exact faithful
  | ok manuscript =>
      dsimp only
      cases manuscript.mcu? mcu with
      | none => exact faithful
      | some name =>
          have kept := (faithful.get name).2
          dsimp only
          generalize shelf.get tree name = got at kept
          obtain ⟨fault | standing, later⟩ := got
          · exact kept
          · exact kept

/-- Whatever was examined before, each definition is examined as if it were the only one. -/
theorem toOption_examineAll (project : Project) (mcu : Option String)
    (faithful : shelf.Faithful library tree) (inputs : List Path) :
    (examineAll project tree mcu shelf inputs).map (fun (_, result) => result.toOption) =
      inputs.map fun input =>
        examination? project tree input mcu fun name => (library.load tree name).toOption := by
  induction inputs generalizing shelf with
  | nil => rfl
  | cons input rest ih =>
      rw [examineAll, List.map_cons, List.map_cons]
      dsimp only
      rw [toOption_examine_of_faithful faithful, ih (faithful_examine faithful input)]

theorem countP_examineAll (faithful : shelf.Faithful library tree) :
    (examineAll project tree mcu shelf inputs).countP (fun (_, result) => fails result) =
      inputs.countP fun input =>
        flawed (examination? project tree input mcu fun name =>
          (library.load tree name).toOption) := by
  have counted := congrArg (List.countP flawed)
    (toOption_examineAll project mcu faithful inputs)
  rw [List.countP_map, List.countP_map] at counted
  simpa only [Function.comp_def, ← fails_eq_flawed] using counted

theorem length_examineAll :
    (examineAll project tree mcu shelf inputs).length = inputs.length := by
  induction inputs generalizing shelf with
  | nil => rfl
  | cons input rest ih => rw [examineAll, List.length_cons, List.length_cons, ih]

/-- A validation fails for as many inputs as conversions with the same options reject, and it
succeeds when they reject none. -/
theorem failure_run (project : Project) (tree : Tree) (inputs : List Path)
    (options : Convert.Request) {library : Library}
    (known : Style.ofName? options.report ≠ none)
    (built : project.library options.tables = .ok library) :
    let outcome := run project tree ⟨inputs, options.mcu, options.tables⟩
    let failed := inputs.countP fun input =>
      Convert.rejects project tree { options with input }
    outcome.failure = (if failed = 0 then none
      else some s!"{failed} of {inputs.length} board definition(s) failed validation") ∧
    (outcome.failure = none ↔
      ∀ input ∈ inputs, Convert.rejects project tree { options with input } = false) := by
  intro outcome failed
  -- The shelf starts empty, and only tables of the library come to stand on it.
  have counted : failed = (examineAll project tree options.mcu (.empty library) inputs).countP
      fun (_, result) => fails result := by
    rw [countP_examineAll (Shelf.faithful_empty library tree)]
    refine List.countP_congr fun input _ => ?_
    rw [Convert.rejects_eq_flawed { options with input } known, Convert.toOption_examine]
    simp only [built, Except.toOption, Option.bind_some]
  have failure : outcome.failure = if failed = 0 then none
      else some s!"{failed} of {inputs.length} board definition(s) failed validation" := by
    rw [counted]
    unfold outcome run
    rw [built]
    dsimp only
    rw [length_examineAll]
    split
    · rfl
    · rfl
  refine ⟨failure, ?_⟩
  rw [failure, ite_eq_left_iff]
  simp [failed, List.countP_eq_zero]

/-! A definition with an error, beside a directory that has the name of its header. -/

def faultyText : String := "resource MOTOR 1 C13"

def barredTree : Tree where
  nodes := [(["b.config"], .file faultyText.toUTF8.toList),
    (["b.h"], .directory),
    (["tables"], .directory),
    (["tables", "STM32F411"], .directory),
    (["tables", "STM32F411", "PeripheralPins.c"], .file Header.deviceTable.toUTF8.toList)]
  working := []

def lenientProject : Project := ⟨⟨""⟩, { force := true }⟩

def faultyRequest : Convert.Request :=
  { input := ⟨"b.config"⟩, mcu := some "STM32F411", tables := some ⟨"tables"⟩ }

theorem failure_run_faulty :
    Style.ofName? faultyRequest.report ≠ none ∧
      lenientProject.library faultyRequest.tables = .ok (.atRoot ⟨"tables"⟩) ∧
      (run lenientProject barredTree ⟨[⟨"b.config"⟩, ⟨"c.config"⟩], faultyRequest.mcu,
          faultyRequest.tables⟩).failure =
        some "2 of 2 board definition(s) failed validation" := by
  refine ⟨by decide, rfl, ?_⟩
  rw [(failure_run lenientProject barredTree [⟨"b.config"⟩, ⟨"c.config"⟩] faultyRequest
    (by decide) rfl).1]
  decide +kernel

/-- A definition with errors is counted by a validation even when its conversion fails for no
other reason than the writing of its header. -/
theorem exists_uncounted :
    ∃ (project : Project) (tree : Tree) (inputs : List Path) (options : Convert.Request)
      (library : Library), Style.ofName? options.report ≠ none ∧
      project.library options.tables = .ok library ∧
      (inputs.countP fun input =>
        Convert.failsOtherwise project tree { options with input }) = 0 ∧
      (run project tree ⟨inputs, options.mcu, options.tables⟩).failure =
        some "1 of 1 board definition(s) failed validation" := by
  refine ⟨lenientProject, barredTree, [⟨"b.config"⟩], faultyRequest, .atRoot ⟨"tables"⟩,
    by decide, rfl, ?_, ?_⟩
  · decide +kernel
  · decide +kernel

end Check

end Pinout.Command
