import Pinout.Capability.Reading
import Pinout.Proofs.Board.Latest
import Pinout.Proofs.Resolution.Findings

/-! Description never feeds resolution. A definition has a bare form without hints, kept
statements, metadata, resources outside the model and advice. Every pass makes of a
definition what it makes of the bare form; only the warnings about advice tell them
apart. -/

set_option autoImplicit false

namespace Pinout

namespace Board

/-- What resolution goes by. -/
def Definition.bare (board : Definition) : Definition where
  resources := board.modeled
  timers := board.timers.map Timer.bare
  settings := board.settings
  hints := ⟨[]⟩
  verbatim := []
  metadata := {}

namespace Definition

variable (board : Definition)

theorem modeled_bare : board.bare.modeled = board.modeled := by
  simp only [modeled, bare, List.filter_filter, Bool.and_self]

theorem resourcesOf_bare {resource : Resource} (modeled : resource.isModeled = true) :
    board.bare.resourcesOf resource = board.resourcesOf resource := by
  simp only [resourcesOf, bare, Definition.modeled, List.filter_filter]
  apply List.filter_congr
  intro assignment _
  by_cases same : assignment.id.resource = resource
  · simp [same, modeled]
  · simp [same]

theorem timerFor?_bare (pin : Pin) :
    board.bare.timerFor? pin = (board.timerFor? pin).map Timer.bare := by
  simp only [timerFor?, bare, List.find?_map]
  rfl

end Definition

end Board

namespace Resolution

open Board (Assignment Definition Timer)
open Capability (Entry Table)

variable (board : Definition) (table : Table)

/-! ## Buses -/

theorem members_bare (bus : BusId) : members board.bare bus = members board bus := by
  simp only [members, Definition.bare, Definition.modeled, List.filterMap_filter]
  apply List.filterMap_congr
  intro assignment _
  cases carries : assignment.id.resource <;>
    simp [busSignal?, carries, Resource.isModeled]

theorem declaredBuses_bare : declaredBuses board.bare = declaredBuses board := by
  simp only [declaredBuses, members_bare]

theorem wantedSelector_bare : wantedSelector board.bare = wantedSelector board := rfl

theorem placeMember_bare : placeMember board.bare table = placeMember board table := rfl

theorem resolveBuses_bare : resolveBuses board.bare table = resolveBuses board table := by
  have same : resolveBus? board.bare table = resolveBus? board table := by
    funext bus
    simp only [resolveBus?, placedMembers, members_bare, placeMember_bare, wantedSelector_bare]
  rw [resolveBuses, declaredBuses_bare, same, resolveBuses]

theorem refusedMembers_bare :
    refusedMembers board.bare table = refusedMembers board table := by
  funext bus
  simp only [refusedMembers, members_bare, placeMember_bare]

theorem busIssues_bare : busIssues board.bare table = busIssues board table := by
  have override : overrideIssue? board.bare = overrideIssue? board := rfl
  funext bus
  simp only [busIssues, override, refusedMembers_bare, incompleteIssue?, missingSignals,
    members_bare]

/-! ## Timed outputs -/

theorem outputs_bare : outputs board.bare = outputs board := by
  simp only [outputs]
  refine List.flatMap_congr fun family _ => ?_
  rw [board.resourcesOf_bare rfl]

theorem placeOutputOf_bare : placeOutputOf board.bare table = placeOutputOf board table := by
  funext source
  simp only [placeOutputOf, board.timerFor?_bare]
  cases board.timerFor? source.pin <;> rfl

theorem placedOutputs_bare : placedOutputs board.bare table = placedOutputs board table := by
  simp only [placedOutputs, outputs_bare, placeOutputOf_bare]

/-! ## Single roles -/

theorem roleAssignments_bare : roleAssignments board.bare = roleAssignments board := by
  simp only [roleAssignments, Definition.bare, Definition.modeled, List.filterMap_filter]
  apply List.filterMap_congr
  intro assignment _
  cases carries : assignment.id.resource <;> simp [Resource.isModeled]

/-! ## The whole board -/

theorem resolvedBoard_bare (options : Options) :
    resolvedBoard board.bare table options =
      { resolvedBoard board table options with definition := board.bare } := by
  have timings : timingsOf board.bare options = timingsOf board options := rfl
  simp only [resolvedBoard, resolveBuses_bare, placedOutputs_bare, placedRoles, refusedRoles,
    roleAssignments_bare, timings, refusedBusResources, declaredBuses_bare,
    refusedMembers_bare, refusedOutputs, outputs_bare, placeOutputOf_bare]

/-! ## Findings -/

/-- Is the finding a warning about advice? -/
def isAdvice (diagnostic : Diagnostic) : Bool :=
  diagnostic.severity = .warning ∧ diagnostic.finding = .advisoryMismatch

def withoutAdvice (diagnostics : List Diagnostic) : List Diagnostic :=
  diagnostics.filter fun diagnostic => !isAdvice diagnostic

theorem withoutAdvice_append (left right : List Diagnostic) :
    withoutAdvice (left ++ right) = withoutAdvice left ++ withoutAdvice right :=
  List.filter_append left right

theorem withoutAdvice_advisoryIssue? (source : Assignment) (entry : Entry) :
    withoutAdvice (advisoryIssue? board source entry).toList = [] := by
  refine List.filter_eq_nil_iff.mpr fun diagnostic member => ?_
  obtain ⟨warning, advice⟩ := advisoryIssue?_kind (Option.mem_toList.mp member)
  simp [isAdvice, warning, advice]

theorem withoutAdvice_outputIssues (source : Assignment) :
    withoutAdvice (outputIssues board.bare table source) =
      withoutAdvice (outputIssues board table source) := by
  rw [outputIssues, outputIssues, placeOutputOf_bare]
  cases placeOutputOf board table source with
  | ok entry => rw [withoutAdvice_advisoryIssue?, withoutAdvice_advisoryIssue?]
  | error refusal => rfl

theorem withoutAdvice_outputs :
    withoutAdvice ((outputs board.bare).flatMap (outputIssues board.bare table)) =
      withoutAdvice ((outputs board).flatMap (outputIssues board table)) := by
  rw [outputs_bare, withoutAdvice, withoutAdvice, List.filter_flatMap, List.filter_flatMap]
  exact List.flatMap_congr fun source _ => withoutAdvice_outputIssues board table source

theorem withoutAdvice_findings (options : Options) :
    withoutAdvice (findings board.bare table options) =
      withoutAdvice (findings board table options) := by
  have devices : deviceIssues board.bare = deviceIssues board := rfl
  have rates (origin : RateSource) : origin.issues board.bare = origin.issues board := rfl
  have pins : sharedPin? board.bare = sharedPin? board := by
    funext pin
    simp only [sharedPin?, pinClaims, board.modeled_bare]
  simp only [findings, withoutAdvice_append, resolvedBoard_bare, declaredBuses_bare,
    busIssues_bare, devices, rates, withoutAdvice_outputs, roleAssignments_bare, sharedPins,
    pins]

/-- Two definitions with the same modeled resources, the same timer functions and the
same settings are resolved in the same way, and the same is found in them but for the
warnings about advice. -/
theorem undescribed_resolve (table : Table) (options : Options) {left right : Definition}
    (resources : left.modeled = right.modeled)
    (timers : left.timers.map Timer.bare = right.timers.map Timer.bare)
    (settings : left.settings = right.settings) :
    let first := resolve left table options
    let second := resolve right table options
    first.board.buses = second.board.buses ∧ first.board.banks = second.board.banks ∧
      first.board.roles = second.board.roles ∧ first.board.timings = second.board.timings ∧
      first.board.dropped = second.board.dropped ∧
      withoutAdvice first.diagnostics = withoutAdvice second.diagnostics := by
  have bare : left.bare = right.bare := by
    simp only [Definition.bare, resources, timers, settings]
  have boards := resolvedBoard_bare left table options
  have issues := withoutAdvice_findings left table options
  rw [bare, resolvedBoard_bare right table options, Resolved.mk.injEq] at boards
  rw [bare, withoutAdvice_findings right table options] at issues
  obtain ⟨_, _, buses, banks, roles, timings, dropped⟩ := boards
  exact ⟨buses.symm, banks.symm, roles.symm, timings.symm, dropped.symm, issues.symm⟩

def motorBoard : String :=
  "resource MOTOR 1 A08\ntimer A08 AF1"

/-- The same with a note on another timer, a hint, a name and a resource on the same pin
that is outside the model. -/
def notedBoard : String :=
  motorBoard ++ "\n# pin A08: TIM8 CH1\n#define USE_MAX\nboard_name B\nresource PPM 1 A08"

def motorTable : Table :=
  (Capability.parse "F4" ("const PinMap PinMap_TIM[] = \x7b" ++
    "\x7bPA_8, TIM1, STM_PIN_DATA_EXT(STM_MODE_AF_PP, GPIO_PULLUP, GPIO_AF1_TIM1, 1, 0)\x7d" ++
    "\x7d;")).table

theorem undescribed_noted :
    let left := (Board.parse .lastWins motorBoard).board
    let right := (Board.parse .lastWins notedBoard).board
    (left.modeled = right.modeled ∧
      left.timers.map Timer.bare = right.timers.map Timer.bare ∧
      left.settings = right.settings) ∧
    let first := resolve left motorTable {}
    let second := resolve right motorTable {}
    first.board.buses = second.board.buses ∧ first.board.banks = second.board.banks ∧
      first.board.roles = second.board.roles ∧ first.board.timings = second.board.timings ∧
      first.board.dropped = second.board.dropped ∧
      withoutAdvice first.diagnostics = withoutAdvice second.diagnostics := by
  intro left right
  have same : left.modeled = right.modeled ∧
      left.timers.map Timer.bare = right.timers.map Timer.bare ∧
      left.settings = right.settings := by
    decide +kernel
  obtain ⟨resources, timers, settings⟩ := same
  exact ⟨⟨resources, timers, settings⟩,
    undescribed_resolve motorTable {} resources timers settings⟩

end Resolution

end Pinout
