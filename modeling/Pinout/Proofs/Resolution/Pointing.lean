import Pinout.Capability.Reading
import Pinout.Proofs.Board.Soundness
import Pinout.Proofs.Resolution.Accounting

/-! Where findings point. A finding that names a resource and a line takes both from one
assignment, and its pin as well, although many of them have to choose among several claimants.
The finding for a shared pin is the exception: it names the resource of the first claim and the
line of the second. -/

set_option autoImplicit false

namespace Pinout.Resolution

open Board (Assignment Definition Policy)
open Capability (Table)

/-! ## One assignment or two -/

/-- The resource, the line and, where there is one, the pin of a finding are those of one
assignment. -/
def Points (board : Definition) (diagnostic : Diagnostic) : Prop :=
  ∃ source ∈ board.resources, diagnostic.resource = some source.id ∧
    diagnostic.line = some source.line ∧ ∀ pin ∈ diagnostic.pin, pin = source.pin

instance (board : Definition) (diagnostic : Diagnostic) : Decidable (Points board diagnostic) :=
  inferInstanceAs (Decidable (∃ _ ∈ _, _))

/-- The finding is about two claims of a pin and takes its line from the second. -/
structure Straddles (board : Definition) (diagnostic : Diagnostic) (first second : Assignment) :
    Prop where
  claims : ∃ rest, pinClaims board first.pin = first :: second :: rest
  resource : diagnostic.resource = some first.id
  pin : diagnostic.pin = some first.pin
  line : diagnostic.line = some second.line

variable {board : Definition} {table : Table} {options : Options} {diagnostic : Diagnostic}

/-- A finding that points to a placement, if to any, points to its assignment. -/
theorem points_of_pointer {pointer : Option Placement}
    (known : ∀ placement ∈ pointer, placement.source ∈ board.resources)
    (resource : diagnostic.resource = pointer.map Placement.id)
    (pin : diagnostic.pin = pointer.map (·.source.pin))
    (line : diagnostic.line = pointer.map (·.source.line))
    (named : diagnostic.resource.isSome = true) : Points board diagnostic := by
  cases pointer with
  | none =>
      rw [resource] at named
      cases named
  | some placement =>
      refine ⟨placement.source, known placement rfl, resource, line, fun other carried => ?_⟩
      rw [pin] at carried
      exact (Option.some.inj carried).symm

/-! ## Placements stand for assignments -/

theorem source_of_mem_placements {placement : Placement}
    (member : placement ∈ (resolvedBoard board table options).placements) :
    placement.source ∈ board.resources := by
  obtain ⟨source, modeled, placed⟩ := mem_placements_iff.mp member
  rw [source_of_placement? placed]
  exact (mem_modeled_iff.mp modeled).1

theorem source_of_mem_pins {bus : Bus} (resolved : bus ∈ resolveBuses board table)
    {placement : Placement} (pinned : placement ∈ bus.pins) :
    placement.source ∈ board.resources := by
  have among := List.mem_flatMap.mpr ⟨bus, resolved, pinned⟩
  exact @source_of_mem_placements board table {} placement
    (List.mem_append_left _ (List.mem_append_left _ among))

theorem source_of_mem_channels {bank : Bank} (resolved : bank ∈ banksOf (placedOutputs board table))
    {placement : Placement} (driven : placement ∈ bank.channels) :
    placement.source ∈ board.resources := by
  have among := List.mem_flatMap.mpr ⟨bank, resolved, driven⟩
  exact @source_of_mem_placements board table {} placement
    (List.mem_append_left _ (List.mem_append_right _ among))

/-! ## Findings between resources -/

theorem points_of_sharedInstance
    (issue : diagnostic ∈ sharedInstances (resolveBuses board table))
    (named : diagnostic.resource.isSome = true) : Points board diagnostic := by
  obtain ⟨kind, _, found⟩ := List.mem_flatMap.mp issue
  obtain ⟨target, _, shared⟩ := List.mem_filterMap.mp found
  unfold sharedInstance? at shared
  split at shared
  · rename_i first second rest claims
    cases shared
    have resolved : second ∈ resolveBuses board table := by
      refine (List.mem_filter.mp (?_ : second ∈ claimants _ kind target)).1
      rw [claims]
      exact List.mem_cons_of_mem _ List.mem_cons_self
    have known : ∀ placement ∈ second.pins.head?, placement.source ∈ board.resources :=
      fun _ first => source_of_mem_pins resolved (List.mem_of_head? first)
    exact points_of_pointer known rfl rfl rfl named
  · cases shared

theorem points_of_rateConflict {bank : Bank} {timings : Timings}
    (resolved : bank ∈ banksOf (placedOutputs board table))
    (issue : diagnostic ∈ bank.rateConflicts timings)
    (named : diagnostic.resource.isSome = true) : Points board diagnostic := by
  unfold Bank.rateConflicts at issue
  split at issue
  · cases issue
  · obtain ⟨other, _, conflict⟩ := List.mem_filterMap.mp issue
    unfold Bank.rateConflict? at conflict
    dsimp only at conflict
    split at conflict <;> cases conflict
    have known : ∀ placement ∈ (bank.channelsOf other).head?,
        placement.source ∈ board.resources := fun _ first =>
      source_of_mem_channels resolved (List.mem_filter.mp (List.mem_of_head? first)).1
    exact points_of_pointer known rfl rfl rfl named

theorem points_of_sharedChannel {bank : Bank}
    (resolved : bank ∈ banksOf (placedOutputs board table))
    (issue : diagnostic ∈ bank.sharedChannels) (named : diagnostic.resource.isSome = true) :
    Points board diagnostic := by
  obtain ⟨channel, _, shared⟩ := List.mem_filterMap.mp issue
  unfold Bank.sharedChannel? at shared
  split at shared
  · rename_i first second rest outputs
    cases shared
    have driven : second ∈ bank.channels := by
      refine (List.mem_filter.mp (?_ : second ∈ bank.onChannel channel)).1
      rw [outputs]
      exact List.mem_cons_of_mem _ List.mem_cons_self
    have known : ∀ placement ∈ some second, placement.source ∈ board.resources := by
      rintro _ ⟨⟩
      exact source_of_mem_channels resolved driven
    exact points_of_pointer known rfl rfl rfl named
  · cases shared

theorem straddles_of_sharedPin (issue : diagnostic ∈ sharedPins board) :
    ∃ first second, Straddles board diagnostic first second := by
  obtain ⟨pin, _, shared⟩ := List.mem_filterMap.mp issue
  unfold sharedPin? at shared
  split at shared
  · rename_i first second rest claims
    cases shared
    have claimed : first.pin = pin := by
      have member : first ∈ pinClaims board pin := by
        rw [claims]
        exact List.mem_cons_self
      exact of_decide_eq_true (List.mem_filter.mp member).2
    subst claimed
    exact ⟨first, second, ⟨rest, claims⟩, rfl, rfl, rfl⟩
  · cases shared

/-! ## All findings -/

theorem points_of_advisory {source : Assignment} {entry : Capability.Entry}
    (timed : source ∈ outputs board)
    (issue : advisoryIssue? board source entry = some diagnostic) : Points board diagnostic := by
  have member := (mem_outputs_iff.mp timed).1
  unfold advisoryIssue? at issue
  split at issue
  · cases issue
  · split at issue
    · cases issue
    · split at issue <;> cases issue
      exact ⟨source, member, rfl, rfl, fun pin carried => (Option.some.inj carried).symm⟩

/-- A finding about a setting names no resource. -/
theorem resource_of_overrideIssue? {bus : BusId}
    (issue : overrideIssue? board bus = some diagnostic) : diagnostic.resource = none := by
  unfold overrideIssue? at issue
  split at issue
  · cases issue
  · split at issue <;> cases issue
    rfl

theorem resource_of_deviceIssue {buses : List Bus} (issue : diagnostic ∈ deviceIssues board buses) :
    diagnostic.resource = none := by
  obtain ⟨⟨key, kind⟩, _, found⟩ := List.mem_filterMap.mp issue
  obtain ⟨setting, _, wrong⟩ := Option.bind_eq_some_iff.mp found
  unfold deviceIssue? at wrong
  dsimp only at wrong
  split at wrong
  · split at wrong <;> cases wrong
    rfl
  · split at wrong <;> cases wrong
    rfl

theorem resource_of_rateIssue {origin : RateSource} (issue : diagnostic ∈ origin.issues board) :
    diagnostic.resource = none := by
  rcases List.mem_append.mp issue with protocol | rate
  · have found := Option.mem_toList.mp protocol
    unfold RateSource.protocolIssue? at found
    split at found
    · cases found
    · split at found <;> cases found
      rfl
  · have found := Option.mem_toList.mp rate
    unfold RateSource.rateIssue? at found
    split at found
    · cases found
    · split at found <;> cases found
      rfl

theorem line_of_incompleteIssue? {bus : BusId}
    (issue : incompleteIssue? board bus = some diagnostic) : diagnostic.line = none := by
  unfold incompleteIssue? at issue
  split at issue <;> cases issue
  rfl

theorem points_of_cause (cause : Cause board table options diagnostic)
    (named : diagnostic.resource.isSome = true) (lined : diagnostic.line.isSome = true)
    (other : diagnostic.finding ≠ .pinConflict) : Points board diagnostic := by
  have unshared := cause.sharedPin_iff_finding.not.mpr other
  have nameless (nothing : diagnostic.resource = none) : Points board diagnostic := by
    rw [nothing] at named
    cases named
  cases cause with
  | @refused source refusal modeled _ =>
      exact ⟨source, (mem_modeled_iff.mp modeled).1, rfl, rfl,
        fun pin carried => (Option.some.inj carried).symm⟩
  | override _ issue => exact nameless (resource_of_overrideIssue? issue)
  | incomplete _ issue =>
      rw [line_of_incompleteIssue? issue] at lined
      cases lined
  | sharedInstance issue => exact points_of_sharedInstance issue named
  | device issue => exact nameless (resource_of_deviceIssue issue)
  | rate _ issue => exact nameless (resource_of_rateIssue issue)
  | advisory timed _ issue => exact points_of_advisory timed issue
  | rateConflict resolved issue => exact points_of_rateConflict resolved issue named
  | sharedChannel resolved issue => exact points_of_sharedChannel resolved issue named
  | @unknownPin source role member _ _ =>
      exact ⟨source, (mem_roleAssignments member).1, rfl, rfl,
        fun pin carried => (Option.some.inj carried).symm⟩
  | sharedPin issue => exact absurd issue unshared

/-- Two claims are on two lines, so that no assignment has the resource and the line. -/
theorem Straddles.not_points {policy : Policy} {text : String} {first second : Assignment}
    (straddles : Straddles (Board.parse policy text).board diagnostic first second) :
    ¬ Points (Board.parse policy text).board diagnostic := by
  have unambiguous := Board.parse_unambiguous policy text
  obtain ⟨rest, claims⟩ := straddles.claims
  have known {claim : Assignment} (member : claim ∈ first :: second :: rest) :
      claim ∈ (Board.parse policy text).board.modeled := by
    rw [← claims] at member
    exact (List.mem_filter.mp member).1
  have firstKnown := (mem_modeled_iff.mp (known List.mem_cons_self)).1
  have secondKnown := (mem_modeled_iff.mp (known (List.mem_cons_of_mem _ List.mem_cons_self))).1
  rintro ⟨source, member, resource, line, _⟩
  rw [straddles.resource] at resource
  rw [straddles.line] at line
  have one := unambiguous.eq_of_id_eq firstKnown member (Option.some.inj resource)
  have other := Board.eq_of_line secondKnown member (Option.some.inj line)
  have ids : ((first :: second :: rest).map (·.id)).Nodup := by
    rw [← claims]
    exact unambiguous.modeled.sublist (List.filter_sublist.map _)
  rw [one, other] at ids
  exact (List.nodup_cons.mp ids).1 List.mem_cons_self

/-- A finding with a resource and a line points to one assignment of the board, unless it is
about a shared pin: then it has the resource of the first claim and the line of the second, and
no assignment has both. -/
theorem points_resolve_iff (policy : Policy) (text mcu tableText : String) (options : Options)
    {diagnostic : Diagnostic} :
    let board := (Board.parse policy text).board
    diagnostic ∈ (resolve board (Capability.parse mcu tableText).table options).diagnostics →
    diagnostic.resource.isSome = true → diagnostic.line.isSome = true →
      (Points board diagnostic ↔ diagnostic.finding ≠ .pinConflict) ∧
        (diagnostic.finding = .pinConflict →
          ∃ first second, Straddles board diagnostic first second) := by
  intro board found named lined
  have cause := mem_findings_iff.mp found
  have straddling (shared : diagnostic.finding = .pinConflict) :
      ∃ first second, Straddles board diagnostic first second :=
    straddles_of_sharedPin (cause.sharedPin_iff_finding.mpr shared)
  refine ⟨⟨fun points shared => ?_, points_of_cause cause named lined⟩, straddling⟩
  obtain ⟨first, second, straddles⟩ := straddling shared
  exact straddles.not_points points

/-! ## A shared pin -/

def sharedText : String :=
  "resource LED 1 C13\nresource BEEPER 1 C13"

def sharedBoard : Definition :=
  (Board.parse .lastWins sharedText).board

def sharedDiagnostic : Diagnostic where
  severity := .error
  finding := .pinConflict
  message := "C13 is used by 2 resources: LED 1 (line 1), BEEPER 1 (line 2)"
  resource := some ⟨.single .led, 1⟩
  pin := (Pin.ofBoardToken "C13").toOption
  line := some 2

def sharedFindings : List Diagnostic :=
  (resolve sharedBoard (Capability.parse "F4" "").table {}).diagnostics

theorem sharedDiagnostic_mem : sharedDiagnostic ∈ sharedFindings := by
  decide +kernel

/-- The finding for the pin of two roles names the first with the line of the second. -/
theorem points_shared :
    sharedDiagnostic ∈ sharedFindings ∧ sharedDiagnostic.resource.isSome = true ∧
      sharedDiagnostic.line.isSome = true ∧ ¬ Points sharedBoard sharedDiagnostic ∧
      ∃ first second, Straddles sharedBoard sharedDiagnostic first second := by
  have told := points_resolve_iff .lastWins sharedText "F4" "" {} sharedDiagnostic_mem rfl rfl
  exact ⟨sharedDiagnostic_mem, rfl, rfl, fun points => told.1.mp points rfl, told.2 rfl⟩

/-- Not every finding points to one assignment. -/
theorem exists_misplaced_finding :
    ¬ ∀ diagnostic ∈ sharedFindings, diagnostic.resource.isSome = true →
      diagnostic.line.isSome = true → Points sharedBoard diagnostic := by
  intro every
  have points := every sharedDiagnostic sharedDiagnostic_mem rfl rfl
  revert points
  decide +kernel

end Pinout.Resolution
