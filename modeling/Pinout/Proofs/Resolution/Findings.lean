import Pinout.Proofs.Resolution.Decision

/-! Where findings come from. A finding of resolution has one of eleven causes; the
cause fixes its severity and its kind, and only a refused resource is reported with the
kinds of refusals. -/

set_option autoImplicit false

namespace Pinout.Resolution

open Board (Assignment Definition)
open Capability (Entry Table)

/-- The causes of findings. -/
inductive Cause (board : Definition) (table : Table) (options : Options) :
    Diagnostic → Prop where
  | refused {source : Assignment} {refusal : Refusal} (modeled : source ∈ board.modeled)
      (refused : refusal? board table source = some refusal) :
      Cause board table options (refusal.diagnostic table.mcu source)
  | override {bus : BusId} {diagnostic : Diagnostic} (declared : bus ∈ declaredBuses board)
      (issue : overrideIssue? board bus = some diagnostic) :
      Cause board table options diagnostic
  | incomplete {bus : BusId} {diagnostic : Diagnostic} (declared : bus ∈ declaredBuses board)
      (issue : incompleteIssue? board bus = some diagnostic) :
      Cause board table options diagnostic
  | sharedInstance {diagnostic : Diagnostic}
      (issue : diagnostic ∈ sharedInstances (resolveBuses board table)) :
      Cause board table options diagnostic
  | device {diagnostic : Diagnostic}
      (issue : diagnostic ∈ deviceIssues board (resolveBuses board table)) :
      Cause board table options diagnostic
  | rate {origin : RateSource} {diagnostic : Diagnostic}
      (named : origin = motorSource options ∨ origin = servoSource options)
      (issue : diagnostic ∈ origin.issues board) : Cause board table options diagnostic
  | advisory {source : Assignment} {entry : Entry} {diagnostic : Diagnostic}
      (timed : source ∈ outputs board) (placed : placeOutputOf board table source = .ok entry)
      (issue : advisoryIssue? board source entry = some diagnostic) :
      Cause board table options diagnostic
  | rateConflict {bank : Bank} {diagnostic : Diagnostic}
      (resolved : bank ∈ banksOf (placedOutputs board table))
      (issue : diagnostic ∈ bank.rateConflicts (timingsOf board options)) :
      Cause board table options diagnostic
  | sharedChannel {bank : Bank} {diagnostic : Diagnostic}
      (resolved : bank ∈ banksOf (placedOutputs board table))
      (issue : diagnostic ∈ bank.sharedChannels) : Cause board table options diagnostic
  | unknownPin {source : Assignment} {role : Role}
      (member : (source, role) ∈ roleAssignments board)
      (plain : placeRole table source.pin role = .ok none)
      (unknown : table.knowsPin source.pin = false) :
      Cause board table options (unknownPin table.mcu source)
  | sharedPin {diagnostic : Diagnostic} (issue : diagnostic ∈ sharedPins board) :
      Cause board table options diagnostic

def refusalIssue? (board : Definition) (table : Table) (source : Assignment) :
    Option Diagnostic :=
  (refusal? board table source).map (·.diagnostic table.mcu source)

variable {board : Definition} {table : Table} {options : Options}

/-! ## The kinds of findings -/

theorem overrideIssue?_kind {bus : BusId} {diagnostic : Diagnostic}
    (issue : overrideIssue? board bus = some diagnostic) :
    diagnostic.severity = .warning ∧ diagnostic.finding = .syntaxIssue := by
  unfold overrideIssue? at issue
  split at issue
  · cases issue
  · split at issue <;> cases issue
    exact ⟨rfl, rfl⟩

theorem incompleteIssue?_kind {bus : BusId} {diagnostic : Diagnostic}
    (issue : incompleteIssue? board bus = some diagnostic) :
    diagnostic.severity = (if bus.kind = .uart then .warning else .error) ∧
      diagnostic.finding = .incompleteBus := by
  unfold incompleteIssue? at issue
  split at issue <;> cases issue
  exact ⟨rfl, rfl⟩

theorem sharedInstances_kind {buses : List Bus} {diagnostic : Diagnostic}
    (issue : diagnostic ∈ sharedInstances buses) :
    diagnostic.severity = .error ∧ diagnostic.finding = .busInstanceConflict := by
  obtain ⟨kind, _, found⟩ := List.mem_flatMap.mp issue
  obtain ⟨target, _, shared⟩ := List.mem_filterMap.mp found
  unfold sharedInstance? at shared
  split at shared <;> cases shared
  exact ⟨rfl, rfl⟩

theorem deviceIssues_kind {buses : List Bus} {diagnostic : Diagnostic}
    (issue : diagnostic ∈ deviceIssues board buses) :
    diagnostic.severity = .warning ∧
      (diagnostic.finding = .unresolvedBusReference ∨ diagnostic.finding = .syntaxIssue) := by
  obtain ⟨⟨key, kind⟩, _, found⟩ := List.mem_filterMap.mp issue
  obtain ⟨setting, _, wrong⟩ := Option.bind_eq_some_iff.mp found
  unfold deviceIssue? at wrong
  dsimp only at wrong
  split at wrong
  · split at wrong <;> cases wrong
    exact ⟨rfl, .inl rfl⟩
  · split at wrong <;> cases wrong
    exact ⟨rfl, .inr rfl⟩

theorem rateIssues_kind {origin : RateSource} {diagnostic : Diagnostic}
    (issue : diagnostic ∈ origin.issues board) :
    diagnostic.severity = .warning ∧
      (diagnostic.finding = .unknownProtocol ∨ diagnostic.finding = .syntaxIssue) := by
  simp only [RateSource.issues, List.mem_append, Option.mem_toList] at issue
  rcases issue with protocol | rate
  · unfold RateSource.protocolIssue? at protocol
    split at protocol
    · cases protocol
    · split at protocol <;> cases protocol
      exact ⟨rfl, .inl rfl⟩
  · unfold RateSource.rateIssue? at rate
    split at rate
    · cases rate
    · split at rate <;> cases rate
      exact ⟨rfl, .inr rfl⟩

theorem advisoryIssue?_kind {source : Assignment} {entry : Entry}
    {diagnostic : Diagnostic} (issue : advisoryIssue? board source entry = some diagnostic) :
    diagnostic.severity = .warning ∧ diagnostic.finding = .advisoryMismatch := by
  unfold advisoryIssue? at issue
  split at issue
  · cases issue
  · split at issue
    · cases issue
    · split at issue <;> cases issue
      exact ⟨rfl, rfl⟩

theorem rateConflicts_kind {bank : Bank} {timings : Timings} {diagnostic : Diagnostic}
    (issue : diagnostic ∈ bank.rateConflicts timings) :
    diagnostic.severity = .error ∧ diagnostic.finding = .timerFrequencyConflict := by
  unfold Bank.rateConflicts at issue
  split at issue
  · cases issue
  · obtain ⟨other, _, conflict⟩ := List.mem_filterMap.mp issue
    unfold Bank.rateConflict? at conflict
    dsimp only at conflict
    split at conflict <;> cases conflict
    exact ⟨rfl, rfl⟩

theorem sharedChannels_kind {bank : Bank} {diagnostic : Diagnostic}
    (issue : diagnostic ∈ bank.sharedChannels) :
    diagnostic.severity = .error ∧ diagnostic.finding = .timerChannelConflict := by
  obtain ⟨channel, _, shared⟩ := List.mem_filterMap.mp issue
  unfold Bank.sharedChannel? at shared
  split at shared <;> cases shared
  exact ⟨rfl, rfl⟩

theorem sharedPins_kind {diagnostic : Diagnostic} (issue : diagnostic ∈ sharedPins board) :
    diagnostic.severity = .error ∧ diagnostic.finding = .pinConflict := by
  obtain ⟨pin, _, shared⟩ := List.mem_filterMap.mp issue
  unfold sharedPin? at shared
  split at shared <;> cases shared
  exact ⟨rfl, rfl⟩

/-! ## Findings and their causes -/

private theorem busIssues_eq (bus : BusId) :
    busIssues board table bus = (overrideIssue? board bus).toList ++
      ((members board bus).map (·.1)).filterMap (refusalIssue? board table) ++
        (incompleteIssue? board bus).toList := by
  rw [busIssues, refusedMembers_eq, refusals, List.map_filterMap]
  congr 2
  refine List.filterMap_congr fun source _ => ?_
  rw [refusalIssue?, Option.map_map]
  rfl

theorem mem_busIssues_iff {bus : BusId} {diagnostic : Diagnostic} :
    diagnostic ∈ busIssues board table bus ↔
      overrideIssue? board bus = some diagnostic ∨
        (∃ source ∈ (members board bus).map (·.1), ∃ refusal,
          refusal? board table source = some refusal ∧
            refusal.diagnostic table.mcu source = diagnostic) ∨
          incompleteIssue? board bus = some diagnostic := by
  simp only [busIssues_eq, List.mem_append, Option.mem_toList, List.mem_filterMap,
    refusalIssue?, Option.map_eq_some_iff, or_assoc]

theorem mem_outputIssues_iff {source : Assignment} (timed : source ∈ outputs board)
    {diagnostic : Diagnostic} :
    diagnostic ∈ outputIssues board table source ↔
      (∃ refusal, refusal? board table source = some refusal ∧
        refusal.diagnostic table.mcu source = diagnostic) ∨
      ∃ entry, placeOutputOf board table source = .ok entry ∧
        advisoryIssue? board source entry = some diagnostic := by
  rw [outputIssues, refusal?, decision?_of_output table timed]
  cases placeOutputOf board table source with
  | ok entry => simp [Except.map]
  | error refusal => simp [Except.map, eq_comm (a := diagnostic)]

theorem mem_roleIssues_iff {source : Assignment} {role : Role}
    (member : (source, role) ∈ roleAssignments board) {diagnostic : Diagnostic} :
    diagnostic ∈ roleIssues table source role ↔
      (∃ refusal, refusal? board table source = some refusal ∧
        refusal.diagnostic table.mcu source = diagnostic) ∨
      (placeRole table source.pin role = .ok none ∧ table.knowsPin source.pin = false ∧
        unknownPin table.mcu source = diagnostic) := by
  rw [roleIssues, refusal?, decision?_of_role table member]
  cases placeRole table source.pin role with
  | error refusal => simp [eq_comm (a := diagnostic)]
  | ok entry =>
      cases entry with
      | some entry => simp
      | none => cases table.knowsPin source.pin <;> simp [eq_comm (a := diagnostic)]

private theorem mem_modeled_iff_pass {source : Assignment} :
    source ∈ board.modeled ↔
      (∃ bus ∈ declaredBuses board, source ∈ (members board bus).map (·.1)) ∨
        source ∈ outputs board ∨ ∃ role, (source, role) ∈ roleAssignments board := by
  rw [← (passes_perm board).mem_iff, passes, List.mem_append, List.mem_append, busSources,
    List.mem_flatMap, roleSources, List.mem_map, Prod.exists, or_assoc]
  simp

/-! ### From a finding to its cause -/

private theorem cause_of_busIssue {bus : BusId} (declared : bus ∈ declaredBuses board)
    {diagnostic : Diagnostic} (issue : diagnostic ∈ busIssues board table bus) :
    Cause board table options diagnostic := by
  rcases mem_busIssues_iff.mp issue with override | ⟨source, inside, refusal, refused, rfl⟩ |
    incomplete
  · exact .override declared override
  · exact .refused (mem_modeled_iff_pass.mpr (.inl ⟨bus, declared, inside⟩)) refused
  · exact .incomplete declared incomplete

private theorem cause_of_outputIssue {source : Assignment} (timed : source ∈ outputs board)
    {diagnostic : Diagnostic} (issue : diagnostic ∈ outputIssues board table source) :
    Cause board table options diagnostic := by
  rcases (mem_outputIssues_iff timed).mp issue with ⟨refusal, refused, rfl⟩ |
    ⟨entry, placed, advisory⟩
  · exact .refused (mem_modeled_iff_pass.mpr (.inr (.inl timed))) refused
  · exact .advisory timed placed advisory

private theorem cause_of_roleIssue {source : Assignment} {role : Role}
    (member : (source, role) ∈ roleAssignments board)
    {diagnostic : Diagnostic} (issue : diagnostic ∈ roleIssues table source role) :
    Cause board table options diagnostic := by
  rcases (mem_roleIssues_iff member).mp issue with ⟨refusal, refused, rfl⟩ |
    ⟨plain, unknown, rfl⟩
  · exact .refused (mem_modeled_iff_pass.mpr (.inr (.inr ⟨role, member⟩))) refused
  · exact .unknownPin member plain unknown

private theorem cause_of_mem_findings {diagnostic : Diagnostic}
    (member : diagnostic ∈ findings board table options) :
    Cause board table options diagnostic := by
  simp only [findings, resolvedBoard, List.mem_append, List.mem_flatMap, Prod.exists] at member
  rcases member with ((((((((buses | shared) | device) | motor) | servo) | timed) | rate) |
    channel) | role) | pin
  · obtain ⟨bus, declared, issue⟩ := buses
    exact cause_of_busIssue declared issue
  · exact .sharedInstance shared
  · exact .device device
  · exact .rate (.inl rfl) motor
  · exact .rate (.inr rfl) servo
  · obtain ⟨source, inside, issue⟩ := timed
    exact cause_of_outputIssue inside issue
  · obtain ⟨bank, resolved, issue⟩ := rate
    exact .rateConflict resolved issue
  · obtain ⟨bank, resolved, issue⟩ := channel
    exact .sharedChannel resolved issue
  · obtain ⟨source, role, inside, issue⟩ := role
    exact cause_of_roleIssue inside issue
  · exact .sharedPin pin

/-! ### From a cause to its finding -/

private theorem mem_findings_of_busIssue {bus : BusId} (declared : bus ∈ declaredBuses board)
    {diagnostic : Diagnostic} (issue : diagnostic ∈ busIssues board table bus) :
    diagnostic ∈ findings board table options := by
  have found := List.mem_flatMap.mpr ⟨bus, declared, issue⟩
  simp only [findings, List.mem_append, found, true_or]

private theorem mem_findings_of_outputIssue {source : Assignment}
    (timed : source ∈ outputs board) {diagnostic : Diagnostic}
    (issue : diagnostic ∈ outputIssues board table source) :
    diagnostic ∈ findings board table options := by
  have found := List.mem_flatMap.mpr ⟨source, timed, issue⟩
  simp only [findings, List.mem_append, found, true_or, or_true]

private theorem mem_findings_of_roleIssue {source : Assignment} {role : Role}
    (member : (source, role) ∈ roleAssignments board)
    {diagnostic : Diagnostic} (issue : diagnostic ∈ roleIssues table source role) :
    diagnostic ∈ findings board table options := by
  have found : ∃ source role, (source, role) ∈ roleAssignments board ∧
      diagnostic ∈ roleIssues table source role := ⟨source, role, member, issue⟩
  simp only [findings, List.mem_append, List.mem_flatMap, Prod.exists, found, true_or, or_true]

private theorem mem_findings_of_refusal {source : Assignment} {refusal : Refusal}
    (modeled : source ∈ board.modeled) (refused : refusal? board table source = some refusal) :
    refusal.diagnostic table.mcu source ∈ findings board table options := by
  rcases mem_modeled_iff_pass.mp modeled with ⟨bus, declared, inside⟩ | timed | ⟨role, member⟩
  · exact mem_findings_of_busIssue declared
      (mem_busIssues_iff.mpr (.inr (.inl ⟨source, inside, refusal, refused, rfl⟩)))
  · exact mem_findings_of_outputIssue timed
      ((mem_outputIssues_iff timed).mpr (.inl ⟨refusal, refused, rfl⟩))
  · exact mem_findings_of_roleIssue member
      ((mem_roleIssues_iff member).mpr (.inl ⟨refusal, refused, rfl⟩))

private theorem mem_findings_of_cause {diagnostic : Diagnostic}
    (cause : Cause board table options diagnostic) :
    diagnostic ∈ findings board table options := by
  cases cause with
  | refused modeled refused => exact mem_findings_of_refusal modeled refused
  | override declared issue =>
      exact mem_findings_of_busIssue declared (mem_busIssues_iff.mpr (.inl issue))
  | incomplete declared issue =>
      exact mem_findings_of_busIssue declared (mem_busIssues_iff.mpr (.inr (.inr issue)))
  | sharedInstance issue =>
      simp only [findings, resolvedBoard, List.mem_append, issue, true_or, or_true]
  | device issue =>
      simp only [findings, resolvedBoard, List.mem_append, issue, true_or, or_true]
  | rate named issue =>
      rcases named with rfl | rfl <;>
        simp only [findings, List.mem_append, issue, true_or, or_true]
  | advisory timed placed issue =>
      exact mem_findings_of_outputIssue timed
        ((mem_outputIssues_iff timed).mpr (.inr ⟨_, placed, issue⟩))
  | rateConflict resolved issue =>
      have found := List.mem_flatMap.mpr ⟨_, resolved, issue⟩
      simp only [findings, resolvedBoard, List.mem_append, found, true_or, or_true]
  | sharedChannel resolved issue =>
      have found := List.mem_flatMap.mpr ⟨_, resolved, issue⟩
      simp only [findings, resolvedBoard, List.mem_append, found, true_or, or_true]
  | unknownPin member plain unknown =>
      exact mem_findings_of_roleIssue member
        ((mem_roleIssues_iff member).mpr (.inr ⟨plain, unknown, rfl⟩))
  | sharedPin issue => simp only [findings, List.mem_append, issue, or_true]

theorem mem_findings_iff {diagnostic : Diagnostic} :
    diagnostic ∈ findings board table options ↔ Cause board table options diagnostic :=
  ⟨cause_of_mem_findings, mem_findings_of_cause⟩

/-! ## What a cause says -/

/-- The kinds of findings about buses, settings and timers, and about pins that no table has. -/
def otherFindings : List Finding :=
  [.syntaxIssue, .incompleteBus, .busInstanceConflict, .unresolvedBusReference, .unknownProtocol,
    .timerFrequencyConflict, .timerChannelConflict, .unknownPin]

namespace Cause

variable {diagnostic : Diagnostic}

/-- The kind of a finding tells a refusal, a mistaken advisory and a shared pin from each other and
from the rest. -/
theorem kind_cases (cause : Cause board table options diagnostic) :
    (∃ source ∈ board.modeled, ∃ refusal, refusal? board table source = some refusal ∧
      diagnostic = refusal.diagnostic table.mcu source) ∨
    (diagnostic.finding = .advisoryMismatch ∧
      ∃ source ∈ outputs board, ∃ entry, placeOutputOf board table source = .ok entry ∧
        advisoryIssue? board source entry = some diagnostic) ∨
    (diagnostic.finding = .pinConflict ∧ diagnostic ∈ sharedPins board) ∨
    diagnostic.finding ∈ otherFindings := by
  cases cause with
  | refused modeled refused => exact .inl ⟨_, modeled, _, refused, rfl⟩
  | override _ issue => simp [(overrideIssue?_kind issue).2, otherFindings]
  | incomplete _ issue => simp [(incompleteIssue?_kind issue).2, otherFindings]
  | sharedInstance issue => simp [(sharedInstances_kind issue).2, otherFindings]
  | device issue =>
      rcases (deviceIssues_kind issue).2 with named | named <;> simp [named, otherFindings]
  | rate _ issue =>
      rcases (rateIssues_kind issue).2 with named | named <;> simp [named, otherFindings]
  | advisory timed placed issue =>
      exact .inr (.inl ⟨(advisoryIssue?_kind issue).2, _, timed, _, placed, issue⟩)
  | rateConflict _ issue => simp [(rateConflicts_kind issue).2, otherFindings]
  | sharedChannel _ issue => simp [(sharedChannels_kind issue).2, otherFindings]
  | unknownPin => simp [Resolution.unknownPin, otherFindings]
  | sharedPin issue => exact .inr (.inr (.inl ⟨(sharedPins_kind issue).2, issue⟩))

theorem refusal_of_isRefusal (cause : Cause board table options diagnostic)
    (kind : diagnostic.finding.isRefusal = true) :
    ∃ source ∈ board.modeled, ∃ refusal, refusal? board table source = some refusal ∧
      diagnostic = refusal.diagnostic table.mcu source := by
  have others : ∀ finding ∈ otherFindings, finding.isRefusal = false := by decide
  rcases cause.kind_cases with refused | ⟨advisory, _⟩ | ⟨pin, _⟩ | other
  · exact refused
  · rw [advisory] at kind
    cases kind
  · rw [pin] at kind
    cases kind
  · rw [others _ other] at kind
    cases kind

theorem advisory_of_finding (cause : Cause board table options diagnostic)
    (kind : diagnostic.finding = .advisoryMismatch) :
    ∃ source ∈ outputs board, ∃ entry, placeOutputOf board table source = .ok entry ∧
      advisoryIssue? board source entry = some diagnostic := by
  rcases cause.kind_cases with ⟨_, _, refusal, _, rfl⟩ | ⟨_, advisory⟩ | ⟨pin, _⟩ | other
  · cases refusal <;> cases kind
  · exact advisory
  · rw [pin] at kind
    cases kind
  · rw [kind] at other
    exact absurd other (by decide)

theorem sharedPin_iff_finding (cause : Cause board table options diagnostic) :
    diagnostic ∈ sharedPins board ↔ diagnostic.finding = .pinConflict := by
  refine ⟨fun issue => (sharedPins_kind issue).2, fun kind => ?_⟩
  rcases cause.kind_cases with ⟨_, _, refusal, _, rfl⟩ | ⟨advisory, _⟩ | ⟨_, pin⟩ | other
  · cases refusal <;> cases kind
  · rw [advisory] at kind
    cases kind
  · exact pin
  · rw [kind] at other
    exact absurd other (by decide)

theorem isError_cases (cause : Cause board table options diagnostic)
    (error : diagnostic.isError = true) :
    (∃ source ∈ board.modeled, ∃ refusal, refusal? board table source = some refusal) ∨
      (∃ bus ∈ declaredBuses board, bus.kind ≠ .uart ∧
        incompleteIssue? board bus = some diagnostic) ∨
      diagnostic ∈ sharedInstances (resolveBuses board table) ∨
      (∃ bank ∈ banksOf (placedOutputs board table),
        diagnostic ∈ bank.rateConflicts (timingsOf board options)) ∨
      (∃ bank ∈ banksOf (placedOutputs board table), diagnostic ∈ bank.sharedChannels) ∨
      diagnostic ∈ sharedPins board := by
  have grave : diagnostic.severity = .error := by simpa [Diagnostic.isError] using error
  cases cause with
  | refused modeled refused => exact .inl ⟨_, modeled, _, refused⟩
  | override _ issue => simp [(overrideIssue?_kind issue).1] at grave
  | @incomplete bus _ declared issue =>
      refine .inr (.inl ⟨bus, declared, ?_, issue⟩)
      intro serial
      simp [(incompleteIssue?_kind issue).1, serial] at grave
  | sharedInstance issue => exact .inr (.inr (.inl issue))
  | device issue => simp [(deviceIssues_kind issue).1] at grave
  | rate _ issue => simp [(rateIssues_kind issue).1] at grave
  | advisory _ _ issue => simp [(advisoryIssue?_kind issue).1] at grave
  | rateConflict resolved issue => exact .inr (.inr (.inr (.inl ⟨_, resolved, issue⟩)))
  | sharedChannel resolved issue => exact .inr (.inr (.inr (.inr (.inl ⟨_, resolved, issue⟩))))
  | unknownPin => simp [Resolution.unknownPin] at grave
  | sharedPin issue => exact .inr (.inr (.inr (.inr (.inr issue))))

end Cause

/-- There is an error exactly when one of six checks finds one. -/
theorem exists_error_iff :
    (∃ diagnostic ∈ findings board table options, diagnostic.isError = true) ↔
      (∃ source ∈ board.modeled, ∃ refusal, refusal? board table source = some refusal) ∨
      (∃ bus ∈ declaredBuses board, bus.kind ≠ .uart ∧
        ∃ diagnostic, incompleteIssue? board bus = some diagnostic) ∨
      (∃ diagnostic, diagnostic ∈ sharedInstances (resolveBuses board table)) ∨
      (∃ bank ∈ banksOf (placedOutputs board table),
        ∃ diagnostic, diagnostic ∈ bank.rateConflicts (timingsOf board options)) ∨
      (∃ bank ∈ banksOf (placedOutputs board table),
        ∃ diagnostic, diagnostic ∈ bank.sharedChannels) ∨
      ∃ diagnostic, diagnostic ∈ sharedPins board := by
  constructor
  · intro given
    obtain ⟨diagnostic, member, error⟩ := given
    rcases (mem_findings_iff.mp member).isError_cases error with refused |
      ⟨bus, declared, kind, issue⟩ | shared | ⟨bank, resolved, issue⟩ | ⟨bank, resolved, issue⟩ |
      pin
    · exact .inl refused
    · exact .inr (.inl ⟨bus, declared, kind, _, issue⟩)
    · exact .inr (.inr (.inl ⟨_, shared⟩))
    · exact .inr (.inr (.inr (.inl ⟨bank, resolved, _, issue⟩)))
    · exact .inr (.inr (.inr (.inr (.inl ⟨bank, resolved, _, issue⟩))))
    · exact .inr (.inr (.inr (.inr (.inr ⟨_, pin⟩))))
  · have grave {diagnostic : Diagnostic} (cause : Cause board table options diagnostic)
        (severity : diagnostic.severity = .error) :
        ∃ diagnostic ∈ findings board table options, diagnostic.isError = true :=
      ⟨diagnostic, mem_findings_iff.mpr cause, by simp [Diagnostic.isError, severity]⟩
    intro given
    rcases given with ⟨source, modeled, refusal, refused⟩ | ⟨bus, declared, kind, _, issue⟩ |
      ⟨_, shared⟩ | ⟨bank, resolved, _, issue⟩ | ⟨bank, resolved, _, issue⟩ | ⟨_, pin⟩
    · exact grave (.refused modeled refused) rfl
    · exact grave (.incomplete declared issue) (by simp [(incompleteIssue?_kind issue).1, kind])
    · exact grave (.sharedInstance shared) (sharedInstances_kind shared).1
    · exact grave (.rateConflict resolved issue) (rateConflicts_kind issue).1
    · exact grave (.sharedChannel resolved issue) (sharedChannels_kind issue).1
    · exact grave (.sharedPin pin) (sharedPins_kind pin).1

/-! ## Refusals among the findings -/

/-- The findings with the kinds of refusals. -/
def refusalFindings (diagnostics : List Diagnostic) : List Diagnostic :=
  diagnostics.filter (·.finding.isRefusal)

private theorem refusalFindings_append (left right : List Diagnostic) :
    refusalFindings (left ++ right) = refusalFindings left ++ refusalFindings right :=
  List.filter_append left right

private theorem refusalFindings_flatMap {α : Type} (items : List α) (found : α → List Diagnostic) :
    refusalFindings (items.flatMap found) =
      items.flatMap fun item => refusalFindings (found item) :=
  List.filter_flatMap

private theorem refusalFindings_eq_nil {diagnostics : List Diagnostic}
    (others : ∀ diagnostic ∈ diagnostics, diagnostic.finding.isRefusal = false) :
    refusalFindings diagnostics = [] :=
  List.filter_eq_nil_iff.mpr fun diagnostic member => by simp [others diagnostic member]

private theorem isRefusal_of_refusalIssue? {source : Assignment} {diagnostic : Diagnostic}
    (issue : refusalIssue? board table source = some diagnostic) :
    diagnostic.finding.isRefusal = true := by
  obtain ⟨refusal, _, rfl⟩ := Option.map_eq_some_iff.mp issue
  exact refusal.isRefusal_finding

private theorem refusalFindings_busIssues (bus : BusId) :
    refusalFindings (busIssues board table bus) =
      ((members board bus).map (·.1)).filterMap (refusalIssue? board table) := by
  have override : refusalFindings (overrideIssue? board bus).toList = [] := by
    refine refusalFindings_eq_nil fun diagnostic issue => ?_
    simp [(overrideIssue?_kind (Option.mem_toList.mp issue)).2, Finding.isRefusal]
  have incomplete : refusalFindings (incompleteIssue? board bus).toList = [] := by
    refine refusalFindings_eq_nil fun diagnostic issue => ?_
    simp [(incompleteIssue?_kind (Option.mem_toList.mp issue)).2, Finding.isRefusal]
  rw [busIssues_eq, refusalFindings_append, refusalFindings_append, override, incomplete,
    List.nil_append, List.append_nil]
  refine List.filter_eq_self.mpr fun diagnostic member => ?_
  obtain ⟨source, _, issue⟩ := List.mem_filterMap.mp member
  exact isRefusal_of_refusalIssue? issue

private theorem refusalFindings_outputIssues {source : Assignment}
    (timed : source ∈ outputs board) :
    refusalFindings (outputIssues board table source) =
      (refusalIssue? board table source).toList := by
  rw [outputIssues, refusalIssue?, refusal?, decision?_of_output table timed]
  cases placeOutputOf board table source with
  | error refusal =>
      exact List.filter_eq_self.mpr (by simp [Refusal.diagnostic, refusal.isRefusal_finding])
  | ok entry =>
      refine refusalFindings_eq_nil fun diagnostic issue => ?_
      simp [(advisoryIssue?_kind (Option.mem_toList.mp issue)).2, Finding.isRefusal]

private theorem refusalFindings_roleIssues {source : Assignment} {role : Role}
    (member : (source, role) ∈ roleAssignments board) :
    refusalFindings (roleIssues table source role) =
      (refusalIssue? board table source).toList := by
  rw [roleIssues, refusalIssue?, refusal?, decision?_of_role table member]
  cases placeRole table source.pin role with
  | error refusal =>
      exact List.filter_eq_self.mpr (by simp [Refusal.diagnostic, refusal.isRefusal_finding])
  | ok entry =>
      cases entry with
      | some entry => rfl
      | none =>
          cases table.knowsPin source.pin with
          | true => rfl
          | false => rfl

private theorem refusalFindings_rates (origin : RateSource) :
    refusalFindings (origin.issues board) = [] := by
  refine refusalFindings_eq_nil fun diagnostic issue => ?_
  rcases (rateIssues_kind issue).2 with named | named <;> simp [named, Finding.isRefusal]

private theorem refusalFindings_rateConflicts (banks : List Bank) (timings : Timings) :
    refusalFindings (banks.flatMap (Bank.rateConflicts timings)) = [] := by
  refine refusalFindings_eq_nil fun diagnostic member => ?_
  obtain ⟨bank, _, issue⟩ := List.mem_flatMap.mp member
  simp [(rateConflicts_kind issue).2, Finding.isRefusal]

private theorem refusalFindings_sharedChannels (banks : List Bank) :
    refusalFindings (banks.flatMap Bank.sharedChannels) = [] := by
  refine refusalFindings_eq_nil fun diagnostic member => ?_
  obtain ⟨bank, _, issue⟩ := List.mem_flatMap.mp member
  simp [(sharedChannels_kind issue).2, Finding.isRefusal]

/-- The findings with the kinds of refusals are the errors for the refused assignments,
in the order of the passes. -/
theorem refusalFindings_findings :
    refusalFindings (findings board table options) =
      (passes board).filterMap (refusalIssue? board table) := by
  have buses : refusalFindings ((declaredBuses board).flatMap (busIssues board table)) =
      (busSources board).filterMap (refusalIssue? board table) := by
    rw [refusalFindings_flatMap, busSources, List.filterMap_flatMap]
    exact List.flatMap_congr fun bus _ => refusalFindings_busIssues bus
  have timed : refusalFindings ((outputs board).flatMap (outputIssues board table)) =
      (outputs board).filterMap (refusalIssue? board table) := by
    rw [refusalFindings_flatMap, List.filterMap_eq_flatMap_toList]
    exact List.flatMap_congr fun source member => refusalFindings_outputIssues member
  have roles : refusalFindings ((roleAssignments board).flatMap fun member =>
        roleIssues table member.1 member.2) =
      (roleSources board).filterMap (refusalIssue? board table) := by
    rw [refusalFindings_flatMap, roleSources, List.filterMap_eq_flatMap_toList,
      List.flatMap_map]
    exact List.flatMap_congr fun _ member => refusalFindings_roleIssues member
  have instances : refusalFindings (sharedInstances (resolveBuses board table)) = [] :=
    refusalFindings_eq_nil fun diagnostic issue => by
      simp [(sharedInstances_kind issue).2, Finding.isRefusal]
  have devices : refusalFindings (deviceIssues board (resolveBuses board table)) = [] := by
    refine refusalFindings_eq_nil fun diagnostic issue => ?_
    rcases (deviceIssues_kind issue).2 with named | named <;> simp [named, Finding.isRefusal]
  have pins : refusalFindings (sharedPins board) = [] :=
    refusalFindings_eq_nil fun diagnostic issue => by
      simp [(sharedPins_kind issue).2, Finding.isRefusal]
  simp only [findings, resolvedBoard, refusalFindings_append, buses, timed, roles, instances,
    devices, pins, refusalFindings_rates, refusalFindings_rateConflicts,
    refusalFindings_sharedChannels, passes, List.filterMap_append,
    List.append_nil]

end Pinout.Resolution
