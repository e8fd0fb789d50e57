import Pinout.Proofs.Resolution.Accounting

/-! Contests: findings about one thing that several resources claim. There are three kinds of
them, each raised by one check and by no other part of resolution. A check looks at its things
one by one, so it has one finding for each of them that is contested. -/

set_option autoImplicit false

namespace Pinout

/-- The findings about a pin, a channel or an instance that several resources claim. -/
def Finding.isContest : Finding → Bool
  | .pinConflict | .timerChannelConflict | .busInstanceConflict => true
  | _ => false

theorem Finding.isContest_of_isRefusal {finding : Finding} (refusal : finding.isRefusal = true) :
    finding.isContest = false := by
  cases finding <;> first | rfl | cases refusal

namespace Resolution

open Board (Assignment Definition)
open Capability (Entry Table)

/-- The findings of one kind, in order. -/
def Outcome.reports (outcome : Outcome) (finding : Finding) : List Diagnostic :=
  outcome.diagnostics.filter fun diagnostic => diagnostic.finding = finding

/-- There is one finding for each contested key, and no finding besides. -/
structure OneEach {κ : Type} (contested : κ → Prop) (reports : κ → Diagnostic → Prop)
    (found : List Diagnostic) : Prop where
  each : ∀ key, contested key → ∃ before diagnostic after,
    found = before ++ diagnostic :: after ∧ reports key diagnostic ∧
      ∀ other ∈ before ++ after, ¬ reports key other
  only : ∀ diagnostic ∈ found, ∃ key, contested key ∧ reports key diagnostic ∧
    ∀ other, reports other diagnostic → other = key

/-- A pass over items with different keys has one finding for each key, if findings tell their
keys. -/
theorem oneEach_filterMap {ι κ : Type} {items : List ι} (key : ι → κ)
    {report? : ι → Option Diagnostic} {contested : κ → Prop} {reports : κ → Diagnostic → Prop}
    (distinct : (items.map key).Nodup)
    (told : ∀ item ∈ items, ∀ diagnostic, report? item = some diagnostic →
      contested (key item) ∧ reports (key item) diagnostic)
    (complete : ∀ wanted, contested wanted →
      ∃ item ∈ items, key item = wanted ∧ ∃ diagnostic, report? item = some diagnostic)
    (telling : ∀ diagnostic left right, reports left diagnostic → reports right diagnostic →
      left = right) :
    OneEach contested reports (items.filterMap report?) where
  each := by
    intro wanted claimed
    obtain ⟨item, member, rfl, diagnostic, found⟩ := complete wanted claimed
    obtain ⟨front, back, rfl⟩ := List.append_of_mem member
    refine ⟨front.filterMap report?, diagnostic, back.filterMap report?, ?_,
      (told item member diagnostic found).2, ?_⟩
    · rw [List.filterMap_append, List.filterMap_cons_some found]
    · intro other inside named
      rw [← List.filterMap_append] at inside
      obtain ⟨elsewhere, among, otherFound⟩ := List.mem_filterMap.mp inside
      have moved : (front ++ item :: back).Perm (item :: (front ++ back)) := List.perm_middle
      have listed := moved.mem_iff.mpr (List.mem_cons_of_mem item among)
      have same := telling other _ _ (told elsewhere listed other otherFound).2 named
      have apart := List.nodup_cons.mp ((moved.map key).nodup_iff.mp distinct)
      exact apart.1 (same ▸ List.mem_map_of_mem among)
  only := by
    intro diagnostic member
    obtain ⟨item, among, found⟩ := List.mem_filterMap.mp member
    obtain ⟨claimed, named⟩ := told item among diagnostic found
    exact ⟨key item, claimed, named, fun other also => telling diagnostic _ _ also named⟩

/-! ## The three checks -/

variable {board : Definition} {table : Table} {options : Options} {diagnostic : Diagnostic}

theorem isContest_refusal (refusal : Refusal) (mcu : String) (source : Assignment) :
    (refusal.diagnostic mcu source).finding.isContest = false :=
  Finding.isContest_of_isRefusal refusal.isRefusal_finding

theorem isContest_busIssue {bus : BusId} (issue : diagnostic ∈ busIssues board table bus) :
    diagnostic.finding.isContest = false := by
  rcases mem_busIssues_iff.mp issue with override | ⟨source, _, refusal, _, rfl⟩ | incomplete
  · rw [(overrideIssue?_kind override).2]
    rfl
  · exact isContest_refusal refusal table.mcu source
  · rw [(incompleteIssue?_kind incomplete).2]
    rfl

theorem isContest_deviceIssue {buses : List Bus} (issue : diagnostic ∈ deviceIssues board buses) :
    diagnostic.finding.isContest = false := by
  rcases (deviceIssues_kind issue).2 with named | named <;> rw [named] <;> rfl

theorem isContest_rateIssue {origin : RateSource} (issue : diagnostic ∈ origin.issues board) :
    diagnostic.finding.isContest = false := by
  rcases (rateIssues_kind issue).2 with named | named <;> rw [named] <;> rfl

theorem isContest_outputIssue {source : Assignment} (timed : source ∈ outputs board)
    (issue : diagnostic ∈ outputIssues board table source) :
    diagnostic.finding.isContest = false := by
  rcases (mem_outputIssues_iff timed).mp issue with ⟨refusal, _, rfl⟩ | ⟨entry, _, advisory⟩
  · exact isContest_refusal refusal table.mcu source
  · rw [(advisoryIssue?_kind advisory).2]
    rfl

theorem isContest_roleIssue {source : Assignment} {role : Role}
    (member : (source, role) ∈ roleAssignments board)
    (issue : diagnostic ∈ roleIssues table source role) : diagnostic.finding.isContest = false := by
  rcases (mem_roleIssues_iff member).mp issue with ⟨refusal, _, rfl⟩ | ⟨_, _, rfl⟩
  · exact isContest_refusal refusal table.mcu source
  · rfl

theorem filter_isContest_eq_nil {diagnostics : List Diagnostic}
    (others : ∀ diagnostic ∈ diagnostics, diagnostic.finding.isContest = false) :
    diagnostics.filter (·.finding.isContest) = [] :=
  List.filter_eq_nil_iff.mpr fun diagnostic member => by simp [others diagnostic member]

theorem filter_finding {diagnostics : List Diagnostic} {kind : Finding}
    (named : ∀ diagnostic ∈ diagnostics, diagnostic.finding = kind) (finding : Finding) :
    diagnostics.filter (fun diagnostic => diagnostic.finding = finding) =
      if kind = finding then diagnostics else [] := by
  split
  · rename_i same
    refine List.filter_eq_self.mpr fun diagnostic member => ?_
    rw [named diagnostic member, decide_eq_true same]
  · rename_i apart
    refine List.filter_eq_nil_iff.mpr fun diagnostic member => ?_
    rw [named diagnostic member]
    simpa using apart

/-- The contests among the findings come from the three checks. -/
theorem contests_findings (board : Definition) (table : Table) (options : Options) :
    (findings board table options).filter (·.finding.isContest) =
      sharedInstances (resolveBuses board table) ++
        (banksOf (placedOutputs board table)).flatMap Bank.sharedChannels ++
          sharedPins board := by
  have buses : ((declaredBuses board).flatMap (busIssues board table)).filter
      (·.finding.isContest) = [] := by
    refine filter_isContest_eq_nil fun diagnostic member => ?_
    obtain ⟨bus, _, issue⟩ := List.mem_flatMap.mp member
    exact isContest_busIssue issue
  have timed : ((outputs board).flatMap (outputIssues board table)).filter
      (·.finding.isContest) = [] := by
    refine filter_isContest_eq_nil fun diagnostic member => ?_
    obtain ⟨source, inside, issue⟩ := List.mem_flatMap.mp member
    exact isContest_outputIssue inside issue
  have roles : ((roleAssignments board).flatMap fun member =>
      roleIssues table member.1 member.2).filter (·.finding.isContest) = [] := by
    refine filter_isContest_eq_nil fun diagnostic member => ?_
    obtain ⟨⟨source, role⟩, inside, issue⟩ := List.mem_flatMap.mp member
    exact isContest_roleIssue inside issue
  have rates (timings : Timings) : ((banksOf (placedOutputs board table)).flatMap
      (Bank.rateConflicts timings)).filter (·.finding.isContest) = [] := by
    refine filter_isContest_eq_nil fun diagnostic member => ?_
    obtain ⟨bank, _, issue⟩ := List.mem_flatMap.mp member
    rw [(rateConflicts_kind issue).2]
    rfl
  have whole {diagnostics : List Diagnostic}
      (contests : ∀ diagnostic ∈ diagnostics, diagnostic.finding.isContest = true) :
      diagnostics.filter (·.finding.isContest) = diagnostics :=
    List.filter_eq_self.mpr contests
  have instances : (sharedInstances (resolveBuses board table)).filter (·.finding.isContest) = _ :=
    whole fun diagnostic issue => (sharedInstances_kind issue).2 ▸ rfl
  have channels : ((banksOf (placedOutputs board table)).flatMap Bank.sharedChannels).filter
      (·.finding.isContest) = _ := whole fun diagnostic member => by
    obtain ⟨bank, _, issue⟩ := List.mem_flatMap.mp member
    rw [(sharedChannels_kind issue).2]
    rfl
  have pins : (sharedPins board).filter (·.finding.isContest) = _ :=
    whole fun diagnostic issue => (sharedPins_kind issue).2 ▸ rfl
  simp only [findings, resolvedBoard, List.filter_append, buses, timed, roles, rates,
    instances, channels, pins, List.nil_append, List.append_nil,
    filter_isContest_eq_nil fun _ => isContest_deviceIssue,
    filter_isContest_eq_nil fun _ => isContest_rateIssue]

/-- A contest is reported by the check for its kind alone. -/
theorem reports_of_isContest {finding : Finding} (contest : finding.isContest = true) :
    (resolve board table options).reports finding =
      (if .busInstanceConflict = finding then sharedInstances (resolveBuses board table)
        else []) ++
      (if .timerChannelConflict = finding then
        (banksOf (placedOutputs board table)).flatMap Bank.sharedChannels else []) ++
      if .pinConflict = finding then sharedPins board else [] := by
  have among : (resolve board table options).reports finding =
      ((findings board table options).filter (·.finding.isContest)).filter
        fun diagnostic => diagnostic.finding = finding := by
    rw [Outcome.reports, resolve, List.filter_filter]
    refine List.filter_congr fun diagnostic _ => ?_
    by_cases same : diagnostic.finding = finding <;> simp [same, contest]
  rw [among, contests_findings, List.filter_append, List.filter_append,
    filter_finding fun _ issue => (sharedInstances_kind issue).2,
    filter_finding fun _ issue => (sharedPins_kind issue).2, filter_finding fun _ member => ?_]
  obtain ⟨bank, _, issue⟩ := List.mem_flatMap.mp member
  exact (sharedChannels_kind issue).2

end Resolution

end Pinout
