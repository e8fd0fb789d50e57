import Pinout.Resolution.Bus

/-! What the decision on one resource says. A decision names a table entry or refuses
with one of five findings, and it does each of these under a condition on the entries of
the pin that holds for no other. -/

set_option autoImplicit false

namespace Pinout

/-- The findings that a resource without a place is reported as. -/
def Finding.isRefusal : Finding → Bool
  | .unsupportedPin | .instanceMismatch | .missingTimer | .noMatchingVariant
  | .ambiguousMapping => true
  | _ => false

namespace Capability

theorem Entry.kind_of_signal? {entry : Entry} {signal : Signal}
    (carried : entry.signal? = some signal) : entry.kind = signal.kind := by
  unfold Entry.signal? at carried
  split at carried
  · rename_i used
    cases carried
    simp [Entry.kind, used, Use.kind]
  · cases carried

theorem Entry.timerChannel?_of_kind {entry : Entry} (timer : entry.kind = .timer) :
    ∃ channel, entry.timerChannel? = some channel := by
  cases used : entry.use with
  | timer channel complementary => exact ⟨channel, by simp [Entry.timerChannel?, used]⟩
  | bus signal => cases signal <;> simp [Entry.kind, used, Use.kind, Signal.kind] at timer
  | analog channel => simp [Entry.kind, used, Use.kind] at timer

namespace Table

/-- A signal belongs to one kind, so the entries for it are found by pin and signal. -/
theorem entriesForSignal_eq (table : Table) (pin : Pin) (signal : Signal) :
    table.entriesForSignal pin signal =
      table.entries.filter fun entry => entry.pin.base = pin ∧ entry.signal? = some signal := by
  simp only [entriesForSignal, entriesFor_eq, List.filter_filter]
  apply List.filter_congr
  intro entry _
  by_cases carried : entry.signal? = some signal
  · simp [carried, Entry.kind_of_signal? carried]
  · simp [carried]

theorem carrying?_eq (table : Table) (pin : Pin) (signal : Signal) (wanted : Selector) :
    table.carrying? pin signal wanted = table.entries.find? fun entry =>
      entry.pin.base = pin ∧ entry.signal? = some signal ∧
        wanted.selects entry.target = true := by
  rw [carrying?, entriesForSignal_eq, List.find?_filter]
  congr 1
  funext entry
  simp [Bool.and_assoc]

end Table

end Capability

namespace Resolution

open Board (Timer)
open Capability (Entry Table)

theorem Refusal.isRefusal_finding (refusal : Refusal) :
    refusal.finding.isRefusal = true := by
  cases refusal <;> rfl

/-- The decision is a refusal with this finding. -/
def RefusesAs {α : Type} (decision : Except Refusal α) (finding : Finding) : Prop :=
  ∃ refusal, decision = .error refusal ∧ refusal.finding = finding

@[simp]
theorem refusesAs_ok {α : Type} {entry : α} {finding : Finding} :
    ¬ RefusesAs (.ok entry) finding := by
  simp [RefusesAs]

@[simp]
theorem refusesAs_error {α : Type} {refusal : Refusal} {finding : Finding} :
    RefusesAs (α := α) (.error refusal) finding ↔ refusal.finding = finding := by
  simp [RefusesAs]

section Signal

variable {table : Table} {pin : Pin} {signal : Signal} {wanted : Selector}

theorem placeSignal_eq_ok_iff {entry : Entry} :
    placeSignal table pin signal wanted = .ok entry ↔
      table.carrying? pin signal wanted = some entry := by
  fun_cases placeSignal table pin signal wanted <;> simp [*]

theorem placeSignal_unsupportedPin_iff :
    RefusesAs (placeSignal table pin signal wanted) .unsupportedPin ↔
      table.entriesForSignal pin signal = [] := by
  fun_cases placeSignal table pin signal wanted with
  | case1 entry reached =>
      have carrying : table.entriesForSignal pin signal ≠ [] := by
        intro empty
        rw [Table.carrying?, empty] at reached
        cases reached
      simp [carrying]
  | case2 _ empty => simp [empty, Refusal.finding]
  | case3 _ empty => simp [empty, Refusal.finding]
  | case4 _ carrying => simpa [Refusal.finding] using carrying

theorem placeSignal_instanceMismatch_iff :
    RefusesAs (placeSignal table pin signal wanted) .instanceMismatch ↔
      table.entriesForSignal pin signal ≠ [] ∧ table.carrying? pin signal wanted = none := by
  fun_cases placeSignal table pin signal wanted with
  | case1 entry reached => simp [reached]
  | case2 _ empty => simp [empty, Refusal.finding]
  | case3 _ empty => simp [empty, Refusal.finding]
  | case4 unreached carrying => simpa [Refusal.finding, unreached] using carrying

end Signal

section Output

variable {table : Table} {pin : Pin} {timer : Option Timer}

theorem timerEntries_eq (table : Table) (pin : Pin) (function : UInt8) :
    timerEntries table pin function = table.entries.filter fun entry =>
      entry.pin.base = pin ∧ entry.kind = .timer ∧ entry.function = some function := by
  rw [timerEntries, Table.entriesFor_eq, List.filter_filter]
  refine List.filter_congr fun entry _ => ?_
  rw [← Bool.decide_and, decide_eq_decide, and_comm, and_assoc]

theorem timerEntries_of_entriesFor {function : UInt8}
    (empty : table.entriesFor pin .timer = []) : timerEntries table pin function = [] := by
  rw [timerEntries, empty, List.filter_nil]

theorem placeOutput_eq_ok_iff {entry : Entry} : placeOutput table pin timer = .ok entry ↔
    ∃ named, timer = some named ∧ timerEntries table pin named.function = [entry] := by
  fun_cases placeOutput table pin timer with
  | case1 => simp
  | case2 named chosen matching => simp [matching]
  | case3 named unmatched => simp [unmatched]
  | case4 named unmatched => simp [unmatched]
  | case5 named several => simpa using several entry

theorem placeOutput_missingTimer_iff :
    RefusesAs (placeOutput table pin timer) .missingTimer ↔ timer = none := by
  fun_cases placeOutput table pin timer <;> simp [Refusal.finding]

theorem placeOutput_unsupportedPin_iff :
    RefusesAs (placeOutput table pin timer) .unsupportedPin ↔
      ∃ named, timer = some named ∧ table.entriesFor pin .timer = [] := by
  fun_cases placeOutput table pin timer with
  | case1 => simp [Refusal.finding]
  | case2 named chosen matching =>
      have offered : table.entriesFor pin .timer ≠ [] := by
        intro empty
        rw [timerEntries_of_entriesFor empty] at matching
        cases matching
      simp [offered]
  | case3 _ _ empty => simp [empty, Refusal.finding]
  | case4 _ _ offered => simpa [Refusal.finding] using offered
  | case5 _ _ matching =>
      have offered : table.entriesFor pin .timer ≠ [] := by
        intro empty
        exact matching (timerEntries_of_entriesFor empty)
      simp [offered, Refusal.finding]

theorem placeOutput_noMatchingVariant_iff :
    RefusesAs (placeOutput table pin timer) .noMatchingVariant ↔
      ∃ named, timer = some named ∧ table.entriesFor pin .timer ≠ [] ∧
        timerEntries table pin named.function = [] := by
  fun_cases placeOutput table pin timer with
  | case1 => simp [Refusal.finding]
  | case2 named chosen matching => simp [matching]
  | case3 _ _ empty => simp [empty, Refusal.finding]
  | case4 named unmatched offered => simpa [unmatched, Refusal.finding] using offered
  | case5 _ _ matching => simpa [Refusal.finding] using fun _ => matching

theorem placeOutput_ambiguousMapping_iff :
    RefusesAs (placeOutput table pin timer) .ambiguousMapping ↔
      ∃ named, timer = some named ∧ 2 ≤ (timerEntries table pin named.function).length := by
  fun_cases placeOutput table pin timer with
  | case1 => simp [Refusal.finding]
  | case2 named chosen matching => simp [matching]
  | case3 _ unmatched => simp [unmatched, Refusal.finding]
  | case4 _ unmatched => simp [unmatched, Refusal.finding]
  | case5 named several matching =>
      simp only [refusesAs_error, Refusal.finding, Option.some.injEq, exists_eq_left', true_iff]
      match found : timerEntries table pin named.function with
      | [] => exact absurd found matching
      | [entry] => exact absurd found (several entry)
      | first :: second :: rest => simp

end Output

end Resolution

end Pinout
