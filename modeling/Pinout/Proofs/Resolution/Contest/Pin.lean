import Pinout.Proofs.Resolution.Conflict
import Pinout.Proofs.Resolution.Contest.Basic

/-! Contested pins. The check looks at the claims that the board makes, whatever becomes of them,
and goes through the pins in their order; resources outside the model make no claim. -/

set_option autoImplicit false

namespace Pinout

/-- The pins are listed by port and then number, each once. -/
theorem Pin.pairwise_all : Pin.all.Pairwise fun left right => left.rank < right.rank := by
  rw [Pin.all, List.pairwise_flatMap]
  constructor
  · intro port _
    refine List.pairwise_map.mpr ((List.pairwise_lt_finRange 16).imp fun {early late} before => ?_)
    have numbers : early.val < late.val := before
    simpa [Pin.rank] using numbers
  · refine (List.pairwise_lt_finRange 11).imp fun {early late} before => ?_
    intro left leftMember right rightMember
    obtain ⟨number, _, rfl⟩ := List.mem_map.mp leftMember
    obtain ⟨other, _, rfl⟩ := List.mem_map.mp rightMember
    have ports : early.val < late.val := before
    simp only [Pin.rank]
    omega

theorem Pin.nodup_all : Pin.all.Nodup :=
  Pin.pairwise_all.imp fun before same => by simp [same] at before

namespace Resolution

open Board (Assignment Definition Policy)
open Capability (Table)

/-- Two modeled resources claim the pin. -/
def ContestedPin (board : Definition) (pin : Pin) : Prop :=
  ∃ left ∈ board.modeled, ∃ right ∈ board.modeled,
    left.id ≠ right.id ∧ left.pin = pin ∧ right.pin = pin

/-- An error about a pin that lists the claims of modeled resources to it. -/
structure ReportsPin (board : Definition) (pin : Pin) (diagnostic : Diagnostic) : Prop where
  error : diagnostic.isError = true
  place : diagnostic.pin = some pin
  message :
    let claims := board.modeled.filter fun claim => claim.pin = pin
    diagnostic.message = s!"{pin} is used by {claims.length} resources: " ++
      ", ".intercalate (claims.map fun claim => s!"{claim.id} (line {claim.line})")

/-- What an outcome owes to the contested pins of its board. -/
structure ReportsPins (board : Definition) (outcome : Outcome) : Prop where
  once : OneEach (ContestedPin board) (ReportsPin board) (outcome.reports .pinConflict)
  ordered : (outcome.reports .pinConflict).Pairwise fun left right =>
    ∃ early late, left.pin = some early ∧ right.pin = some late ∧ early.rank < late.rank
  /-- A board with the same modeled resources has the same contests, whatever else it says and
  whatever becomes of them. -/
  modeledOnly : ∀ other : Definition, other.modeled = board.modeled → ∀ table options,
    (resolve other table options).reports .pinConflict = outcome.reports .pinConflict

variable {board : Definition} {pin : Pin} {diagnostic : Diagnostic}

theorem reports_pinConflict (board : Definition) (table : Table) (options : Options) :
    (resolve board table options).reports .pinConflict = sharedPins board :=
  reports_of_isContest rfl

theorem reportsPin_of_sharedPin? (issue : sharedPin? board pin = some diagnostic) :
    ReportsPin board pin diagnostic := by
  unfold sharedPin? at issue
  split at issue
  · rename_i first second rest claims
    cases issue
    refine ⟨rfl, rfl, ?_⟩
    have listed : (board.modeled.filter fun claim => claim.pin = pin) = first :: second :: rest :=
      claims
    rw [listed]
  · cases issue

theorem exists_sharedPin?_iff_contested (unambiguous : board.Unambiguous) :
    (∃ diagnostic, sharedPin? board pin = some diagnostic) ↔ ContestedPin board pin := by
  have claimed := Grouping.filter_eq_cons_cons_iff unambiguous.modeled
    fun assignment => decide (assignment.pin = pin)
  rw [exists_sharedPin?_iff, pinClaims, claimed]
  simp only [decide_eq_true_eq, ContestedPin]

theorem oneEach_sharedPins (unambiguous : board.Unambiguous) :
    OneEach (ContestedPin board) (ReportsPin board) (sharedPins board) := by
  apply oneEach_filterMap id
  case distinct => exact (List.map_id Pin.all).symm ▸ Pin.nodup_all
  case told =>
    intro pin _ diagnostic issue
    exact ⟨(exists_sharedPin?_iff_contested unambiguous).mp ⟨diagnostic, issue⟩,
      reportsPin_of_sharedPin? issue⟩
  case complete =>
    intro pin contested
    exact ⟨pin, pin.mem_all, rfl, (exists_sharedPin?_iff_contested unambiguous).mpr contested⟩
  case telling =>
    intro diagnostic left right first second
    exact Option.some.inj (first.place.symm.trans second.place)

theorem pairwise_sharedPins (board : Definition) :
    (sharedPins board).Pairwise fun left right =>
      ∃ early late, left.pin = some early ∧ right.pin = some late ∧ early.rank < late.rank := by
  refine Pin.pairwise_all.filterMap _ ?_
  intro early late before left first right second
  exact ⟨early, late, (reportsPin_of_sharedPin? first).place,
    (reportsPin_of_sharedPin? second).place, before⟩

theorem sharedPins_congr {other : Definition} (same : other.modeled = board.modeled) :
    sharedPins other = sharedPins board := by
  have alike : sharedPin? other = sharedPin? board := by
    funext pin
    rw [sharedPin?, sharedPin?, pinClaims, pinClaims, same]
  rw [sharedPins, sharedPins, alike]

/-- Whatever a board and a table say, each pin that several modeled resources claim has one
error, which lists their claims, and the errors stand in the order of the pins. -/
theorem reportsPins_resolve (policy : Policy) (text : String) (table : Table)
    (options : Options) :
    ReportsPins (Board.parse policy text).board
      (resolve (Board.parse policy text).board table options) where
  once := by
    rw [reports_pinConflict]
    exact oneEach_sharedPins (Board.parse_unambiguous policy text)
  ordered := by
    rw [reports_pinConflict]
    exact pairwise_sharedPins _
  modeledOnly := by
    intro other same otherTable otherOptions
    rw [reports_pinConflict, reports_pinConflict, sharedPins_congr same]

end Resolution

end Pinout
