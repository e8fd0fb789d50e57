import Pinout.Proofs.Resolution.Conflict
import Pinout.Proofs.Resolution.Contest.Basic
import Pinout.Proofs.Resolution.Uniformity
import Pinout.Proofs.Text.Composition

/-! Contested instances. The check compares the instances that buses are named after, and a bus
is named after that of its first pin. Where a selector has two answers, a bus can have a pin at
an instance that it is not named after; buses that meet there are not reported. -/

set_option autoImplicit false

namespace Pinout

theorem Kind.name_injective : Function.Injective Kind.name := by
  intro left right same
  cases left <;> cases right <;> first | rfl | exact absurd same (by decide)

theorem Kind.isWord_name (kind : Kind) : Text.IsWord kind.name := by
  cases kind <;> decide

namespace Resolution

open Board (Definition Policy)
open Capability (Table)

/-- Some pin of the bus is at the instance. -/
def Bus.Uses (bus : Bus) (target : Instance) : Prop :=
  ∃ placement ∈ bus.pins, placement.target? = some target

instance (bus : Bus) (target : Instance) : Decidable (bus.Uses target) :=
  inferInstanceAs (Decidable (∃ placement ∈ bus.pins, placement.target? = some target))

instance (buses : List Bus) : Decidable (SharesInstance buses) :=
  inferInstanceAs (Decidable (∃ left ∈ buses, ∃ right ∈ buses, _))

/-- The indices of the buses of a kind that are named after an instance. -/
def indicesAt (buses : List Bus) (claim : Kind × Instance) : List UInt8 :=
  (buses.filter fun bus => bus.kind = claim.1 ∧ bus.target = claim.2).map Bus.index

/-- Two buses of the kind are named after the instance. -/
def ContestedInstance (buses : List Bus) (claim : Kind × Instance) : Prop :=
  ∃ left ∈ indicesAt buses claim, ∃ right ∈ indicesAt buses claim, left ≠ right

/-- An error about an instance that lists the buses named after it. -/
structure ReportsInstance (buses : List Bus) (claim : Kind × Instance)
    (diagnostic : Diagnostic) : Prop where
  error : diagnostic.isError = true
  message : diagnostic.message =
    s!"{claim.2} is claimed by {claim.1} buses " ++
      " and ".intercalate ((indicesAt buses claim).map toString) ++
      "; each bus index needs its own instance"

/-- Some error about the instance lists both buses. -/
def Outcome.ReportsBoth (outcome : Outcome) (left right : Bus) (target : Instance) : Prop :=
  ∃ diagnostic ∈ outcome.reports .busInstanceConflict,
    ReportsInstance outcome.board.buses (left.kind, target) diagnostic ∧
      left.index ∈ indicesAt outcome.board.buses (left.kind, target) ∧
        right.index ∈ indicesAt outcome.board.buses (left.kind, target)

/-- Two buses of one kind have pins at the instance. -/
structure Meet (left right : Bus) (target : Instance) : Prop where
  sameKind : left.kind = right.kind
  apart : left.index ≠ right.index
  leftUses : left.Uses target
  rightUses : right.Uses target

/-- What an outcome owes to the contested instances of its board. -/
structure ReportsInstances (table : Table) (outcome : Outcome) : Prop where
  once : OneEach (ContestedInstance outcome.board.buses) (ReportsInstance outcome.board.buses)
    (outcome.reports .busInstanceConflict)
  increasing : ∀ claim, (indicesAt outcome.board.buses claim).Pairwise (· < ·)
  /-- An index is listed for a bus with a pin at the instance. -/
  used : ∀ claim, ∀ index ∈ indicesAt outcome.board.buses claim,
    ∃ bus ∈ outcome.board.buses, bus.kind = claim.1 ∧ bus.index = index ∧ bus.Uses claim.2
  /-- Buses that meet at an instance are reported if both are named after it. -/
  told_iff : ∀ left ∈ outcome.board.buses, ∀ right ∈ outcome.board.buses, ∀ target,
    Meet left right target →
      (outcome.ReportsBoth left right target ↔ left.target = target ∧ right.target = target)
  /-- They are, if their selectors have one answer each. -/
  settled : ∀ left ∈ outcome.board.buses, ∀ right ∈ outcome.board.buses, ∀ target,
    Meet left right target → table.Settles left.selector → table.Settles right.selector →
      outcome.ReportsBoth left right target

variable {board : Definition} {table : Table} {options : Options}

theorem reports_busInstanceConflict (board : Definition) (table : Table) (options : Options) :
    (resolve board table options).reports .busInstanceConflict =
      sharedInstances (resolveBuses board table) := by
  rw [reports_of_isContest rfl]
  simp

theorem reports_busInstanceConflict_eq_nil_iff :
    (resolve board table options).reports .busInstanceConflict = [] ↔
      ¬ SharesInstance (resolve board table options).board.buses := by
  have shares : (∃ diagnostic, diagnostic ∈ sharedInstances (resolveBuses board table)) ↔
      SharesInstance (resolve board table options).board.buses := exists_sharedInstances_iff
  rw [reports_busInstanceConflict, ← shares, List.eq_nil_iff_forall_not_mem, not_exists]

/-! ## The order of buses -/

theorem pairwise_declaredBuses (board : Definition) :
    (declaredBuses board).Pairwise fun left right =>
      left.kind = right.kind → left.index < right.index := by
  apply List.Pairwise.filter
  rw [List.pairwise_flatMap]
  constructor
  · intro kind _
    refine List.pairwise_map.mpr (pairwise_allNumbers.imp fun {early late} before => ?_)
    exact fun _ => before
  · have apart : busKinds.Nodup := by decide
    refine apart.imp ?_
    intro early late different left inLeft right inRight same
    obtain ⟨_, _, rfl⟩ := List.mem_map.mp inLeft
    obtain ⟨_, _, rfl⟩ := List.mem_map.mp inRight
    exact absurd same different

theorem pairwise_indicesAt (board : Definition) (table : Table) (claim : Kind × Instance) :
    (indicesAt (resolveBuses board table) claim).Pairwise (· < ·) := by
  have ordered : (resolveBuses board table).Pairwise fun left right =>
      left.kind = right.kind → left.index < right.index := by
    refine (pairwise_declaredBuses board).filterMap _ ?_
    intro early late before left found right also same
    obtain ⟨leftIndex, leftKind⟩ := resolveBus?_eq_some found
    obtain ⟨rightIndex, rightKind⟩ := resolveBus?_eq_some also
    rw [leftIndex, rightIndex]
    exact before (by rw [← leftKind, ← rightKind, same])
  refine List.pairwise_map.mpr ((ordered.filter _).imp_of_mem ?_)
  intro left right leftMember rightMember before
  have ofKind {bus : Bus} (member : bus ∈ (resolveBuses board table).filter fun bus =>
      bus.kind = claim.1 ∧ bus.target = claim.2) : bus.kind = claim.1 := by
    have passed := (List.mem_filter.mp member).2
    exact (of_decide_eq_true passed).1
  exact before (by rw [ofKind leftMember, ofKind rightMember])

theorem mem_indicesAt_iff {buses : List Bus} {claim : Kind × Instance} {index : UInt8} :
    index ∈ indicesAt buses claim ↔
      ∃ bus ∈ buses, bus.kind = claim.1 ∧ bus.target = claim.2 ∧ bus.index = index := by
  simp only [indicesAt, List.mem_map, List.mem_filter, decide_eq_true_eq, and_assoc]

/-- A bus is listed where it is named after the instance. -/
theorem index_mem_indicesAt_iff {bus : Bus} (resolved : bus ∈ resolveBuses board table)
    {target : Instance} :
    bus.index ∈ indicesAt (resolveBuses board table) (bus.kind, target) ↔
      bus.target = target := by
  rw [mem_indicesAt_iff]
  constructor
  · intro given
    obtain ⟨other, member, kind, named, index⟩ := given
    have same : other = bus :=
      List.inj_on_of_nodup_map (nodup_resolveBuses board table) member resolved
        (by rw [kind, index])
    exact same ▸ named
  · intro named
    exact ⟨bus, resolved, rfl, named, rfl⟩

theorem uses_target {bus : Bus} (resolved : bus ∈ resolveBuses board table) :
    bus.Uses bus.target := by
  obtain ⟨_, _, found⟩ := List.mem_filterMap.mp resolved
  exact exists_pin_at_target found

/-- A bus whose selector has one answer has no pin elsewhere. -/
theorem target_of_uses {bus : Bus} (resolved : bus ∈ resolveBuses board table)
    (settles : table.Settles bus.selector) {target : Instance} (uses : bus.Uses target) :
    bus.target = target := by
  obtain ⟨_, _, found⟩ := List.mem_filterMap.mp resolved
  obtain ⟨placement, pinned, located⟩ := uses
  exact Option.some.inj ((target?_of_mem_pins found settles pinned).symm.trans located)

/-! ## One error for each contest -/

/-- The instances that buses are named after, by kind. -/
def instanceClaims (buses : List Bus) : List (Kind × Instance) :=
  Kind.all.flatMap fun kind => (busTargets buses kind).map fun target => (kind, target)

theorem nodup_instanceClaims (buses : List Bus) : (instanceClaims buses).Nodup := by
  rw [instanceClaims, List.nodup_flatMap]
  constructor
  · intro kind _
    have distinct : (busTargets buses kind).Nodup :=
      (List.mergeSort_perm _ _).nodup_iff.mpr (Grouping.nodup_eraseDups _)
    exact distinct.map fun left right same => (Prod.mk.inj same).2
  · have apart : Kind.all.Nodup := by decide
    refine apart.imp ?_
    intro early late different claim inEarly inLate
    obtain ⟨_, _, rfl⟩ := List.mem_map.mp inEarly
    obtain ⟨_, _, same⟩ := List.mem_map.mp inLate
    exact different (Prod.mk.inj same).1.symm

theorem mem_instanceClaims_of_bus {buses : List Bus} {bus : Bus} (member : bus ∈ buses) :
    (bus.kind, bus.target) ∈ instanceClaims buses :=
  List.mem_flatMap.mpr ⟨bus.kind, Kind.mem_all _,
    List.mem_map.mpr ⟨bus.target, target_mem_busTargets member, rfl⟩⟩

theorem sharedInstances_eq (buses : List Bus) :
    sharedInstances buses = (instanceClaims buses).filterMap fun claim =>
      sharedInstance? claim.1 claim.2 (claimants buses claim.1 claim.2) := by
  rw [sharedInstances, instanceClaims, List.filterMap_flatMap]
  refine List.flatMap_congr fun kind _ => ?_
  rw [List.filterMap_map]
  rfl

theorem contestedInstance_iff {claim : Kind × Instance} :
    ContestedInstance (resolveBuses board table) claim ↔
      ∃ diagnostic, sharedInstance? claim.1 claim.2
        (claimants (resolveBuses board table) claim.1 claim.2) = some diagnostic := by
  have claimed := Grouping.filter_eq_cons_cons_iff (nodup_resolveBuses board table)
    fun bus => decide (bus.kind = claim.1 ∧ bus.target = claim.2)
  rw [exists_sharedInstance?_iff, claimants, claimed]
  simp only [ContestedInstance, mem_indicesAt_iff, decide_eq_true_eq]
  constructor
  · intro given
    obtain ⟨_, ⟨left, leftMember, leftKind, leftTarget, rfl⟩, _,
      ⟨right, rightMember, rightKind, rightTarget, rfl⟩, apart⟩ := given
    exact ⟨left, leftMember, right, rightMember, fun same => apart (congrArg BusId.index same),
      ⟨leftKind, leftTarget⟩, rightKind, rightTarget⟩
  · intro given
    obtain ⟨left, leftMember, right, rightMember, apart, ⟨leftKind, leftTarget⟩, rightKind,
      rightTarget⟩ := given
    refine ⟨left.index, ⟨left, leftMember, leftKind, leftTarget, rfl⟩, right.index,
      ⟨right, rightMember, rightKind, rightTarget, rfl⟩, fun same => apart ?_⟩
    rw [leftKind, rightKind, same]

theorem reportsInstance_of_sharedInstance? {buses : List Bus} {claim : Kind × Instance}
    {diagnostic : Diagnostic}
    (issue : sharedInstance? claim.1 claim.2 (claimants buses claim.1 claim.2) =
      some diagnostic) :
    ReportsInstance buses claim diagnostic := by
  unfold sharedInstance? at issue
  split at issue
  · rename_i first second rest claimed
    cases issue
    refine ⟨rfl, ?_⟩
    rw [indicesAt, ← claimants, claimed, List.map_map]
    rfl
  · cases issue

/-- The opening words of an error about an instance tell the instance and the kind. -/
theorem claim_of_message {left right : Kind × Instance} {front back : String}
    (same : s!"{left.2} is claimed by {left.1} buses " ++ front =
      s!"{right.2} is claimed by {right.1} buses " ++ back) : left = right := by
  have worded (claim : Kind × Instance) (rest : String) :
      s!"{claim.2} is claimed by {claim.1} buses " ++ rest = claim.2.name ++ " " ++
        ("is claimed by " ++ (claim.1.name ++ " " ++ ("buses " ++ rest))) := by
    have claimed : toString " is claimed by " = " " ++ "is claimed by " := rfl
    have listed : toString " buses " = " " ++ "buses " := rfl
    rw [claimed, listed]
    simp only [String.append_assoc]
    rfl
  rw [worded, worded] at same
  obtain ⟨targets, others⟩ := Text.eq_of_append_blank left.2.isWord right.2.isWord same
  obtain ⟨kinds, _⟩ := Text.eq_of_append_blank left.1.isWord_name right.1.isWord_name
    ((String.append_right_inj "is claimed by ").mp others)
  exact Prod.ext (Kind.name_injective kinds) (Instance.ext_name targets)

theorem oneEach_sharedInstances (board : Definition) (table : Table) :
    OneEach (ContestedInstance (resolveBuses board table))
      (ReportsInstance (resolveBuses board table))
      (sharedInstances (resolveBuses board table)) := by
  rw [sharedInstances_eq]
  apply oneEach_filterMap id
  case distinct =>
    rw [List.map_id]
    exact nodup_instanceClaims _
  case told =>
    intro claim _ diagnostic issue
    exact ⟨contestedInstance_iff.mpr ⟨diagnostic, issue⟩,
      reportsInstance_of_sharedInstance? issue⟩
  case complete =>
    intro claim contested
    refine ⟨claim, ?_, rfl, contestedInstance_iff.mp contested⟩
    obtain ⟨_, listed, _⟩ := contested
    obtain ⟨bus, member, kind, target, _⟩ := mem_indicesAt_iff.mp listed
    have claimed := mem_instanceClaims_of_bus member
    rwa [kind, target] at claimed
  case telling =>
    intro diagnostic left right first second
    have same := first.message.symm.trans second.message
    apply claim_of_message
    simpa only [String.append_assoc] using same

theorem reportsBoth_iff {left right : Bus} {target : Instance}
    (leftMember : left ∈ resolveBuses board table)
    (rightMember : right ∈ resolveBuses board table) (meet : Meet left right target) :
    (resolve board table options).ReportsBoth left right target ↔
      left.target = target ∧ right.target = target := by
  have rightListed : right.index ∈ indicesAt (resolveBuses board table) (left.kind, target) ↔
      right.target = target := by
    rw [meet.sameKind]
    exact index_mem_indicesAt_iff rightMember
  rw [← index_mem_indicesAt_iff leftMember, ← rightListed]
  constructor
  · intro given
    obtain ⟨_, _, _, listed⟩ := given
    exact listed
  · intro listed
    obtain ⟨front, diagnostic, back, found, reports, _⟩ :=
      (oneEach_sharedInstances board table).each (left.kind, target)
        ⟨_, listed.1, _, listed.2, meet.apart⟩
    refine ⟨diagnostic, ?_, reports, listed⟩
    rw [reports_busInstanceConflict, found]
    exact List.mem_append_right front List.mem_cons_self

/-- Whatever a board and a table say, each instance that several buses of a kind are named after
has one error, which lists them. Buses that meet at an instance go unreported just where one of
them is named after another, which takes a selector with two answers. -/
theorem reportsInstances_resolve (policy : Policy) (text : String) (table : Table)
    (options : Options) :
    ReportsInstances table (resolve (Board.parse policy text).board table options) where
  once := by
    rw [reports_busInstanceConflict]
    exact oneEach_sharedInstances _ table
  increasing := pairwise_indicesAt _ table
  used := by
    intro claim index listed
    obtain ⟨bus, member, kind, target, named⟩ := mem_indicesAt_iff.mp listed
    exact ⟨bus, member, kind, named, target ▸ uses_target member⟩
  told_iff := fun _ leftMember _ rightMember _ meet =>
    reportsBoth_iff leftMember rightMember meet
  settled := by
    intro left leftMember right rightMember target meet leftSettles rightSettles
    exact (reportsBoth_iff leftMember rightMember meet).mpr
      ⟨target_of_uses leftMember leftSettles meet.leftUses,
        target_of_uses rightMember rightSettles meet.rightUses⟩

def crossedBoard : String :=
  "resource SERIAL_TX 1 A09\nresource SERIAL_RX 1 A10\n" ++
    "resource SERIAL_TX 2 B06\nresource SERIAL_RX 2 B07\nset bus_uart_2 = 1"

/-- A table where the first pin of a port is at `USART1` and all others are at `UART1`. -/
def crossedTable : String :=
  "const PinMap PinMap_UART_TX[] = \x7b\x7bPA_9, USART1, 0\x7d, \x7bPB_6, UART1, 0\x7d\x7d;\n" ++
    "const PinMap PinMap_UART_RX[] = \x7b\x7bPA_10, UART1, 0\x7d, \x7bPB_7, UART1, 0\x7d\x7d;"

/-- Buses can meet at an instance without any error. -/
theorem exists_unreported_meeting :
    let outcome := resolve (Board.parse .lastWins crossedBoard).board
      (Capability.parse "F4" crossedTable).table {}
    outcome.reports .busInstanceConflict = [] ∧
      ∃ left ∈ outcome.board.buses, ∃ right ∈ outcome.board.buses, left.kind = right.kind ∧
        left.index ≠ right.index ∧ left.Uses right.target ∧ right.Uses right.target := by
  simp only [reports_busInstanceConflict_eq_nil_iff, Board.board_parse, Capability.table_parse]
  decide +kernel

end Resolution

end Pinout
