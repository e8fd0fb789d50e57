import Pinout.Proofs.Resolution.Conflict

/-! Rates within banks. The check compares the families of a bank with the first of them alone.
That finds every difference between two of them, and each family that needs another rate than the
first has one error. -/

set_option autoImplicit false

namespace Pinout.Resolution

variable {bank : Bank} {timings : Timings} {leader family : Family}

/-- Some output of the family is in the bank. -/
def Bank.Holds (bank : Bank) (family : Family) : Prop :=
  ∃ placement ∈ bank.channels, placement.family? = some family

instance (bank : Bank) (family : Family) : Decidable (bank.Holds family) :=
  List.decidableBEx _ _

/-- The first family of the bank: motors come before servos, and these before light strips. -/
structure Bank.LedBy (bank : Bank) (leader : Family) : Prop where
  held : bank.Holds leader
  first : ∀ family, bank.Holds family → leader.rank ≤ family.rank

/-- The families of the bank that need another rate than its first one. -/
def Bank.dissenters (bank : Bank) (timings : Timings) (leader : Family) : List Family :=
  Family.all.filter fun family => bank.Holds family ∧
    (timings.of family).frequency ≠ (timings.of leader).frequency

/-- An error about the rates of a bank that points to the first output of the family. -/
structure ReportsRate (bank : Bank) (family : Family) (diagnostic : Diagnostic) : Prop where
  error : diagnostic.isError = true
  finding : diagnostic.finding = .timerFrequencyConflict
  pointer : ∃ output, bank.channels.find? (fun placement => placement.family? = some family) =
      some output ∧ diagnostic.resource = some output.id ∧
    diagnostic.pin = some output.source.pin ∧ diagnostic.line = some output.source.line

/-- What the check owes to a bank. -/
structure ReportsRates (timings : Timings) (bank : Bank) (found : List Diagnostic) : Prop where
  kind : ∀ diagnostic ∈ found,
    diagnostic.severity = .error ∧ diagnostic.finding = .timerFrequencyConflict
  raised_iff : found ≠ [] ↔ ∃ left ∈ bank.channels, ∃ right ∈ bank.channels, ∃ family other,
    left.family? = some family ∧ right.family? = some other ∧
      (timings.of family).frequency ≠ (timings.of other).frequency
  led : (∃ family, bank.Holds family) → ∃ leader, bank.LedBy leader
  each : ∀ leader, bank.LedBy leader →
    List.Forall₂ (ReportsRate bank) (bank.dissenters timings leader) found
  count : ∀ leader, bank.LedBy leader → found.length = (bank.dissenters timings leader).length

/-! ## The first family -/

theorem Bank.drives_eq (bank : Bank) (family : Family) :
    bank.drives family = decide (bank.Holds family) := by
  rw [Bool.eq_iff_iff, decide_eq_true_eq]
  simp only [drives, channelsOf, Bool.not_eq_true', List.isEmpty_eq_false_iff_exists_mem,
    List.mem_filter, decide_eq_true_eq]
  rfl

theorem Bank.pairwise_families (bank : Bank) :
    bank.families.Pairwise fun family other => family.rank < other.rank := by
  have listed : Family.all.Pairwise fun family other => family.rank < other.rank := by decide
  exact listed.sublist List.filter_sublist

theorem Bank.ledBy_iff : bank.LedBy leader ↔ ∃ rest, bank.families = leader :: rest := by
  have sorted := bank.pairwise_families
  constructor
  · intro led
    have member := mem_families_iff.mpr led.held
    cases present : bank.families with
    | nil => simp [present] at member
    | cons first rest =>
        rw [present] at member sorted
        rcases List.mem_cons.mp member with rfl | later
        · exact ⟨rest, rfl⟩
        · have early := led.first first (mem_families_iff.mp (present ▸ List.mem_cons_self))
          have late := (List.pairwise_cons.mp sorted).1 leader later
          omega
  · rintro ⟨rest, present⟩
    refine ⟨mem_families_iff.mp (present ▸ List.mem_cons_self), fun family held => ?_⟩
    have member := mem_families_iff.mpr held
    rw [present] at member sorted
    rcases List.mem_cons.mp member with rfl | later
    · exact Nat.le_refl _
    · exact Nat.le_of_lt ((List.pairwise_cons.mp sorted).1 family later)

theorem Bank.exists_ledBy (held : bank.Holds family) : ∃ leader, bank.LedBy leader := by
  obtain ⟨leader, rest, present⟩ :=
    List.exists_cons_of_ne_nil (List.ne_nil_of_mem (mem_families_iff.mpr held))
  exact ⟨leader, ledBy_iff.mpr ⟨rest, present⟩⟩

/-- The first family agrees with itself, so the others are those that may dissent. -/
theorem Bank.dissenters_eq {rest : List Family} (present : bank.families = leader :: rest) :
    bank.dissenters timings leader = rest.filter fun family =>
      (timings.of family).frequency ≠ (timings.of leader).frequency := by
  have among : bank.dissenters timings leader = bank.families.filter fun family =>
      (timings.of family).frequency ≠ (timings.of leader).frequency := by
    rw [dissenters, families, List.filter_filter]
    refine List.filter_congr fun family _ => ?_
    simp only [drives_eq, Bool.decide_and, Bool.and_comm]
  rw [among, present, List.filter_cons_of_neg (by simp)]

/-! ## Errors -/

theorem rateConflict?_eq_none
    (same : (timings.of family).frequency = (timings.of leader).frequency) :
    bank.rateConflict? timings leader family = none :=
  if_pos same

theorem exists_reportsRate (held : bank.Holds family)
    (apart : (timings.of family).frequency ≠ (timings.of leader).frequency) :
    ∃ diagnostic, bank.rateConflict? timings leader family = some diagnostic ∧
      ReportsRate bank family diagnostic := by
  obtain ⟨output, found⟩ : ∃ output,
      bank.channels.find? (fun placement => placement.family? = some family) = some output := by
    rw [← Option.isSome_iff_exists, List.find?_isSome]
    obtain ⟨placement, member, named⟩ := held
    exact ⟨placement, member, decide_eq_true named⟩
  have pointer : (bank.channelsOf family).head? = some output := by
    rw [Bank.channelsOf, List.head?_filter, found]
  refine ⟨_, if_neg apart, rfl, rfl, output, found, ?_⟩
  simp [pointer]

/-- One report for each item that passes the test, in order. -/
theorem forall₂_filterMap {α β : Type} {related : α → β → Prop} {test : α → Bool}
    {report? : α → Option β} {items : List α}
    (passed : ∀ item ∈ items, test item = true →
      ∃ report, report? item = some report ∧ related item report)
    (others : ∀ item ∈ items, test item = false → report? item = none) :
    List.Forall₂ related (items.filter test) (items.filterMap report?) := by
  induction items with
  | nil => exact .nil
  | cons first rest ih =>
      have later := ih (fun item member => passed item (List.mem_cons_of_mem first member))
        fun item member => others item (List.mem_cons_of_mem first member)
      cases test_first : test first with
      | true =>
          obtain ⟨report, found, told⟩ := passed first List.mem_cons_self test_first
          rw [List.filter_cons_of_pos test_first, List.filterMap_cons_some found]
          exact .cons told later
      | false =>
          rw [List.filter_cons_of_neg (by simp [test_first]),
            List.filterMap_cons_none (others first List.mem_cons_self test_first)]
          exact later

theorem forall₂_rateConflicts (led : bank.LedBy leader) :
    List.Forall₂ (ReportsRate bank) (bank.dissenters timings leader)
      (bank.rateConflicts timings) := by
  obtain ⟨rest, present⟩ := Bank.ledBy_iff.mp led
  rw [Bank.dissenters_eq present, Bank.rateConflicts, present]
  refine forall₂_filterMap (fun family member dissents => ?_) fun family _ agrees => ?_
  · have held := Bank.mem_families_iff.mp (present ▸ List.mem_cons_of_mem leader member)
    exact exists_reportsRate held (by simpa using dissents)
  · exact rateConflict?_eq_none (by simpa using agrees)

theorem rateConflicts_ne_nil_iff : bank.rateConflicts timings ≠ [] ↔
    ∃ left ∈ bank.channels, ∃ right ∈ bank.channels, ∃ family other,
      left.family? = some family ∧ right.family? = some other ∧
        (timings.of family).frequency ≠ (timings.of other).frequency := by
  have mixed := @exists_mixedRates_iff [bank] timings
  simp only [MixesRates, List.mem_singleton, exists_eq_left] at mixed
  rw [← mixed]
  exact ⟨List.exists_mem_of_ne_nil _, fun ⟨_, issue⟩ => List.ne_nil_of_mem issue⟩

theorem reportsRates_rateConflicts (timings : Timings) (bank : Bank) :
    ReportsRates timings bank (bank.rateConflicts timings) where
  kind := fun _ issue => rateConflicts_kind issue
  raised_iff := rateConflicts_ne_nil_iff
  led := fun ⟨_, held⟩ => Bank.exists_ledBy held
  each := fun _ led => forall₂_rateConflicts led
  count := fun _ led => (forall₂_rateConflicts led).length_eq.symm

/-- Whatever the banks and the rates, the check goes from bank to bank. A bank has errors exactly
when two of its outputs are of families with different rates, and as many of them as families
that need another rate than its first one. -/
theorem reportsRates_flatMap (timings : Timings) (banks : List Bank) :
    ∃ found : List (List Diagnostic),
      banks.flatMap (Bank.rateConflicts timings) = found.flatten ∧
        List.Forall₂ (ReportsRates timings) banks found := by
  refine ⟨banks.map (Bank.rateConflicts timings), rfl, ?_⟩
  rw [List.forall₂_map_right_iff, List.forall₂_same]
  exact fun bank _ => reportsRates_rateConflicts timings bank

end Pinout.Resolution
