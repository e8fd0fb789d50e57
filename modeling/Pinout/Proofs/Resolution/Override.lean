import Pinout.Proofs.Resolution.Uniformity

/-! Settings for the instances of buses. A bus follows its setting wherever the value asks for a
number. Any other value draws a warning, and the bus stays at the instance that its own number
implies. A bare zero is such a value; the name of an instance zero asks for it. -/

set_option autoImplicit false

namespace Pinout.Resolution

open Board (Definition Setting)
open Selector (Asks Names capitals)
open Text (Denotes Numeral)

/-- The warning about a value that asks for no instance. -/
def unreadOverride (bus : BusId) (setting : Setting) : Diagnostic where
  severity := .warning
  finding := .syntaxIssue
  message := s!"{setting.key} = {setting.value} does not name a {bus.kind} instance; " ++
    s!"using {impliedSelector bus}"
  line := some setting.line

/-- A bus is wanted at an instance, with this warning about its setting or with none. A run
repeats the warning, and places the bus at that instance or not at all. -/
structure Heeds (board : Definition) (bus : BusId) (selector : Selector)
    (warning : Option Diagnostic) : Prop where
  wanted : wantedSelector board bus = selector
  issue : overrideIssue? board bus = warning
  reported : ∀ table options, bus ∈ declaredBuses board → ∀ diagnostic ∈ warning,
    diagnostic ∈ (resolve board table options).diagnostics
  placed : ∀ table options, ∀ resolved ∈ (resolve board table options).board.buses,
    resolved.kind = bus.kind → resolved.index = bus.index → resolved.selector = selector

variable {board : Definition} {bus : BusId} {setting : Setting} {number : UInt8}

theorem heeds (board : Definition) (bus : BusId) :
    Heeds board bus (wantedSelector board bus) (overrideIssue? board bus) where
  wanted := rfl
  issue := rfl
  reported _ _ declared _ issue := mem_findings_iff.mpr (.override declared issue)
  placed table options resolved member kind index := by
    obtain ⟨owner, _, found⟩ := List.mem_filterMap.mp member
    obtain ⟨sameIndex, sameKind⟩ := resolveBus?_eq_some found
    have same : owner = bus := by
      cases owner
      cases bus
      rw [BusId.mk.injEq]
      exact ⟨sameKind.symm.trans kind, sameIndex.symm.trans index⟩
    rw [selector_of_resolveBus? found, same]

theorem heeds_unset (unset : override? board bus = none) :
    Heeds board bus (impliedSelector bus) none := by
  have told := heeds board bus
  simpa only [wantedSelector, overrideIssue?, unset] using told

theorem heeds_asked (set : override? board bus = some setting)
    (asks : Asks bus.kind (capitals setting.value) number) :
    Heeds board bus ⟨bus.kind, number⟩ none := by
  have read : Selector.ofValue? bus.kind setting.value = some ⟨bus.kind, number⟩ :=
    Selector.ofValue?_eq_some_iff.mpr ⟨rfl, asks⟩
  have told := heeds board bus
  simpa only [wantedSelector, overrideIssue?, set, read, Option.getD_some] using told

theorem heeds_unasked (set : override? board bus = some setting)
    (silent : ∀ number, ¬ Asks bus.kind (capitals setting.value) number) :
    Heeds board bus (impliedSelector bus) (some (unreadOverride bus setting)) := by
  have unread := Selector.ofValue?_eq_none_iff.mpr silent
  have told := heeds board bus
  simpa only [wantedSelector, overrideIssue?, set, unread, Option.getD_none, unreadOverride]
    using told

/-- How values ask for instances of a kind, and what the settings of its buses come to. Timers and
analog converters have values that name them, but no settings. -/
structure ReadsInstances (kind : Kind) : Prop where
  reads : ∀ value selector, Selector.ofValue? kind value = some selector ↔
    selector.kind = kind ∧ Asks kind (capitals value) selector.number
  positive : ∀ value selector, Selector.ofValue? kind value = some selector →
    1 ≤ selector.number.toNat ∨ Names kind (capitals value) 0
  agrees : ∀ stem ∈ kind.stems, ∀ digits count value bare, Denotes digits count →
    capitals value = stem.toList ++ digits → capitals bare = digits →
      (Selector.ofValue? kind value = Selector.ofValue? kind bare ↔ 1 ≤ count)
  unread : kind ∉ busKinds → ∀ board bus, bus.kind = kind →
    Heeds board bus (impliedSelector bus) none
  unset : kind ∈ busKinds → ∀ board bus, bus.kind = kind →
    board.settingEntry? (overrideKey bus) = none → Heeds board bus (impliedSelector bus) none
  followed : kind ∈ busKinds → ∀ board bus setting number, bus.kind = kind →
    board.settingEntry? (overrideKey bus) = some setting →
      Asks kind (capitals setting.value) number → Heeds board bus ⟨kind, number⟩ none
  refused : kind ∈ busKinds → ∀ board bus setting, bus.kind = kind →
    board.settingEntry? (overrideKey bus) = some setting →
      (∀ number, ¬ Asks kind (capitals setting.value) number) →
        Heeds board bus (impliedSelector bus) (some (unreadOverride bus setting))
  zero : kind ∈ busKinds → ∀ board bus setting, bus.kind = kind →
    board.settingEntry? (overrideKey bus) = some setting → Numeral (capitals setting.value) 0 →
      Heeds board bus (impliedSelector bus) (some (unreadOverride bus setting))

/-- A name and the digits that end it are read alike from one on, as a setting or elsewhere. Zero
is refused as a numeral only. -/
theorem readsInstances (kind : Kind) : ReadsInstances kind where
  reads _ _ := Selector.ofValue?_eq_some_iff
  positive value selector read := by
    obtain ⟨rfl, asks⟩ := Selector.ofValue?_eq_some_iff.mp read
    rcases asks with ⟨_, positive⟩ | names
    · exact .inl (Text.one_le_toNat_iff.mpr positive)
    · rcases Nat.eq_zero_or_pos selector.number.toNat with zero | positive
      · exact .inr (zero ▸ names)
      · exact .inl positive
  agrees stem listed digits count value bare denotes spelled last := by
    rw [Nat.one_le_iff_ne_zero]
    exact Selector.ofValue?_eq_iff ⟨stem, listed, digits, denotes, spelled⟩ (last ▸ .plain denotes)
  unread unlisted board bus ofKind := heeds_unset (if_neg (ofKind ▸ unlisted))
  unset listed board bus ofKind unset := by
    subst ofKind
    exact heeds_unset ((override?_of_mem_busKinds board listed).trans unset)
  followed listed board bus setting number ofKind set asks := by
    subst ofKind
    exact heeds_asked ((override?_of_mem_busKinds board listed).trans set) asks
  refused listed board bus setting ofKind set silent := by
    subst ofKind
    exact heeds_unasked ((override?_of_mem_busKinds board listed).trans set) silent
  zero listed board bus setting ofKind set zero := by
    subst ofKind
    refine heeds_unasked ((override?_of_mem_busKinds board listed).trans set) fun number asks => ?_
    obtain ⟨same, positive⟩ := (Selector.asks_iff_of_numeral zero).mp asks
    exact positive (UInt8.toNat_inj.mp same)

/-- A board that wants its bus at an instance zero. -/
def zeroBoard : String :=
  "set bus_spi_1 = SPI0\nresource SPI_MOSI 1 A07"

/-- The name of an instance zero is read, where the bare zero is not, and a bus is wanted there
without any warning. -/
theorem exists_zero_instance :
    Selector.ofValue? .spi "SPI0" = some ⟨.spi, 0⟩ ∧ Selector.ofValue? .spi "0" = none ∧
      wantedSelector (Board.parse .lastWins zeroBoard).board ⟨.spi, 1⟩ = ⟨.spi, 0⟩ ∧
        overrideIssue? (Board.parse .lastWins zeroBoard).board ⟨.spi, 1⟩ = none := by
  decide +kernel

end Pinout.Resolution
