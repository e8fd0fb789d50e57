import Pinout.Proofs.PinMap.Place

/-! Text in a section that belongs to no row. What stands before a row is reported, on the line
where the stretch begins; its first character that is no separator can be lines further on.
What stands behind the last row is not reported at all. -/

set_option autoImplicit false

namespace Pinout.PinMap

/-- A stretch of a section's body outside its rows, with all that stands before it. -/
structure Stretch where
  front : List Char
  chars : List Char

namespace Stretch

/-- The stretch holds more than blanks and commas. -/
def isStray (stretch : Stretch) : Bool :=
  stretch.chars.any fun char => !isSeparator char

def line (stretch : Stretch) : Nat :=
  lineAfter stretch.front

/-- The line of the first character that is no separator. -/
def strayLine (stretch : Stretch) : Nat :=
  lineAfter (stretch.front ++ stretch.chars.takeWhile isSeparator)

def flawOn (stretch : Stretch) (line : Nat) : Nat × Flaw :=
  (line, .strayText (String.ofList (trimSeparators stretch.chars)))

theorem strayLine_eq (stretch : Stretch) :
    stretch.strayLine = stretch.line + lineFeeds (stretch.chars.takeWhile isSeparator) :=
  lineAfter_append

theorem trimSeparators_eq_nil_iff {chars : List Char} :
    trimSeparators chars = [] ↔ ∀ char ∈ chars, isSeparator char = true := by
  rw [trimSeparators, List.reverse_eq_nil_iff, List.dropWhile_eq_nil_iff]
  constructor
  · intro blank char member
    by_contra solid
    cases kept : chars.dropWhile isSeparator with
    | nil => exact solid (List.dropWhile_eq_nil_iff.mp kept char member)
    | cons first rest =>
        have stops := List.head?_dropWhile_not isSeparator chars
        have separates := blank first (by simp [kept])
        simp [kept, separates] at stops
  · intro blank char member
    exact blank char (Text.mem_of_mem_dropWhile (List.mem_reverse.mp member))

theorem strayFlaw_eq (stretch : Stretch) (line : Nat) :
    strayFlaw line stretch.chars = if stretch.isStray then [stretch.flawOn line] else [] := by
  have stray : stretch.isStray = true ↔ trimSeparators stretch.chars ≠ [] := by
    rw [isStray, Ne, trimSeparators_eq_nil_iff]
    simp
  unfold strayFlaw
  split
  · rename_i empty
    rw [if_neg (by rw [stray]; exact not_not_intro empty)]
  · rename_i filled
    rw [if_pos (stray.mpr filled)]
    rfl

end Stretch

namespace Place

/-- The stretches before the rows of a section. -/
def between (place : Place) : List Stretch :=
  (spots place.front place.layout.groups).map fun (front, group) => ⟨front, group.stretch⟩

/-- The stretch behind the last row of a section. -/
def last (place : Place) : Stretch :=
  ⟨place.front ++ place.layout.groups.flatMap Group.text, place.layout.tail⟩

theorem flaws_block {place : Place} (proper : place.layout.Proper) :
    place.block.rows.flaws =
      (place.between.filter Stretch.isStray).map fun stretch => stretch.flawOn stretch.line := by
  rw [rows_block proper, between]
  dsimp only
  induction spots place.front place.layout.groups with
  | nil => rfl
  | cons spot rest ih =>
      obtain ⟨front, group⟩ := spot
      have first := Stretch.strayFlaw_eq ⟨front, group.stretch⟩ (lineAfter front)
      dsimp only at first
      rw [List.flatMap_cons, List.map_cons, List.filter_cons, ih, first]
      split <;> rfl

end Place

/-- Whatever a text says, the scan reports each stretch before a row that holds more than
separators, on the line where it begins, and no other stretch. That is the line of the stray
text when no line feed comes before it in the stretch. -/
theorem strayText_scan (text : String) :
    ∃ places : List Place, (∀ place ∈ places, place.Within (strip text.toList)) ∧
      (scan text).items = places.map Place.part ∧
      (∃ ending, Unfinished ending ∧ (scan text).flaws = (places.flatMap fun place =>
        (place.between.filter Stretch.isStray).map fun stretch =>
          stretch.flawOn stretch.line) ++ ending) ∧
      ∀ place ∈ places, ∀ stretch ∈ place.between, stretch.isStray = true →
        '\n' ∉ stretch.chars.takeWhile isSeparator →
          stretch.flawOn stretch.strayLine ∈ (scan text).flaws := by
  obtain ⟨places, within, found, ending⟩ := exists_places 1 [] (strip text.toList) rfl
  have items : (scan text).items = places.map Place.part := by
    rw [scan, blocks, found, List.map_map]
    refine List.map_congr_left fun place member => ?_
    simp only [Function.comp_apply, Place.rows_block (within place member).proper]
    rfl
  have flaws : (scan text).flaws = (places.flatMap fun place =>
      (place.between.filter Stretch.isStray).map fun stretch => stretch.flawOn stretch.line) ++
        (blocks text).flaws := by
    rw [scan, blocks, found, List.flatMap_map]
    refine congrArg (· ++ _) (List.flatMap_congr fun place member => ?_)
    exact Place.flaws_block (within place member).proper
  refine ⟨places, within, items, ⟨_, ending, flaws⟩, ?_⟩
  intro place member stretch inside stray level
  have here : stretch.strayLine = stretch.line := by
    rw [stretch.strayLine_eq, lineFeeds, List.count_eq_zero_of_not_mem level, Nat.add_zero]
  rw [flaws, here]
  refine List.mem_append_left _ (List.mem_flatMap.mpr ⟨place, member, ?_⟩)
  exact List.mem_map.mpr ⟨stretch, List.mem_filter.mpr ⟨inside, stray⟩, rfl⟩

/-- A section with text before its second row and behind it. -/
def strayTable : String :=
  "const PinMap PinMap_SPI_MOSI[] = \x7b\n  \x7bPA_7, SPI1, 0\x7d,\n  stray\n" ++
    "  \x7bPB_15, SPI2, 0\x7d,\n  lost\n\x7d;"

def strayPlace : Place where
  front := "const PinMap PinMap_SPI_MOSI[] = \x7b".toList
  name := "SPI_MOSI"
  layout :=
    ⟨[⟨"\n  ".toList, "PA_7, SPI1, 0".toList⟩, ⟨",\n  stray\n  ".toList, "PB_15, SPI2, 0".toList⟩],
      ",\n  lost\n".toList⟩

/-- Neither text before a row nor text behind the last one is always reported where it is. -/
theorem exists_misplaced_stray :
    strayPlace.Within (strip strayTable.toList) ∧ strayPlace.part ∈ (scan strayTable).items ∧
      (∃ stretch ∈ strayPlace.between, stretch.isStray = true ∧
        ∀ flaw ∈ (scan strayTable).flaws, flaw.1 ≠ stretch.strayLine) ∧
      strayPlace.last.isStray = true ∧
        ∀ flaw ∈ (scan strayTable).flaws, flaw.1 ≠ strayPlace.last.strayLine := by
  have within : strayPlace.Within (strip strayTable.toList) := by
    constructor
    case headed =>
      exact ⟨"const PinMap ".toList, _, opener_plain, by decide⟩
    case proper =>
      have row {stretch row : List Char} (plain : Braceless stretch) (bare : Braceless row) :
          Group.Proper ⟨stretch, row⟩ := ⟨plain, bare.balanced⟩
      refine ⟨List.forall_mem_cons.mpr ⟨row (by decide) (by decide),
        List.forall_mem_singleton.mpr (row (by decide) (by decide))⟩, by decide⟩
    case stands => decide +kernel
  have flaws : (scan strayTable).flaws = [(2, .strayText "stray")] := by decide +kernel
  have between : ∃ stretch ∈ strayPlace.between, stretch.isStray = true ∧ 2 ≠ stretch.strayLine :=
    ⟨_, List.mem_of_getElem? (i := 1) rfl, by decide +kernel, by decide +kernel⟩
  rw [flaws]
  simp only [List.forall_mem_singleton]
  exact ⟨within, by decide +kernel, between, by decide +kernel, by decide +kernel⟩

end Pinout.PinMap
