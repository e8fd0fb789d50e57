import Pinout.Proofs.Capability.Account
import Pinout.Proofs.PinMap.Place
import Pinout.Proofs.PinMap.Zone

/-! Lines of a table. Sections, rows and issues are found in the stripped text, but the lines
that they carry are lines of the text itself: a row is on the line on which its opening brace
stands, and so are the issues of the row. -/

set_option autoImplicit false

namespace Pinout

namespace PinMap

variable {text front : List Char} {groups : List Group} {spot : List Char × Group}

/-! ## Rows -/

/-- Each group of a body stands behind what comes before it. -/
theorem prefix_of_mem_spots (member : spot ∈ spots front groups) :
    spot.1 ++ spot.2.text <+: front ++ groups.flatMap Group.text := by
  induction groups generalizing front with
  | nil => cases member
  | cons group rest ih =>
      rw [List.flatMap_cons, ← List.append_assoc]
      rcases List.mem_cons.mp member with rfl | later
      · exact List.prefix_append _ _
      · exact ih later

theorem Place.Within.brace_prefix {place : Place} (within : place.Within text)
    (member : spot ∈ spots place.front place.layout.groups) :
    (spot.1 ++ spot.2.stretch) ++ ['{'] <+: text := by
  have brace : (spot.1 ++ spot.2.stretch) ++ ['{'] <+: spot.1 ++ spot.2.text := by
    refine ⟨spot.2.row ++ ['}'], ?_⟩
    simp [Group.text]
  have body : place.front ++ place.layout.groups.flatMap Group.text <+:
      place.front ++ place.layout.text ++ ['}'] := by
    refine ⟨place.layout.tail ++ ['}'], ?_⟩
    simp [Layout.text]
  exact brace.trans ((prefix_of_mem_spots member).trans (body.trans within.stands))

/-- The brace of a row comes from a brace of the text, on the line of the row. -/
theorem Place.Within.exists_brace {place : Place} (within : place.Within (strip text))
    (member : spot ∈ spots place.front place.layout.groups) :
    ∃ before, Source text (spot.1 ++ spot.2.stretch) '{' before ∧
      (rowAt spot.1 spot.2).line = lineAfter before := by
  obtain ⟨before, source⟩ := stands_iff_exists_source.mp (within.brace_prefix member)
  refine ⟨before, source, ?_⟩
  rw [rowAt, lineAfter, lineAfter, source.lineFeeds_eq]

/-- The sections that a scan finds stand in the stripped text. -/
theorem exists_places_scan (text : String) :
    ∃ places : List Place, (∀ place ∈ places, place.Within (strip text.toList)) ∧
      (scan text).items = places.map Place.part := by
  obtain ⟨places, within, found, -⟩ := exists_places 1 [] (strip text.toList) rfl
  refine ⟨places, within, ?_⟩
  rw [scan, blocks, found, List.map_map]
  refine List.map_congr_left fun place member => ?_
  simp only [Function.comp_apply, Place.rows_block (within place member).proper]
  rfl

end PinMap

namespace Capability

open PinMap (Place Source)

theorem RowLeaves.line_eq {kept : List Entry} {name : String} {row : PinMap.Row} {share : Share}
    (left : RowLeaves kept name row share) : ∀ issue ∈ share.issues, issue.line = row.line := by
  cases left with
  | entry => exact List.forall_mem_nil _
  | issue => exact List.forall_mem_singleton.mpr rfl
  | nothing => exact List.forall_mem_nil _

/-- The lines that a table speaks of are those of its text. -/
structure FaithfulLines (mcu text : String) : Prop where
  /-- Stripping leaves every line, with some of its characters. -/
  lines : List.Forall₂ List.Sublist ((PinMap.strip text.toList).splitOn '\n')
    (text.toList.splitOn '\n')
  /-- The rows stand in their sections, each on the line of the text that has its brace. -/
  rows : ∃ places : List Place, (∀ place ∈ places, place.Within (PinMap.strip text.toList)) ∧
    (PinMap.scan text).items = places.map Place.part ∧
      ∀ place ∈ places, ∀ spot ∈ PinMap.spots place.front place.layout.groups,
        ∃ before, Source text.toList (spot.1 ++ spot.2.stretch) '{' before ∧
          (PinMap.rowAt spot.1 spot.2).line = PinMap.lineAfter before
  /-- Behind the flaws of shape, each row leaves its issues, on its line. -/
  issues : ∃ shares : List Share,
    List.Forall₂ (fun (name, row) share =>
      RowLeaves (parse mcu text).table.entries name row share ∧
        ∀ issue ∈ share.issues, issue.line = row.line)
      (rowsOf (PinMap.scan text).items) shares ∧
    (parse mcu text).issues =
      ((PinMap.scan text).flaws.map fun (line, flaw) => ⟨line, .shape flaw⟩) ++
        shares.flatMap (·.issues)

/-- Behind the flaws of shape, a table has the issues that its rows leave, row by row. -/
theorem exists_rowShares (mcu text : String) : ∃ shares : List Share,
    List.Forall₂ (fun (name, row) => RowLeaves (parse mcu text).table.entries name row)
      (rowsOf (PinMap.scan text).items) shares ∧
    (parse mcu text).issues =
      ((PinMap.scan text).flaws.map fun (line, flaw) => ⟨line, .shape flaw⟩) ++
        shares.flatMap (·.issues) := by
  obtain ⟨shares, left, -, faults⟩ := exists_shares .empty (offersOf (PinMap.scan text).items)
  refine ⟨shares, ?_, congrArg _ faults⟩
  rw [offersOf_eq, List.forall₂_map_left_iff, ← offersOf_eq] at left
  exact left.imp fun _ _ leaves => rowLeaves_of_leaves leaves

/-- Whatever a table says, lines are counted as they are in its text. -/
theorem faithfulLines_parse (mcu text : String) : FaithfulLines mcu text where
  lines := PinMap.forall₂_splitOn_stripFrom PinMap.meets_code
  rows := by
    obtain ⟨places, within, items⟩ := PinMap.exists_places_scan text
    exact ⟨places, within, items, fun place member _ inside =>
      (within place member).exists_brace inside⟩
  issues := by
    obtain ⟨shares, left, issues⟩ := exists_rowShares mcu text
    exact ⟨shares, left.imp fun _ _ leaves => ⟨leaves, leaves.line_eq⟩, issues⟩

end Capability

end Pinout
