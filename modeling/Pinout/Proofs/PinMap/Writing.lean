import Mathlib.Data.List.Forall2
import Pinout.PinMap.Writing
import Pinout.Proofs.PinMap.Decoration
import Pinout.Proofs.PinMap.Field
import Pinout.Proofs.PinMap.Stray

/-! Sections that were written are found again. However the pieces of a table are set on lines,
with comments and preprocessor lines between them, the scan gives back the names of the sections
and the fields of their rows, and finds no flaw. -/

set_option autoImplicit false

namespace Pinout.PinMap

open Text (IsWord Without)

variable {chars lead front : List Char} {storage name : String} {fields : List String}
  {rows : List (List String)}

/-! ## Rows -/

/-- A field that reads as it is written. -/
structure Legible (field : String) : Prop where
  whole : Whole field.toList
  braceless : Without ['{', '}'] field
  plain : Without ['/', '#', '\n'] field

def rowText (fields : List String) : List Char :=
  [',', ' '].intercalate (fields.map String.toList)

theorem toList_braced : (braced fields).toList = '{' :: (rowText fields ++ ['}']) := by
  simp [braced, rowText]

theorem balanced_rowText (legible : ∀ field ∈ fields, Legible field) :
    Balanced (rowText fields) := by
  have plain : Without ['{', '}'] (", ".intercalate fields) :=
    Without.intercalate (by decide) fun field member => (legible field member).braceless
  have same : (", ".intercalate fields).toList = rowText fields := by simp [rowText]
  rw [Without, same] at plain
  exact Braceless.balanced
    ⟨fun brace => plain _ brace (by decide), fun brace => plain _ brace (by decide)⟩

theorem fields_rowText (legible : ∀ field ∈ fields, Legible field) :
    (PinMap.fields (rowText fields)).map String.ofList = fields := by
  have whole : ∀ field ∈ fields.map String.toList, Whole field := by
    intro field member
    obtain ⟨field, written, rfl⟩ := List.mem_map.mp member
    exact (legible field written).whole
  rw [rowText, fields_intercalate whole, List.map_map]
  simp

theorem visible_braced (legible : ∀ field ∈ fields, Legible field) : Visible (braced fields) where
  plain := by
    have inner : Without ['/', '#', '\n'] (", ".intercalate fields) :=
      Without.intercalate (by decide) fun field member => (legible field member).plain
    exact (Without.append (by decide) inner).append (by decide)
  solid := ⟨'{', by simp [toList_braced], by decide⟩

/-! ## Bodies -/

def Separating (chars : List Char) : Prop :=
  ∀ char ∈ chars, isSeparator char = true

theorem Blank.separating (blank : Blank chars) : Separating chars := by
  intro char member
  rw [isSeparator, blank char member, Bool.true_or]

theorem Separating.append {others : List Char} (first : Separating chars)
    (second : Separating others) : Separating (chars ++ others) := by
  intro char member
  exact (List.mem_append.mp member).elim (first char) (second char)

theorem Separating.braceless (separating : Separating chars) : Braceless chars := by
  constructor <;> exact fun brace => absurd (separating _ brace) (by decide)

/-- A group that tells of nothing but its row. -/
structure Group.Clean (group : Group) : Prop where
  separating : Separating group.stretch
  balanced : Balanced group.row

theorem Group.Clean.proper {group : Group} (clean : group.Clean) : group.Proper :=
  ⟨clean.separating.braceless, clean.balanced⟩

/-- Rows with commas between them are the groups of a body. -/
theorem exists_groups {pieces : List String} (separating : Separating lead)
    (legible : ∀ other ∈ fields :: rows, ∀ field ∈ other, Legible field)
    (spaced : Spaced (rowPieces (fields :: rows) ++ pieces) chars) :
    ∃ (groups : List Group) (rest : List Char), lead ++ chars = groups.flatMap Group.text ++ rest ∧
      groups.map Group.row = (fields :: rows).map rowText ∧ (∀ group ∈ groups, group.Clean) ∧
      Spaced pieces rest := by
  -- The comma behind a row goes to the stretch before the next one, so the lead varies.
  induction rows generalizing fields lead chars with
  | nil =>
      obtain ⟨blanks, rest, rfl, blank, behind⟩ := spaced.exists_piece
      refine ⟨[⟨lead ++ blanks, rowText fields⟩], rest, ?_, rfl, ?_, behind⟩
      · simp [Group.text, toList_braced]
      · rw [List.forall_mem_singleton]
        have here := legible fields List.mem_cons_self
        exact ⟨separating.append blank.separating, balanced_rowText here⟩
  | cons next rows ih =>
      obtain ⟨here, others⟩ := List.forall_mem_cons.mp legible
      obtain ⟨blanks, _, rfl, blank, behind⟩ := spaced.exists_piece
      obtain ⟨blanks', rest, rfl, blank', behind⟩ := behind.exists_piece
      have comma : Separating ",".toList := List.forall_mem_singleton.mpr (by decide)
      obtain ⟨groups, rest', whole, same, clean, ending⟩ :=
        ih (blank'.separating.append comma) others behind
      refine ⟨⟨lead ++ blanks, rowText fields⟩ :: groups, rest', ?_, ?_, ?_, ending⟩
      · rw [List.append_assoc] at whole
        rw [List.flatMap_cons, List.append_assoc, ← whole]
        simp [Group.text, toList_braced]
      · exact congrArg (rowText fields :: ·) same
      · exact List.forall_mem_cons.mpr
          ⟨⟨separating.append blank.separating, balanced_rowText here⟩, clean⟩

/-! ## Sections -/

/-- What may stand before the name of a section. -/
structure Introduces (storage : String) : Prop where
  plain : Without ['/', '#', '\n'] storage
  unmarked : ¬ sectionMark <:+: storage.toList

/-- A section that can be written. -/
structure Writable (name : String) (rows : List (List String)) : Prop where
  named : IsWord name
  filled : rows ≠ []
  legible : ∀ fields ∈ rows, ∀ field ∈ fields, Legible field

theorem toList_opening : (opening storage name).toList =
    storage.toList ++ sectionMark ++ (name.toList ++ ['[', ']', ' ', '=', ' ', '{']) := by
  simp [opening]

theorem visible_opening (introduces : Introduces storage) (named : IsWord name) :
    Visible (opening storage name) where
  plain :=
    ((introduces.plain.append (by decide)).append (named.without (by decide))).append (by decide)
  solid := ⟨'{', by simp [toList_opening], by decide⟩

theorem visible_rowPieces (legible : ∀ fields ∈ rows, ∀ field ∈ fields, Legible field) :
    ∀ piece ∈ rowPieces rows, Visible piece := by
  induction rows with
  | nil => exact List.forall_mem_nil _
  | cons fields rows ih =>
      obtain ⟨here, others⟩ := List.forall_mem_cons.mp legible
      cases rows with
      | nil => exact List.forall_mem_singleton.mpr (visible_braced here)
      | cons next rows =>
          refine List.forall_mem_cons.mpr ⟨visible_braced here, ?_⟩
          exact List.forall_mem_cons.mpr ⟨⟨by decide, ',', by decide, by decide⟩, ih others⟩

theorem Writable.visible (writable : Writable name rows) (introduces : Introduces storage) :
    ∀ piece ∈ pieces storage name rows, Visible piece := by
  refine List.forall_mem_cons.mpr ⟨visible_opening introduces writable.named, ?_⟩
  intro piece member
  rcases List.mem_append.mp member with row | closing
  · exact visible_rowPieces writable.legible piece row
  · rw [List.mem_singleton.mp closing]
    exact ⟨by decide, '}', by decide, by decide⟩

/-! ## Tables -/

/-- A place shows a section as it was written: with its name and its rows, and with nothing but
separators between the rows. -/
structure Place.Shows (place : Place) (part : String × List (List String)) : Prop where
  named : place.name = part.1
  clean : ∀ group ∈ place.layout.groups, group.Clean
  rows : place.layout.groups.map Group.row = part.2.map rowText
  legible : ∀ fields ∈ part.2, ∀ field ∈ fields, Legible field
  tail : Braceless place.layout.tail

section Tables

variable {sections : List (String × List (List String))} {place : Place}
  {part : String × List (List String)}

theorem Place.Shows.proper (shows : place.Shows part) : place.layout.Proper :=
  ⟨fun group member => (shows.clean group member).proper, shows.tail⟩

theorem Blank.letterless (blank : Blank chars) : 'P' ∉ chars :=
  fun member => absurd (blank 'P' member) (by decide)

/-- A written section is found at a place that shows it, and the search goes on behind it. -/
theorem exists_shown {later : List String} (introduces : Introduces storage)
    (writable : Writable name rows) (free : 'P' ∉ lead)
    (spaced : Spaced (pieces storage name rows ++ later) chars) (front : List Char) :
    ∃ (place : Place) (rest : List Char), place.Shows (name, rows) ∧ Spaced later rest ∧
      let more := blocksFrom (lineAfter (place.front ++ place.layout.text ++ ['}'])) (';' :: rest)
      blocksFrom (lineAfter front) (lead ++ chars) = ⟨place.block :: more.items, more.flaws⟩ := by
  obtain ⟨fields, rows, rfl⟩ := List.exists_cons_of_ne_nil writable.filled
  rw [pieces, List.append_assoc, List.cons_append] at spaced
  obtain ⟨blanks, body, rfl, blank, behind⟩ := spaced.exists_piece
  obtain ⟨groups, ending, whole, same, clean, behind⟩ :=
    exists_groups (List.forall_mem_nil _ : Separating []) writable.legible behind
  obtain ⟨tail, rest, rfl, blank', behind⟩ := behind.exists_piece
  let before := lead ++ blanks ++ storage.toList
  let opener := ['[', ']', ' ', '=', ' ', '{']
  let place : Place :=
    ⟨front ++ before ++ sectionMark ++ name.toList ++ opener, name, ⟨groups, tail⟩⟩
  have shows : place.Shows (name, fields :: rows) :=
    ⟨rfl, clean, same, writable.legible, blank'.separating.braceless⟩
  have unmarked : ¬ sectionMark <:+: before := by
    refine Text.not_infix_append (fun member => ?_) introduces.unmarked
    exact (List.mem_append.mp member).elim free blank.letterless
  have text : lead ++ (blanks ++ ((opening storage name).toList ++ body)) =
      before ++ sectionMark ++ (name.toList ++ (opener ++
        (place.layout.text ++ '}' :: ';' :: rest))) := by
    rw [List.nil_append] at whole
    rw [toList_opening, whole]
    simp [before, opener, place, Layout.text]
  refine ⟨place, rest, shows, behind, ?_⟩
  rw [text]
  exact blocksFrom_place unmarked writable.named.names opener_plain shows.proper front (';' :: rest)

/-- The written sections are found one behind the other, and nothing else is. -/
theorem exists_shown_all (introduces : Introduces storage)
    (writable : ∀ part ∈ sections, Writable part.1 part.2) (free : 'P' ∉ lead)
    (spaced : Spaced (sections.flatMap fun part => pieces storage part.1 part.2) chars)
    (front : List Char) : ∃ places : List Place,
      blocksFrom (lineAfter front) (lead ++ chars) = ⟨places.map Place.block, []⟩ ∧
      List.Forall₂ Place.Shows places sections := by
  -- The semicolon that closes a section stands before the next one, so the lead varies.
  induction sections generalizing lead chars front with
  | nil =>
      obtain ⟨blank⟩ := spaced
      refine ⟨[], blocksFrom_of_unmarked fun marked => ?_, .nil⟩
      have inside := marked.subset (by decide : 'P' ∈ sectionMark)
      exact (List.mem_append.mp inside).elim free blank.letterless
  | cons part sections ih =>
      obtain ⟨here, others⟩ := List.forall_mem_cons.mp writable
      rw [List.flatMap_cons] at spaced
      obtain ⟨place, rest, shows, behind, found⟩ := exists_shown introduces here free spaced front
      have free : 'P' ∉ [';'] := by decide
      obtain ⟨places, more, shown⟩ := ih others free behind
        (place.front ++ place.layout.text ++ ['}'])
      rw [List.singleton_append] at more
      rw [more] at found
      exact ⟨place :: places, found, .cons shows shown⟩

theorem map_snd_spots (front : List Char) (groups : List Group) :
    (spots front groups).map (·.2) = groups := by
  induction groups generalizing front with
  | nil => rfl
  | cons group rest ih => rw [spots, List.map_cons, ih]

theorem Group.Clean.strayFlaw {group : Group} (clean : group.Clean) (line : Nat) :
    PinMap.strayFlaw line group.stretch = [] := by
  rw [PinMap.strayFlaw, Stretch.trimSeparators_eq_nil_iff.mpr clean.separating]

theorem Place.Shows.rows_block (shows : place.Shows part) :
    place.block.rows.items.map Row.fields = part.2 ∧ place.block.rows.flaws = [] := by
  rw [Place.rows_block shows.proper, Place.part]
  constructor
  · calc _ = (place.layout.groups.map Group.row).map fun row =>
              (PinMap.fields row).map String.ofList := by
            conv_rhs => rw [← map_snd_spots place.front place.layout.groups]
            simp [rowAt, Function.comp_def]
      _ = part.2.map fun fields => (PinMap.fields (rowText fields)).map String.ofList := by
            rw [shows.rows, List.map_map]
            rfl
      _ = part.2.map id := List.map_congr_left fun fields member =>
            fields_rowText (shows.legible fields member)
      _ = part.2 := List.map_id _
  · refine List.flatMap_eq_nil_iff.mpr fun spot member => ?_
    refine (shows.clean spot.2 ?_).strayFlaw _
    rw [← map_snd_spots place.front place.layout.groups]
    exact List.mem_map_of_mem member

theorem read_shown {places : List Place} (shown : List.Forall₂ Place.Shows places sections) :
    (places.flatMap fun place => place.block.rows.flaws) = [] ∧
      places.map (fun place => (place.name, place.block.rows.items.map Row.fields)) = sections := by
  induction shown with
  | nil => exact ⟨rfl, rfl⟩
  | cons shows _ ih =>
      obtain ⟨rows, flawless⟩ := shows.rows_block
      rw [List.flatMap_cons, flawless, ih.1, List.map_cons, ih.2]
      exact ⟨rfl, congrArg (· :: _) (Prod.ext shows.named rows)⟩

/-- However a written table is decorated, the scan gives back its sections and finds no flaw. -/
theorem scan_of_decorated {text : String} (introduces : Introduces storage)
    (writable : ∀ part ∈ sections, Writable part.1 part.2)
    (decorated : Decorated true (sections.flatMap fun part => pieces storage part.1 part.2)
      text.toList) :
    (scan text).flaws = [] ∧
      (scan text).items.map (fun item => (item.name, item.rows.map Row.fields)) = sections := by
  have visible : ∀ piece ∈ sections.flatMap fun part => pieces storage part.1 part.2,
      Visible piece := by
    intro piece member
    obtain ⟨part, listed, inside⟩ := List.mem_flatMap.mp member
    exact (writable part listed).visible introduces piece inside
  have free : 'P' ∉ [] := List.not_mem_nil
  obtain ⟨places, found, shown⟩ :=
    exists_shown_all introduces writable free (decorated.spaced visible) []
  have blocks : blocks text = ⟨places.map Place.block, []⟩ := found
  obtain ⟨flawless, read⟩ := read_shown shown
  rw [scan, blocks]
  constructor
  · rw [List.flatMap_map, flawless, List.append_nil]
  · rw [List.map_map, List.map_map]
    exact read

end Tables

end Pinout.PinMap
