import Mathlib.Data.List.TakeWhile
import Pinout.Proofs.PinMap.Layout

/-! Sections in their text. The scan finds each section where it stands, with its rows on their
lines. Of the text between rows it reports what comes before a row, on the line where the
stretch begins, and nothing of what comes behind the last row. -/

set_option autoImplicit false

namespace Pinout.PinMap

variable {chars before after rest : List Char}

/-! ## Initializers -/

/-- What opens an array behind its name: brackets, an equals sign and a brace, with blanks
around them and no closing bracket inside. -/
inductive Opener : List Char → Prop
  | parts {blanks inside more others : List Char} (first : ∀ char ∈ blanks, Text.isBlank char)
    (bracketed : ']' ∉ inside) (second : ∀ char ∈ more, Text.isBlank char)
    (third : ∀ char ∈ others, Text.isBlank char) :
    Opener (blanks ++ '[' :: (inside ++ ']' :: (more ++ '=' :: (others ++ ['{']))))

theorem opener_plain : Opener ['[', ']', ' ', '=', ' ', '{'] :=
  @Opener.parts [] [] [' '] [' '] (List.forall_mem_nil _) List.not_mem_nil
    (List.forall_mem_singleton.mpr rfl) (List.forall_mem_singleton.mpr rfl)

theorem trimStart_append {blanks : List Char} {char : Char}
    (blank : ∀ char ∈ blanks, Text.isBlank char) (solid : Text.isBlank char = false) :
    Text.trimStart (blanks ++ char :: rest) = char :: rest := by
  rw [Text.trimStart, List.dropWhile_append_of_pos blank,
    List.dropWhile_cons_of_neg (by simp [solid])]

theorem exists_blanks {char : Char} (found : Text.trimStart chars = char :: rest) :
    ∃ blanks, chars = blanks ++ char :: rest ∧ ∀ char ∈ blanks, Text.isBlank char = true := by
  refine ⟨chars.takeWhile Text.isBlank, ?_, ?_⟩
  · rw [← found]
    exact List.takeWhile_append_dropWhile.symm
  · exact fun char member => List.mem_takeWhile_imp member

theorem initializer?_eq_some_iff :
    initializer? chars = some rest ↔ ∃ opener, Opener opener ∧ chars = opener ++ rest := by
  simp only [initializer?, Option.bind_eq_bind, Option.bind_eq_some_iff, Prod.exists,
    Text.dropStart?_eq_some_iff, Text.cut?_eq_some_iff, List.singleton_append]
  constructor
  · rintro ⟨bracket, opened, inside, afterBracket, ⟨rfl, bracketed⟩, sign, assigned, braced⟩
    obtain ⟨blanks, rfl, first⟩ := exists_blanks opened
    obtain ⟨more, rfl, second⟩ := exists_blanks assigned
    obtain ⟨others, rfl, third⟩ := exists_blanks braced
    exact ⟨_, .parts first bracketed second third, by simp⟩
  · rintro ⟨_, ⟨first, bracketed, second, third⟩, rfl⟩
    rename_i blanks inside more others
    refine ⟨inside ++ ']' :: (more ++ '=' :: (others ++ '{' :: rest)), ?_, inside,
      more ++ '=' :: (others ++ '{' :: rest), ⟨rfl, bracketed⟩, others ++ '{' :: rest, ?_, ?_⟩
    · simpa using trimStart_append first (by decide)
    · exact trimStart_append second (by decide)
    · exact trimStart_append third (by decide)

/-- An opener ends the name that stands before it. -/
theorem Opener.exists_head {opener : List Char} (opens : Opener opener) :
    ∃ first others, opener = first :: others ∧ Text.isNameChar first = false := by
  obtain ⟨first, bracketed, second, third⟩ := opens
  rename_i blanks inside more others
  cases blanks with
  | nil => exact ⟨_, _, rfl, by decide⟩
  | cons blank blanks =>
      refine ⟨blank, _, rfl, ?_⟩
      have white := first blank List.mem_cons_self
      by_contra named
      rw [Text.isBlank_of_isNameChar (Bool.not_eq_false _ ▸ named)] at white
      cases white

theorem Opener.takeWhile_append {name opener : List Char} (opens : Opener opener)
    (named : ∀ char ∈ name, Text.isNameChar char = true) :
    (name ++ (opener ++ rest)).takeWhile Text.isNameChar = name := by
  obtain ⟨first, others, rfl, stops⟩ := opens.exists_head
  rw [List.takeWhile_append_of_pos named, List.cons_append,
    List.takeWhile_cons_of_neg (by simp [stops]), List.append_nil]

theorem Opener.dropWhile_append {name opener : List Char} (opens : Opener opener)
    (named : ∀ char ∈ name, Text.isNameChar char = true) :
    (name ++ (opener ++ rest)).dropWhile Text.isNameChar = opener ++ rest := by
  obtain ⟨first, others, rfl, stops⟩ := opens.exists_head
  rw [List.dropWhile_append_of_pos named, List.cons_append,
    List.dropWhile_cons_of_neg (by simp [stops])]

/-! ## Places -/

/-- Where a section stands: all that comes before its body, its name, and its body. -/
structure Place where
  front : List Char
  name : String
  layout : Layout

namespace Place

/-- The section stands at the place: its mark, name and opener come before its body, and a
brace behind it. -/
structure Within (place : Place) (text : List Char) : Prop where
  headed : ∃ before opener, Opener opener ∧
    place.front = before ++ sectionMark ++ place.name.toList ++ opener
  proper : place.layout.Proper
  stands : place.front ++ place.layout.text ++ ['}'] <+: text

def block (place : Place) : Block :=
  ⟨place.name, lineAfter place.front, place.layout.text⟩

/-- The section that the scan makes of the place. -/
def part (place : Place) : Section :=
  ⟨place.name, (spots place.front place.layout.groups).map fun (front, group) =>
    rowAt front group⟩

theorem rows_block {place : Place} (proper : place.layout.Proper) :
    place.block.rows = ⟨place.part.rows, (spots place.front place.layout.groups).flatMap
      fun (front, group) => strayFlaw (lineAfter front) group.stretch⟩ :=
  scanRows_layout proper place.front

end Place

/-- What ends the search for sections, if not the end of the text. -/
def Unfinished (flaws : List (Nat × Flaw)) : Prop :=
  flaws = [] ∨ ∃ line name, flaws = [(line, .openSection name)]

theorem lineFeeds_of_names (named : ∀ char ∈ chars, Text.isNameChar char = true) :
    lineFeeds chars = 0 := by
  rw [lineFeeds, List.count_eq_zero]
  exact fun feed => absurd (named '\n' feed) (by decide)

theorem lineFeeds_mark_name : lineFeeds (sectionMark ++ chars.takeWhile Text.isNameChar) = 0 := by
  refine lineFeeds_of_names fun char member => ?_
  rcases List.mem_append.mp member with mark | name
  · exact List.all_eq_true.mp (by decide : sectionMark.all Text.isNameChar = true) char mark
  · exact List.mem_takeWhile_imp name

theorem blocksFrom_of_unmarked {line : Nat} (unmarked : ¬ sectionMark <:+: chars) :
    blocksFrom line chars = ⟨[], []⟩ := by
  rw [blocksFrom.eq_def line chars]
  split
  · rfl
  · rename_i marked
    rw [Text.cut?_eq_none_iff.mpr unmarked] at marked
    cases marked

theorem blocksFrom_of_closed (line : Nat) {inside body : List Char}
    (marked : Text.cut? sectionMark chars = some (before, after))
    (opened : initializer? (after.dropWhile Text.isNameChar) = some inside)
    (closed : closing? 0 inside = some (body, rest)) :
    let start := line + lineFeeds before + (lineFeeds after - lineFeeds inside)
    let more := blocksFrom (start + lineFeeds body) rest
    blocksFrom line chars = ⟨⟨String.ofList (after.takeWhile Text.isNameChar), start, body⟩ ::
      more.items, more.flaws⟩ := by
  intro start more
  rw [blocksFrom.eq_def line chars]
  split
  · rename_i unmarked
    rw [marked] at unmarked
    cases unmarked
  · rename_i found
    rw [marked] at found
    cases found
    dsimp only
    split
    · rename_i unopened
      rw [opened] at unopened
      cases unopened
    · rename_i found
      rw [opened] at found
      cases found
      split
      · rename_i unclosed
        rw [closed] at unclosed
        cases unclosed
      · rename_i found
        rw [closed] at found
        cases found
        rfl

/-- The search finds a section that stands behind unmarked text, and goes on behind it. -/
theorem blocksFrom_place {opener : List Char} {name : String} {layout : Layout}
    (unmarked : ¬ sectionMark <:+: before)
    (named : ∀ char ∈ name.toList, Text.isNameChar char = true) (opens : Opener opener)
    (proper : layout.Proper) (front rest : List Char) :
    let place : Place := ⟨front ++ before ++ sectionMark ++ name.toList ++ opener, name, layout⟩
    let more := blocksFrom (lineAfter (place.front ++ layout.text ++ ['}'])) rest
    blocksFrom (lineAfter front)
        (before ++ sectionMark ++ (name.toList ++ (opener ++ (layout.text ++ '}' :: rest)))) =
      ⟨place.block :: more.items, more.flaws⟩ := by
  intro place more
  let inside := layout.text ++ '}' :: rest
  have marked := Text.cut?_append_mark (by decide : 'P' ∉ ['i', 'n', 'M', 'a', 'p', '_'])
    unmarked (name.toList ++ (opener ++ inside))
  have opened : initializer? ((name.toList ++ (opener ++ inside)).dropWhile Text.isNameChar) =
      some inside := by
    rw [opens.dropWhile_append named]
    exact initializer?_eq_some_iff.mpr ⟨opener, opens, rfl⟩
  have closed := closing?_append proper.balanced_text rest
  have counted : lineAfter place.front = lineAfter front + lineFeeds before +
      (lineFeeds (name.toList ++ (opener ++ inside)) - lineFeeds inside) := by
    have mark : lineFeeds sectionMark = 0 := by decide
    have letters := lineFeeds_of_names named
    simp only [place, lineAfter_append, lineFeeds_append, mark, letters]
    omega
  have next : lineAfter (place.front ++ layout.text ++ ['}']) =
      lineAfter place.front + lineFeeds layout.text := by
    rw [lineAfter_append, lineAfter_append]
    rfl
  have found := blocksFrom_of_closed (lineAfter front) marked opened closed
  rw [opens.takeWhile_append named, String.ofList_toList, ← counted] at found
  dsimp only at found
  rw [← next] at found
  exact found

/-- The sections found from some point of a text on stand in it. -/
theorem exists_places (line : Nat) (front chars : List Char) (here : line = lineAfter front) :
    ∃ places : List Place, (∀ place ∈ places, place.Within (front ++ chars)) ∧
      (blocksFrom line chars).items = places.map Place.block ∧
      Unfinished (blocksFrom line chars).flaws := by
  fun_induction blocksFrom line chars generalizing front with
  | case1 => exact ⟨[], List.forall_mem_nil _, rfl, .inl rfl⟩
  | case2 line chars before after marked nameLine unopened ih =>
      have whole := Text.append_of_cut? marked
      have named := List.takeWhile_append_dropWhile (p := Text.isNameChar) (l := after)
      have next := ih (front ++ before ++ (sectionMark ++ after.takeWhile Text.isNameChar)) (by
        rw [lineAfter_append, lineAfter_append, lineFeeds_mark_name, Nat.add_zero, ← here])
      have same : front ++ before ++ (sectionMark ++ after.takeWhile Text.isNameChar) ++
          after.dropWhile Text.isNameChar = front ++ chars := by
        rw [← whole]
        simp [named]
      rwa [same] at next
  | case3 line _ _ _ _ _ name => exact ⟨[], List.forall_mem_nil _, rfl, .inr ⟨_, name, rfl⟩⟩
  | case4 line chars before after marked nameLine name inside opened bodyLine body rest closed
      more ih =>
      have whole := Text.append_of_cut? marked
      have named := List.takeWhile_append_dropWhile (p := Text.isNameChar) (l := after)
      obtain ⟨opener, opens, split⟩ := initializer?_eq_some_iff.mp opened
      obtain ⟨layout, proper, rfl⟩ := exists_layout body (closes_of_closing? closed)
      have inner := append_of_closing? closed
      let head := front ++ before ++ (sectionMark ++ after.takeWhile Text.isNameChar) ++ opener
      have counted : lineFeeds after = lineFeeds opener + lineFeeds inside := by
        rw [← named, split, lineFeeds_append, lineFeeds_append,
          lineFeeds_of_names fun _ member => List.mem_takeWhile_imp member, Nat.zero_add]
      have start : bodyLine = lineAfter head := by
        simp only [head, lineAfter_append, lineFeeds_mark_name]
        omega
      have same : head ++ layout.text ++ ['}'] ++ rest = front ++ chars := by
        rw [← whole]
        conv_rhs => rw [← named, split, ← inner]
        simp [head]
      obtain ⟨places, within, found, ending⟩ := ih (head ++ layout.text ++ ['}']) (by
        rw [lineAfter_append, lineAfter_append, start]
        rfl)
      rw [same] at within
      refine ⟨⟨head, name, layout⟩ :: places, ?_, ?_, ending⟩
      · refine List.forall_mem_cons.mpr ⟨⟨⟨front ++ before, opener, opens, ?_⟩, proper, ?_⟩, within⟩
        · simp [head, name]
        · exact ⟨rest, same⟩
      · rw [List.map_cons, ← found, Place.block, ← start]

end Pinout.PinMap
