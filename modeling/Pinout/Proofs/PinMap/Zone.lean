import Mathlib.Data.List.Forall2
import Pinout.Proofs.PinMap.Layout

/-! Zones along a text. What stripping leaves of a beginning depends on the text behind it only
through the next character, so a text is stripped piece by piece. Line feeds are always left:
the stripped text has the lines of the text, each with fewer characters at most, and whatever
is left stands on the line on which it stood. -/

set_option autoImplicit false

namespace Pinout.PinMap

variable {zone : Zone} {char : Char} {next : Option Char} {text front before : List Char}

/-! ## Beginnings -/

/-- The zone behind a text, given the character that follows it. -/
def Zone.behind (zone : Zone) : List Char → Option Char → Zone
  | [], _ => zone
  | char :: rest, next => (zone.after char (rest.head?.or next)).behind rest next

/-- What stripping leaves of a text, given the character that follows it. -/
def remains (zone : Zone) : List Char → Option Char → List Char
  | [], _ => []
  | char :: rest, next =>
    if zone.keeps char (rest.head?.or next) then
      char :: remains (zone.after char (rest.head?.or next)) rest next
    else remains (zone.after char (rest.head?.or next)) rest next

theorem behind_append (zone : Zone) (front back : List Char) (next : Option Char) :
    zone.behind (front ++ back) next =
      (zone.behind front (back.head?.or next)).behind back next := by
  induction front generalizing zone with
  | nil => rfl
  | cons char front ih =>
      rw [List.cons_append, Zone.behind, Zone.behind, ih, List.head?_append, Option.or_assoc]

theorem behind_concat (zone : Zone) (front : List Char) (char : Char) (next : Option Char) :
    zone.behind (front ++ [char]) next = (zone.behind front (some char)).after char next := by
  rw [behind_append]
  rfl

/-- Stripping goes on behind a beginning in the zone that the beginning leads to. -/
theorem stripFrom_append (zone : Zone) (front back : List Char) :
    stripFrom zone (front ++ back) =
      remains zone front back.head? ++ stripFrom (zone.behind front back.head?) back := by
  induction front generalizing zone with
  | nil => rfl
  | cons char front ih =>
      rw [List.cons_append, stripFrom, remains, Zone.behind, List.head?_append]
      split
      · rw [ih, List.cons_append]
      · rw [ih]

/-! ## Line feeds -/

/-- The character can follow in the zone: at an opening it is the star. -/
def Zone.Meets (zone : Zone) (next : Option Char) : Prop :=
  ∀ fresh, zone = .opening fresh → next = some '*'

theorem meets_code {fresh : Bool} : (Zone.code fresh).Meets next := by
  intro flag same
  cases same

theorem after_eq_opening_iff {fresh : Bool} : zone.after char next = .opening fresh ↔
    zone = .code fresh ∧ char = '/' ∧ next = some '*' := by
  cases zone with
  | code flag =>
      rw [Zone.after]
      split
      · rename_i line
        simp [line.2]
      · split
        · rename_i block
          simp [block]
        · rename_i unopened
          refine iff_of_false ?_ fun opens => unopened opens.2
          split
          · simp
          · split <;> simp
  | line =>
      rw [Zone.after]
      split <;> simp
  | opening flag => simp [Zone.after]
  | block flag star =>
      rw [Zone.after]
      split <;> simp

/-- An opening comes only before its star. -/
theorem meets_after (zone : Zone) (char : Char) (next : Option Char) :
    (zone.after char next).Meets next :=
  fun _ opening => (after_eq_opening_iff.mp opening).2.2

theorem keeps_feed (meets : zone.Meets (some '\n')) : zone.keeps '\n' next = true := by
  cases zone with
  | code fresh => rfl
  | line => rfl
  | opening fresh => exact absurd (meets fresh rfl) (by decide)
  | block fresh star => rfl

/-- Stripping leaves the line feeds of a beginning. -/
theorem lineFeeds_remains (meets : zone.Meets (text.head?.or next)) :
    lineFeeds (remains zone text next) = lineFeeds text := by
  induction text generalizing zone with
  | nil => rfl
  | cons char rest ih =>
      have more := ih (meets_after zone char (rest.head?.or next))
      rw [remains]
      by_cases feed : char = '\n'
      · subst feed
        rw [if_pos (keeps_feed meets), lineFeeds, List.count_cons_self, lineFeeds,
          List.count_cons_self, ← lineFeeds, more, lineFeeds]
      · have level : lineFeeds (char :: rest) = lineFeeds rest := List.count_cons_of_ne feed
        split
        · rw [lineFeeds, List.count_cons_of_ne feed, ← lineFeeds, more, level]
        · rw [more, level]

theorem splitOn_cons_feed (rest : List Char) :
    ('\n' :: rest).splitOn '\n' = [] :: rest.splitOn '\n' :=
  List.splitOn_append_cons_self [] rest

theorem splitOn_cons_of_ne (level : char ≠ '\n') (rest : List Char) :
    (char :: rest).splitOn '\n' = (rest.splitOn '\n').modifyHead (char :: ·) := by
  simp only [List.splitOn_eq_splitOnP]
  rw [List.splitOnP_cons_eq_if_modifyHead, if_neg (by simpa using level)]

/-- Line by line, stripping only removes characters. -/
theorem forall₂_splitOn_stripFrom (meets : zone.Meets text.head?) :
    List.Forall₂ List.Sublist ((stripFrom zone text).splitOn '\n') (text.splitOn '\n') := by
  induction text generalizing zone with
  | nil => exact .cons .slnil .nil
  | cons char rest ih =>
      have more := ih (meets_after zone char rest.head?)
      rw [stripFrom]
      -- A line feed is kept and ends a line in both texts; anything else is on their first lines.
      by_cases feed : char = '\n'
      · subst feed
        rw [if_pos (keeps_feed meets), splitOn_cons_feed, splitOn_cons_feed]
        exact .cons .slnil more
      · obtain ⟨line, lines, whole⟩ :=
          List.exists_cons_of_ne_nil (List.splitOn_ne_nil '\n' rest)
        rw [whole] at more
        obtain ⟨first, others, fewer, behind, left⟩ := List.forall₂_cons_right_iff.mp more
        rw [splitOn_cons_of_ne feed, whole]
        by_cases kept : zone.keeps char rest.head? = true
        · rw [if_pos kept, splitOn_cons_of_ne feed, left]
          exact .cons (fewer.cons_cons char) behind
        · rw [if_neg kept, left]
          exact .cons (fewer.cons char) behind

/-! ## Where characters come from -/

/-- Where a character of the stripped text comes from: it stands behind `before` in the text, is
kept there, and stripping leaves `front` of all that stands before it. -/
structure Source (text front : List Char) (char : Char) (before : List Char) : Prop where
  kept : ∃ after, text = before ++ char :: after ∧
    ((Zone.code true).behind before (some char)).keeps char after.head? = true
  left : remains (.code true) before (some char) = front

theorem Source.lineFeeds_eq (source : Source text front char before) :
    lineFeeds front = lineFeeds before := by
  rw [← source.left]
  exact lineFeeds_remains meets_code

theorem exists_kept {rest : List Char} (left : stripFrom zone text = front ++ char :: rest) :
    ∃ before after, text = before ++ char :: after ∧
      (zone.behind before (some char)).keeps char after.head? = true ∧
        remains zone before (some char) = front := by
  induction text generalizing zone front with
  | nil => simp [stripFrom] at left
  | cons first others ih =>
      rw [stripFrom] at left
      have ahead (before after : List Char) :
          (before ++ char :: after).head? = before.head?.or (some char) := by
        rw [List.head?_append, List.head?_cons]
      split at left
      · rename_i kept
        rcases List.cons_eq_append_iff.mp left with ⟨rfl, same⟩ | ⟨front, rfl, same⟩
        · cases same
          exact ⟨[], others, rfl, kept, rfl⟩
        · obtain ⟨before, after, rfl, keeps, rest⟩ := ih same
          rw [ahead] at kept keeps rest
          refine ⟨first :: before, after, rfl, keeps, ?_⟩
          rw [remains, if_pos kept, rest]
      · rename_i dropped
        obtain ⟨before, after, rfl, keeps, rest⟩ := ih left
        rw [ahead] at dropped keeps rest
        refine ⟨first :: before, after, rfl, keeps, ?_⟩
        rw [remains, if_neg dropped, rest]

/-- The characters of the stripped text are those that come from somewhere in the text. -/
theorem stands_iff_exists_source :
    front ++ [char] <+: strip text ↔ ∃ before, Source text front char before := by
  constructor
  · rintro ⟨rest, same⟩
    rw [List.append_assoc, List.singleton_append] at same
    obtain ⟨before, after, whole, kept, left⟩ := exists_kept same.symm
    exact ⟨before, ⟨after, whole, kept⟩, left⟩
  · rintro ⟨before, ⟨after, rfl, kept⟩, rfl⟩
    rw [strip, stripFrom_append, List.head?_cons, stripFrom, if_pos kept,
      List.prefix_append_right_inj]
    exact ⟨_, rfl⟩

end Pinout.PinMap
