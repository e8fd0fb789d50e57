import Mathlib.Data.List.Infix
import Pinout.PinMap.Section
import Pinout.Proofs.Text.Composition

/-! Bodies of sections taken apart. Every brace of a body has its partner, so the body is rows
in braces with stretches between them, and the scan of the body gives these rows on the lines
of their braces. -/

set_option autoImplicit false

namespace Pinout.PinMap

variable {depth : Nat} {chars before after rest stretch : List Char}

/-! ## Braces -/

/-- A text that closes as many groups as given that were open before it, and besides them
just the groups that it opens. -/
inductive Closes : Nat → List Char → Prop
  | nil : Closes 0 []
  | opening {depth : Nat} {rest : List Char} (closes : Closes (depth + 1) rest) :
    Closes depth ('{' :: rest)
  | closing {depth : Nat} {rest : List Char} (closes : Closes depth rest) :
    Closes (depth + 1) ('}' :: rest)
  | other {depth : Nat} {char : Char} {rest : List Char} (opens : char ≠ '{')
    (shuts : char ≠ '}') (closes : Closes depth rest) : Closes depth (char :: rest)

/-- Every brace of the text has its partner in it. -/
def Balanced (text : List Char) : Prop :=
  Closes 0 text

/-- The brace behind a text that closes all but one of the open groups is found. -/
theorem closing?_append (closes : Closes depth before) (after : List Char) :
    closing? depth (before ++ '}' :: after) = some (before, after) := by
  induction closes with
  | nil => rfl
  | opening _ ih => rw [List.cons_append, closing?_open, ih, Option.map_some]
  | closing _ ih => rw [List.cons_append, closing?_close_succ, ih, Option.map_some]
  | other opens shuts _ ih =>
      rw [List.cons_append, closing?_other opens shuts, ih, Option.map_some]

theorem closes_of_closing? (found : closing? depth chars = some (before, after)) :
    Closes depth before := by
  induction chars generalizing depth before with
  | nil => simp [closing?] at found
  | cons char rest ih =>
      by_cases opens : char = '{'
      · subst opens
        rw [closing?_open] at found
        obtain ⟨⟨inner, _⟩, deeper, same⟩ := Option.map_eq_some_iff.mp found
        cases same
        exact .opening (ih deeper)
      by_cases shuts : char = '}'
      · subst shuts
        cases depth with
        | zero =>
            cases found
            exact .nil
        | succ depth =>
            obtain ⟨⟨inner, _⟩, deeper, same⟩ := Option.map_eq_some_iff.mp found
            cases same
            exact .closing (ih deeper)
      · rw [closing?_other opens shuts] at found
        obtain ⟨⟨inner, _⟩, deeper, same⟩ := Option.map_eq_some_iff.mp found
        cases same
        exact .other opens shuts (ih deeper)

/-- A text that closes more groups than given closes the given ones first. -/
theorem Closes.split {inner outer : Nat} (closes : Closes (outer + inner + 1) chars) :
    ∃ before after, chars = before ++ '}' :: after ∧ Closes inner before ∧ Closes outer after := by
  induction chars generalizing inner with
  | nil => cases closes
  | cons char rest ih =>
      cases closes with
      | opening closes =>
          have deeper : Closes (outer + (inner + 1) + 1) rest := closes
          obtain ⟨before, after, rfl, first, second⟩ := ih deeper
          exact ⟨'{' :: before, after, rfl, .opening first, second⟩
      | closing closes =>
          cases inner with
          | zero => exact ⟨[], rest, rfl, .nil, closes⟩
          | succ inner =>
              obtain ⟨before, after, rfl, first, second⟩ := ih closes
              exact ⟨'}' :: before, after, rfl, .closing first, second⟩
      | other opens shuts closes =>
          obtain ⟨before, after, rfl, first, second⟩ := ih closes
          exact ⟨char :: before, after, rfl, .other opens shuts first, second⟩

theorem Closes.append {outer : Nat} (first : Closes depth before) (second : Closes outer after) :
    Closes (outer + depth) (before ++ after) := by
  induction first with
  | nil => exact second
  | opening _ ih => exact .opening ih
  | closing _ ih => exact .closing ih
  | other opens shuts _ ih => exact .other opens shuts ih

/-- Without opening braces a beginning of a balanced text has none that close. -/
theorem Balanced.of_append (balanced : Balanced (stretch ++ rest)) (plain : '{' ∉ stretch) :
    '}' ∉ stretch ∧ Balanced rest := by
  induction stretch with
  | nil => exact ⟨List.not_mem_nil, balanced⟩
  | cons char stretch ih =>
      rw [List.mem_cons, not_or] at plain
      cases balanced with
      | opening => exact absurd rfl plain.1
      | other _ shuts closes =>
          obtain ⟨unshut, behind⟩ := ih closes plain.2
          rw [List.mem_cons, not_or]
          exact ⟨⟨shuts.symm, unshut⟩, behind⟩

/-! ## Layouts -/

/-- A row of a body with the stretch before it. -/
structure Group where
  stretch : List Char
  row : List Char

def Group.text (group : Group) : List Char :=
  group.stretch ++ '{' :: (group.row ++ ['}'])

/-- A body taken apart: its rows, and the stretch behind the last one. -/
structure Layout where
  groups : List Group
  tail : List Char

def Layout.text (layout : Layout) : List Char :=
  layout.groups.flatMap Group.text ++ layout.tail

def Braceless (chars : List Char) : Prop :=
  '{' ∉ chars ∧ '}' ∉ chars

instance (chars : List Char) : Decidable (Braceless chars) :=
  inferInstanceAs (Decidable (_ ∧ _))

theorem Braceless.balanced (plain : Braceless chars) : Balanced chars := by
  induction chars with
  | nil => exact .nil
  | cons char rest ih =>
      simp only [Braceless, List.mem_cons, not_or] at plain
      exact .other (Ne.symm plain.1.1) (Ne.symm plain.2.1) (ih ⟨plain.1.2, plain.2.2⟩)

structure Group.Proper (group : Group) : Prop where
  plain : Braceless group.stretch
  balanced : Balanced group.row

structure Layout.Proper (layout : Layout) : Prop where
  groups : ∀ group ∈ layout.groups, group.Proper
  tail : Braceless layout.tail

theorem Group.Proper.balanced_text {group : Group} (proper : group.Proper) :
    Balanced group.text := by
  have row : Closes 1 (group.row ++ ['}']) := proper.balanced.append (.closing .nil)
  exact proper.plain.balanced.append (.opening row)

theorem Layout.Proper.balanced_text {layout : Layout} (proper : layout.Proper) :
    Balanced layout.text := by
  obtain ⟨groups, tail⟩ := layout
  have front : Balanced (groups.flatMap Group.text) := by
    induction groups with
    | nil => exact .nil
    | cons group rest ih =>
        obtain ⟨first, others⟩ := List.forall_mem_cons.mp proper.groups
        exact first.balanced_text.append (ih ⟨others, proper.tail⟩)
  exact front.append proper.tail.balanced

/-- A text whose braces have partners is rows and stretches. -/
theorem exists_layout (chars : List Char) (balanced : Balanced chars) :
    ∃ layout : Layout, layout.Proper ∧ layout.text = chars := by
  by_cases opens : '{' ∈ chars
  · obtain ⟨stretch, inside, rfl, plain⟩ := List.eq_append_cons_of_mem opens
    obtain ⟨unshut, behind⟩ := balanced.of_append plain
    cases behind with
    | other differs => exact absurd rfl differs
    | opening closes =>
        obtain ⟨row, after, rfl, first, second⟩ := @Closes.split inside 0 0 closes
        obtain ⟨layout, proper, rfl⟩ := exists_layout after second
        refine ⟨⟨⟨stretch, row⟩ :: layout.groups, layout.tail⟩, ?_, ?_⟩
        · exact ⟨List.forall_mem_cons.mpr ⟨⟨⟨plain, unshut⟩, first⟩, proper.groups⟩, proper.tail⟩
        · simp [Layout.text, Group.text]
  · have whole : Balanced (chars ++ []) := by rwa [List.append_nil]
    have unshut : '}' ∉ chars := (whole.of_append opens).1
    exact ⟨⟨[], chars⟩, ⟨List.forall_mem_nil _, opens, unshut⟩, rfl⟩
termination_by chars.length
decreasing_by
  subst_vars
  simp only [List.length_append, List.length_cons]
  omega

/-! ## Lines -/

/-- The line of what stands behind a beginning of the text. -/
def lineAfter (front : List Char) : Nat :=
  1 + lineFeeds front

theorem lineFeeds_append : lineFeeds (before ++ after) = lineFeeds before + lineFeeds after :=
  List.count_append

theorem lineAfter_append : lineAfter (before ++ after) = lineAfter before + lineFeeds after := by
  rw [lineAfter, lineAfter, lineFeeds_append, Nat.add_assoc]

/-- The groups of a body, each with all that stands before it in the text. -/
def spots (front : List Char) : List Group → List (List Char × Group)
  | [] => []
  | group :: rest => (front, group) :: spots (front ++ group.text) rest

/-- The row of a group, on the line of its brace. -/
def rowAt (front : List Char) (group : Group) : Row :=
  ⟨lineAfter (front ++ group.stretch), (fields group.row).map String.ofList⟩

/-! ## Scanning a body -/

theorem scanRows_of_plain {line : Nat} (plain : '{' ∉ chars) : scanRows line chars = ⟨[], []⟩ := by
  have uncut : Text.cut? ['{'] chars = none := by
    rw [Text.cut?_eq_none_iff]
    exact fun inside => plain (inside.subset (List.mem_singleton_self '{'))
  rw [scanRows.eq_def line chars]
  split
  · rfl
  · rename_i found
    rw [uncut] at found
    cases found

theorem scanRows_of_closed {line : Nat} {stretch inside row rest : List Char}
    (cut : Text.cut? ['{'] chars = some (stretch, inside))
    (closed : closing? 0 inside = some (row, rest)) :
    let start := line + lineFeeds stretch
    let more := scanRows (start + lineFeeds row) rest
    scanRows line chars = ⟨⟨start, (fields row).map String.ofList⟩ :: more.items,
      strayFlaw line stretch ++ more.flaws⟩ := by
  intro start more
  rw [scanRows.eq_def line chars]
  split
  · rename_i uncut
    rw [cut] at uncut
    cases uncut
  · rename_i found
    rw [cut] at found
    cases found
    dsimp only
    split
    · rename_i unclosed
      rw [closed] at unclosed
      cases unclosed
    · rename_i found
      rw [closed] at found
      cases found
      rfl

theorem scanRows_group {group : Group} (proper : group.Proper) (front rest : List Char) :
    let more := scanRows (lineAfter (front ++ group.text)) rest
    scanRows (lineAfter front) (group.text ++ rest) = ⟨rowAt front group :: more.items,
      strayFlaw (lineAfter front) group.stretch ++ more.flaws⟩ := by
  have whole : group.text ++ rest = group.stretch ++ '{' :: (group.row ++ '}' :: rest) := by
    simp [Group.text]
  have cut : Text.cut? ['{'] (group.stretch ++ '{' :: (group.row ++ '}' :: rest)) =
      some (group.stretch, group.row ++ '}' :: rest) := Text.cut?_append proper.plain.1
  have closed := closing?_append proper.balanced rest
  have next : lineAfter (front ++ group.text) =
      lineAfter front + lineFeeds group.stretch + lineFeeds group.row := by
    have braces : lineFeeds ('{' :: (group.row ++ ['}'])) = lineFeeds group.row := by
      simp [lineFeeds]
    rw [lineAfter_append, Group.text, lineFeeds_append, braces, Nat.add_assoc]
  rw [whole, scanRows_of_closed cut closed, next, rowAt, lineAfter_append]

/-- The scan of a body gives its rows, and a flaw for each stretch before a row that holds
more than separators. -/
theorem scanRows_layout {layout : Layout} (proper : layout.Proper) (front : List Char) :
    scanRows (lineAfter front) layout.text =
      ⟨(spots front layout.groups).map fun (before, group) => rowAt before group,
        (spots front layout.groups).flatMap fun (before, group) =>
          strayFlaw (lineAfter before) group.stretch⟩ := by
  obtain ⟨groups, tail⟩ := layout
  induction groups generalizing front with
  | nil => exact scanRows_of_plain proper.tail.1
  | cons group rest ih =>
      obtain ⟨first, others⟩ := List.forall_mem_cons.mp proper.groups
      have more := ih (front ++ group.text) ⟨others, proper.tail⟩
      rw [Layout.text] at more ⊢
      rw [List.flatMap_cons, List.append_assoc, scanRows_group first, more]
      rfl

end Pinout.PinMap
