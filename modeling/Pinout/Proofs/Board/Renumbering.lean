import Mathlib.Data.List.Forall2
import Pinout.Proofs.Board.Latest

/-! Board definitions with other line numbers. Lines are told apart by what stands on them and
never by their numbers, so that other numbers go through every part of a definition and into
the findings, and change nothing else. -/

set_option autoImplicit false

namespace Pinout.Board

/-! ## Numbers of one item -/

section Items

variable (number : Nat → Nat)

def Assignment.renumber (assignment : Assignment) : Assignment :=
  { assignment with line := number assignment.line }

def Timer.renumber (timer : Timer) : Timer :=
  { timer with line := number timer.line }

def Setting.renumber (setting : Setting) : Setting :=
  { setting with line := number setting.line }

def Hint.renumber (hint : Hint) : Hint :=
  { hint with line := number hint.line }

def Verbatim.renumber (kept : Verbatim) : Verbatim :=
  { kept with line := number kept.line }

def Declaration.renumber (declaration : Declaration) : Declaration :=
  { declaration with line := number declaration.line }

/-- The definition with its line numbers mapped, and nothing else. -/
def Definition.renumber (board : Definition) : Definition where
  resources := board.resources.map (Assignment.renumber number)
  timers := board.timers.map (Timer.renumber number)
  settings := board.settings.map (Setting.renumber number)
  hints := ⟨board.hints.declared.map (Hint.renumber number)⟩
  verbatim := board.verbatim.map (Verbatim.renumber number)
  metadata := board.metadata

end Items

/-- The second finding is the first one with other line numbers, also where a message has any. -/
inductive Diagnostic.Renumbered (policy : Policy) (number : Nat → Nat) :
    Diagnostic → Diagnostic → Prop where
  | issue (line : Nat) (issue : Issue) :
      Renumbered policy number (issue.diagnostic line) (issue.diagnostic (number line))
  | resource (earlier later : Assignment) :
      Renumbered policy number (repeatedResource policy earlier later)
        (repeatedResource policy (earlier.renumber number) (later.renumber number))
  | timer (earlier later : Timer) :
      Renumbered policy number (repeatedTimer earlier later)
        (repeatedTimer (earlier.renumber number) (later.renumber number))

structure Parsed.Renumbered (policy : Policy) (number : Nat → Nat) (parsed other : Parsed) :
    Prop where
  board : other.board = parsed.board.renumber number
  diagnostics : List.Forall₂ (Diagnostic.Renumbered policy number) parsed.diagnostics
    other.diagnostics

/-! ## Definitions -/

section Lists

variable {α κ : Type} [DecidableEq κ] {key : α → κ} {change : α → α} {kept : List α} {item : α}

theorem any_map_key (keeps : ∀ item, key (change item) = key item) (k : κ) :
    ((kept.map change).any fun earlier => key earlier = k) =
      kept.any fun earlier => key earlier = k := by
  rw [List.any_map]
  simp only [Function.comp_def, keeps]

/-- An item is settled by its key, whatever else is changed. -/
theorem settle_map (keeps : ∀ item, key (change item) = key item) :
    settle key (kept.map change) (change item) = (settle key kept item).map change := by
  unfold settle
  rw [any_map_key keeps, keeps]
  split
  · rw [List.map_map, List.map_map]
    apply List.map_congr_left
    intro earlier _
    by_cases same : key earlier = key item <;> simp [keeps, same]
  · rw [List.map_append, List.map_singleton]

/-- A reduction whose steps can be renumbered can be renumbered as a whole. -/
theorem foldl_renumber {step : List α → Declaration → List α} {number : Nat → Nat}
    (step_eq : ∀ kept declaration,
      step (kept.map change) (declaration.renumber number) = (step kept declaration).map change)
    (declarations : List Declaration) :
    (declarations.map (Declaration.renumber number)).foldl step [] =
      (declarations.foldl step []).map change := by
  rw [List.foldl_map, ← List.foldl_hom (List.map change), List.map_nil]
  exact step_eq

end Lists

section Definitions

variable (number : Nat → Nat) {policy : Policy}

theorem addResource_renumber (resources : List Assignment) (declaration : Declaration) :
    addResource policy (resources.map (Assignment.renumber number))
        (declaration.renumber number) =
      (addResource policy resources declaration).map (Assignment.renumber number) := by
  obtain ⟨line, statement⟩ := declaration
  cases statement with
  | assign id pin =>
      have keeps (assignment : Assignment) : (assignment.renumber number).id = assignment.id := rfl
      let assignment : Assignment := ⟨id, pin, line⟩
      have settled : settle Assignment.id (resources.map (Assignment.renumber number))
          (assignment.renumber number) =
            (settle Assignment.id resources assignment).map (Assignment.renumber number) :=
        settle_map keeps
      cases policy with
      | lastWins => exact settled
      | _ =>
          simp only [addResource, Declaration.renumber, any_map_key keeps]
          split
          · rfl
          · simp [Assignment.renumber]
  | clear id =>
      simp only [addResource, Declaration.renumber, List.filter_map]
      rfl
  | _ => rfl

theorem timer?_renumber (declaration : Declaration) :
    (declaration.renumber number).timer? = declaration.timer?.map (Timer.renumber number) := by
  obtain ⟨line, statement⟩ := declaration
  cases statement <;> rfl

theorem setting?_renumber (declaration : Declaration) :
    (declaration.renumber number).setting? =
      declaration.setting?.map (Setting.renumber number) := by
  obtain ⟨line, statement⟩ := declaration
  cases statement <;> rfl

theorem hint?_renumber (declaration : Declaration) :
    (declaration.renumber number).hint? = declaration.hint?.map (Hint.renumber number) := by
  obtain ⟨line, statement⟩ := declaration
  cases statement <;> rfl

theorem verbatim?_renumber (declaration : Declaration) :
    (declaration.renumber number).verbatim? =
      declaration.verbatim?.map (Verbatim.renumber number) := by
  obtain ⟨line, statement⟩ := declaration
  cases statement <;> rfl

theorem addTimer_renumber (timers : List Timer) (declaration : Declaration) :
    addTimer (timers.map (Timer.renumber number)) (declaration.renumber number) =
      (addTimer timers declaration).map (Timer.renumber number) := by
  rw [addTimer_eq, addTimer_eq, timer?_renumber]
  cases declaration.timer? with
  | none => rfl
  | some timer => exact settle_map fun _ => rfl

theorem addSetting_renumber (settings : List Setting) (declaration : Declaration) :
    addSetting (settings.map (Setting.renumber number)) (declaration.renumber number) =
      (addSetting settings declaration).map (Setting.renumber number) := by
  rw [addSetting_eq, addSetting_eq, setting?_renumber]
  cases declaration.setting? with
  | none => rfl
  | some setting => exact settle_map fun _ => rfl

theorem lastAdvisory?_renumber (pin : Pin) (declarations : List Declaration) :
    lastAdvisory? pin (declarations.map (Declaration.renumber number)) =
      lastAdvisory? pin declarations := by
  rw [lastAdvisory?, ← List.map_reverse, List.findSome?_map]
  rfl

theorem filterMap_renumber {α : Type} {item? : Declaration → Option α} {change : α → α}
    (item?_eq : ∀ declaration,
      item? (declaration.renumber number) = (item? declaration).map change)
    (declarations : List Declaration) :
    (declarations.map (Declaration.renumber number)).filterMap item? =
      (declarations.filterMap item?).map change := by
  rw [List.filterMap_map, List.map_filterMap]
  exact List.filterMap_congr fun declaration _ => item?_eq declaration

theorem assemble_renumber (declarations : List Declaration) :
    assemble policy (declarations.map (Declaration.renumber number)) =
      (assemble policy declarations).renumber number := by
  have timers : (assemble policy (declarations.map (Declaration.renumber number))).timers =
      (assemble policy declarations).timers.map (Timer.renumber number) := by
    rw [timers_assemble, timers_assemble, foldl_renumber (addTimer_renumber number), List.map_map,
      List.map_map]
    apply List.map_congr_left
    intro timer _
    simp only [Function.comp_apply, lastAdvisory?_renumber]
    rfl
  have metadata : (declarations.map (Declaration.renumber number)).foldl addMetadata {} =
      declarations.foldl addMetadata {} := by
    rw [List.foldl_map]
    rfl
  rw [Definition.renumber, ← timers]
  simp only [assemble, foldl_renumber (addResource_renumber number),
    foldl_renumber (addSetting_renumber number), filterMap_renumber number (hint?_renumber number),
    filterMap_renumber number (verbatim?_renumber number), metadata]

/-! ## Findings -/

variable {resources : List Assignment} {timers : List Timer}

theorem renumbered_repetition? (declaration : Declaration) :
    List.Forall₂ (Diagnostic.Renumbered policy number)
      (repetition? policy resources timers declaration).toList
      (repetition? policy (resources.map (Assignment.renumber number))
        (timers.map (Timer.renumber number)) (declaration.renumber number)).toList := by
  obtain ⟨line, statement⟩ := declaration
  cases statement with
  | assign id pin =>
      have found : (resources.map (Assignment.renumber number)).find? (fun earlier =>
          earlier.id = id) =
            (resources.find? fun earlier => earlier.id = id).map (Assignment.renumber number) :=
        List.find?_map
      simp only [repetition?, Declaration.renumber, found]
      cases resources.find? fun earlier => earlier.id = id with
      | none => exact .nil
      | some earlier => exact .cons (.resource earlier ⟨id, pin, line⟩) .nil
  | timer pin function =>
      have found : (timers.map (Timer.renumber number)).find? (fun earlier =>
          earlier.pin = pin) =
            (timers.find? fun earlier => earlier.pin = pin).map (Timer.renumber number) :=
        List.find?_map
      simp only [repetition?, Declaration.renumber, found]
      cases timers.find? fun earlier => earlier.pin = pin with
      | none => exact .nil
      | some earlier => exact .cons (.timer earlier ⟨pin, function, none, line⟩) .nil
  | _ => exact .nil

theorem renumbered_repetitions (declarations : List Declaration) :
    List.Forall₂ (Diagnostic.Renumbered policy number)
      (repetitions policy resources timers declarations)
      (repetitions policy (resources.map (Assignment.renumber number))
        (timers.map (Timer.renumber number))
        (declarations.map (Declaration.renumber number))) := by
  induction declarations generalizing resources timers with
  | nil => exact .nil
  | cons declaration rest ih =>
      rw [List.map_cons, repetitions, repetitions, addResource_renumber, addTimer_renumber]
      exact List.rel_append (renumbered_repetition? number declaration) ih

end Definitions

end Pinout.Board
