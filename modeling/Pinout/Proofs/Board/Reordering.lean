import Pinout.Board.Definition

/-! Board definitions in another order. What is looked up by name or by pin does not depend
on lines, and a selection of the resources is reordered as they are. -/

set_option autoImplicit false

namespace Pinout.Board

def Assignment.unlined (assignment : Assignment) : Assignment :=
  { assignment with line := 0 }

def Timer.unlined (timer : Timer) : Timer :=
  { timer with line := 0 }

def Setting.unlined (setting : Setting) : Setting :=
  { setting with line := 0 }

def Hint.unlined (hint : Hint) : Hint :=
  { hint with line := 0 }

/-- The definitions differ only in the order of their resources, in line numbers and in
the statements that are kept as they stand. -/
structure Definition.Reordered (left right : Definition) : Prop where
  resources : (left.resources.map Assignment.unlined).Perm
    (right.resources.map Assignment.unlined)
  timers : left.timers.map Timer.unlined = right.timers.map Timer.unlined
  settings : left.settings.map Setting.unlined = right.settings.map Setting.unlined
  hints : left.hints.declared.map Hint.unlined = right.hints.declared.map Hint.unlined
  metadata : left.metadata = right.metadata

namespace Definition.Reordered

variable {left right : Definition}

instance (left right : Definition) : Decidable (left.Reordered right) :=
  decidable_of_iff
    ((left.resources.map Assignment.unlined).Perm (right.resources.map Assignment.unlined) ∧
      left.timers.map Timer.unlined = right.timers.map Timer.unlined ∧
      left.settings.map Setting.unlined = right.settings.map Setting.unlined ∧
      left.hints.declared.map Hint.unlined = right.hints.declared.map Hint.unlined ∧
      left.metadata = right.metadata)
    ⟨fun ⟨resources, timers, settings, hints, metadata⟩ =>
      ⟨resources, timers, settings, hints, metadata⟩,
      fun same => ⟨same.resources, same.timers, same.settings, same.hints, same.metadata⟩⟩

protected theorem refl (board : Definition) : board.Reordered board :=
  ⟨.refl _, rfl, rfl, rfl, rfl⟩

theorem setting? (same : left.Reordered right) (key : String) :
    left.setting? key = right.setting? key := by
  have unlined (board : Definition) : board.setting? key =
      ((board.settings.map Setting.unlined).find? fun setting =>
        setting.key = key).map (·.value) := by
    rw [List.find?_map, Option.map_map]
    rfl
  rw [unlined left, unlined right, same.settings]

theorem function (same : left.Reordered right) (pin : Pin) :
    (left.timerFor? pin).map Timer.function = (right.timerFor? pin).map Timer.function := by
  have unlined (board : Definition) : (board.timerFor? pin).map Timer.function =
      ((board.timers.map Timer.unlined).find? fun timer =>
        timer.pin = pin).map Timer.function := by
    rw [List.find?_map, Option.map_map]
    rfl
  rw [unlined left, unlined right, same.timers]

/-- What passes a test that is blind to lines is reordered too. -/
theorem filter (same : left.Reordered right) (test : Assignment → Bool)
    (blind : ∀ assignment, test assignment.unlined = test assignment) :
    ((left.resources.filter test).map Assignment.unlined).Perm
      ((right.resources.filter test).map Assignment.unlined) := by
  have unlined (board : Definition) : (board.resources.filter test).map Assignment.unlined =
      (board.resources.map Assignment.unlined).filter test := by
    rw [List.filter_map, show test ∘ Assignment.unlined = test from funext blind]
  rw [unlined left, unlined right]
  exact same.resources.filter test

end Definition.Reordered

namespace Hints

theorem declaredIn_unlined (hints : Hints) (category : String) :
    hints.declaredIn category = ((hints.declared.map Hint.unlined).filter fun hint =>
      hint.category = category).map (·.variant) := by
  rw [List.filter_map, List.map_map]
  rfl

theorem selections_unlined (hints : Hints) :
    hints.selections = (hints.declared.map Hint.unlined).foldl
      (fun chosen hint => Named.put hint.category hint.variant chosen) [] := by
  rw [List.foldl_map]
  rfl

end Hints

end Pinout.Board
