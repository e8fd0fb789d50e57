import Mathlib.Data.List.Induction
import Mathlib.Data.List.Nodup
import Pinout.Board.Assembly
import Pinout.Proofs.Grouping

/-! A definition read from a text speaks once for each resource and once for each
timer pin. Repetitions are settled statement by statement, so the lists that the
reduction keeps never hold two answers to one question. That each note is given away once is
therefore no loss: no other timer is on its pin. -/

set_option autoImplicit false

namespace Pinout.Board

/-- No numbered resource and no timer pin is answered for twice. -/
structure Definition.Unambiguous (board : Definition) : Prop where
  resources : (board.resources.map (·.id)).Nodup
  timers : (board.timers.map (·.pin)).Nodup

section Replacement

variable {α κ : Type} [DecidableEq κ] (key : α → κ) {items : List α} (item : α)

theorem map_key_replace :
    (items.map fun earlier => if key earlier = key item then item else earlier).map key =
      items.map key := by
  rw [List.map_map]
  apply List.map_congr_left
  intro earlier _
  by_cases same : key earlier = key item <;> simp [same]

theorem nodup_map_append (unique : (items.map key).Nodup)
    (fresh : ¬ (items.any fun earlier => key earlier = key item) = true) :
    ((items ++ [item]).map key).Nodup := by
  rw [List.map_append, List.nodup_append]
  refine ⟨unique, by simp, ?_⟩
  intro k member other single same
  obtain ⟨earlier, included, rfl⟩ := List.mem_map.mp member
  have named : other = key item := by simpa using single
  exact fresh (List.any_eq_true.mpr ⟨earlier, included, by simp [same, named]⟩)

end Replacement

theorem addResource_unique (policy : Policy) {resources : List Assignment}
    (unique : (resources.map (·.id)).Nodup) (declaration : Declaration) :
    ((addResource policy resources declaration).map (·.id)).Nodup := by
  unfold addResource
  split
  · rename_i id pin _
    let assignment : Assignment := ⟨id, pin, declaration.line⟩
    split
    · split
      · exact (map_key_replace Assignment.id assignment).symm ▸ unique
      · exact unique
      · exact unique
    · rename_i fresh
      exact nodup_map_append Assignment.id assignment unique fresh
  · exact unique.sublist (List.filter_sublist.map _)
  · exact unique

theorem addTimer_unique {timers : List Timer} (unique : (timers.map (·.pin)).Nodup)
    (declaration : Declaration) : ((addTimer timers declaration).map (·.pin)).Nodup := by
  unfold addTimer
  split
  · rename_i pin function _
    let timer : Timer := ⟨pin, function, none, declaration.line⟩
    split
    · exact (map_key_replace Timer.pin timer).symm ▸ unique
    · rename_i fresh
      exact nodup_map_append Timer.pin timer unique fresh
  · exact unique

theorem addSetting_unique {settings : List Setting} (unique : (settings.map (·.key)).Nodup)
    (declaration : Declaration) : ((addSetting settings declaration).map (·.key)).Nodup := by
  unfold addSetting
  split
  · rename_i key value _
    let setting : Setting := ⟨key, value, declaration.line⟩
    split
    · exact (map_key_replace Setting.key setting).symm ▸ unique
    · rename_i fresh
      exact nodup_map_append Setting.key setting unique fresh
  · exact unique

theorem nodup_foldl_addTimer (declarations : List Declaration) :
    ((declarations.foldl addTimer []).map Timer.pin).Nodup :=
  List.foldlRecOn (motive := fun timers => (timers.map Timer.pin).Nodup)
    declarations addTimer List.nodup_nil
    fun _ unique declaration _ => addTimer_unique unique declaration

/-! ## Notes -/

/-- The advice of the last note on a pin. -/
def lastAdvisory? (pin : Pin) (declarations : List Declaration) : Option Advisory :=
  declarations.reverse.findSome? fun declaration =>
    match declaration.statement with
    | .advise place advisory => if place = pin then some advisory else none
    | _ => none

section Notes

variable {notes : List (Pin × Advisory)} {pin other : Pin}

/-- Without the note on one pin those on the others are what they were. -/
theorem noteOn?_filter (apart : pin ≠ other) :
    noteOn? (notes.filter fun note => note.1 ≠ other) pin = noteOn? notes pin := by
  rw [noteOn?, List.find?_filter, noteOn?]
  congr 2
  funext note
  by_cases here : note.1 = pin <;> simp [here, apart]

theorem noteOn?_addNote {declaration : Declaration} {advisory : Advisory}
    (said : declaration.statement = .advise other advisory) :
    noteOn? (addNote notes declaration) pin =
      if other = pin then some advisory else noteOn? notes pin := by
  rw [addNote, said]
  dsimp only
  split
  · rename_i same
    simp [noteOn?, same]
  · rename_i apart
    calc noteOn? ((other, advisory) :: notes.filter fun note => note.1 ≠ other) pin
        = noteOn? (notes.filter fun note => note.1 ≠ other) pin := by
          rw [noteOn?, List.find?_cons_of_neg (by simpa using apart), noteOn?]
      _ = noteOn? notes pin := noteOn?_filter (Ne.symm apart)

theorem noteOn?_foldl_addNote (pin : Pin) (declarations : List Declaration) :
    noteOn? (declarations.foldl addNote []) pin = lastAdvisory? pin declarations := by
  induction declarations using List.reverseRecOn with
  | nil => rfl
  | append_singleton declarations declaration ih =>
      rw [List.foldl_concat, lastAdvisory?, List.reverse_concat, List.findSome?_cons]
      cases said : declaration.statement with
      | advise place advisory =>
          rw [noteOn?_addNote said, ih]
          by_cases same : place = pin <;> simp [same, lastAdvisory?]
      | _ =>
          rw [addNote, said]
          exact ih

/-- Timers of distinct pins do not take each other's notes away. -/
theorem giveNotes_eq_map {timers : List Timer} (unique : (timers.map Timer.pin).Nodup) :
    giveNotes notes timers =
      timers.map fun timer => { timer with advisory := noteOn? notes timer.pin } := by
  induction timers generalizing notes with
  | nil => rfl
  | cons first rest ih =>
      obtain ⟨fresh, unique⟩ := List.nodup_cons.mp unique
      -- The note on the first pin is gone for the others, which are not on that pin.
      rw [giveNotes, ih unique, List.map_cons]
      congr 1
      apply List.map_congr_left
      intro timer member
      have apart : timer.pin ≠ first.pin := fun same => fresh (List.mem_map.mpr ⟨timer, member, same⟩)
      rw [noteOn?_filter apart]

end Notes

theorem timers_assemble (policy : Policy) (declarations : List Declaration) :
    (assemble policy declarations).timers = (declarations.foldl addTimer []).map fun timer =>
      { timer with advisory := lastAdvisory? timer.pin declarations } := by
  rw [assemble]
  dsimp only
  rw [giveNotes_eq_map (nodup_foldl_addTimer declarations)]
  simp only [noteOn?_foldl_addNote]

theorem assemble_unambiguous (policy : Policy) (declarations : List Declaration) :
    (assemble policy declarations).Unambiguous where
  resources :=
    List.foldlRecOn (motive := fun resources => (resources.map Assignment.id).Nodup)
      declarations (addResource policy) List.nodup_nil
      fun _ unique declaration _ => addResource_unique policy unique declaration
  timers := by
    rw [timers_assemble, List.map_map]
    exact nodup_foldl_addTimer declarations

theorem assemble_keys (policy : Policy) (declarations : List Declaration) :
    ((assemble policy declarations).settings.map (·.key)).Nodup :=
  List.foldlRecOn (motive := fun settings => (settings.map Setting.key).Nodup)
    declarations addSetting List.nodup_nil
    fun _ unique declaration _ => addSetting_unique unique declaration

/-- Whatever a text says and however it repeats itself, the definition read from it
has one answer for each resource and each timer pin. -/
theorem parse_unambiguous (policy : Policy) (text : String) :
    (parse policy text).board.Unambiguous :=
  assemble_unambiguous policy (declarations text)

namespace Definition.Unambiguous

variable {board : Definition}

theorem eq_of_id_eq (unambiguous : board.Unambiguous) {left right : Assignment}
    (leftMember : left ∈ board.resources) (rightMember : right ∈ board.resources)
    (same : left.id = right.id) : left = right :=
  List.inj_on_of_nodup_map unambiguous.resources leftMember rightMember same

theorem modeled (unambiguous : board.Unambiguous) : (board.modeled.map (·.id)).Nodup :=
  unambiguous.resources.sublist (List.filter_sublist.map _)

theorem eq_of_mem_modeled (unambiguous : board.Unambiguous) {left right : Assignment}
    (leftMember : left ∈ board.modeled) (rightMember : right ∈ board.modeled)
    (same : left.id = right.id) : left = right :=
  List.inj_on_of_nodup_map unambiguous.modeled leftMember rightMember same

theorem timerFor?_eq_some_iff (unambiguous : board.Unambiguous) {pin : Pin} {timer : Timer} :
    board.timerFor? pin = some timer ↔ timer ∈ board.timers ∧ timer.pin = pin :=
  Grouping.find?_key_eq_some_iff unambiguous.timers

end Definition.Unambiguous

end Pinout.Board
