import Mathlib.Data.List.Forall2
import Pinout.Proofs.Board.Latest
import Pinout.Proofs.Board.Line
import Pinout.Proofs.Board.Reduction
import Pinout.Proofs.Board.Reordering

/-! The normal form of a definition. Reading what was written for a definition gives its
resources, timers, settings and description again, in the same order, and finds nothing. -/

set_option autoImplicit false

namespace Pinout.Board

/-! ## Statements of a definition -/

def Timer.statements (timer : Timer) : List Statement :=
  .timer timer.pin timer.function :: (timer.advisory.map (.advise timer.pin)).toList

def Metadata.statements (metadata : Metadata) : List Statement :=
  (metadata.boardName.map .boardName).toList ++
    (metadata.manufacturer.map .manufacturer).toList ++ (metadata.mcu.map .mcu).toList

/-- What the lines of the normal form say, one by one. -/
def Definition.statements (board : Definition) : List Statement :=
  board.resources.map (fun assignment => .assign assignment.id assignment.pin) ++
    board.timers.flatMap Timer.statements ++
    board.settings.map (fun setting => .setting setting.key setting.value) ++
    board.metadata.statements

/-- What a definition says, by the parts of it that say so. -/
inductive Definition.States (board : Definition) : Statement → Prop where
  | resource {assignment : Assignment} (member : assignment ∈ board.resources) :
    board.States (.assign assignment.id assignment.pin)
  | timer {timer : Timer} (member : timer ∈ board.timers) :
    board.States (.timer timer.pin timer.function)
  | advice {timer : Timer} {advisory : Advisory} (member : timer ∈ board.timers)
    (noted : timer.advisory = some advisory) : board.States (.advise timer.pin advisory)
  | setting {setting : Setting} (member : setting ∈ board.settings) :
    board.States (.setting setting.key setting.value)
  | boardName {name : String} (named : board.metadata.boardName = some name) :
    board.States (.boardName name)
  | manufacturer {name : String} (named : board.metadata.manufacturer = some name) :
    board.States (.manufacturer name)
  | mcu {name : String} (named : board.metadata.mcu = some name) : board.States (.mcu name)

/-- A definition that lines can give: it answers no question twice, and each of its statements
can stand on a line. -/
structure Definition.Writable (board : Definition) : Prop where
  unambiguous : board.Unambiguous
  keys : (board.settings.map (·.key)).Nodup
  fromLine : ∀ statement, board.States statement → statement.FromLine

section Statements

variable {board : Definition}

theorem mem_statements_iff {statement : Statement} :
    statement ∈ board.statements ↔ board.States statement := by
  simp only [Definition.statements, Timer.statements, Metadata.statements, List.mem_append,
    List.mem_map, List.mem_flatMap, List.mem_cons, Option.mem_toList, Option.map_eq_some_iff]
  constructor
  · rintro (((⟨_, member, rfl⟩ | ⟨_, member, rfl | ⟨_, noted, rfl⟩⟩) | ⟨_, member, rfl⟩) |
      (⟨_, named, rfl⟩ | ⟨_, named, rfl⟩) | ⟨_, named, rfl⟩)
    · exact .resource member
    · exact .timer member
    · exact .advice member noted
    · exact .setting member
    · exact .boardName named
    · exact .manufacturer named
    · exact .mcu named
  · intro stated
    cases stated with
    | resource member => exact .inl (.inl (.inl ⟨_, member, rfl⟩))
    | timer member => exact .inl (.inl (.inr ⟨_, member, .inl rfl⟩))
    | advice member noted => exact .inl (.inl (.inr ⟨_, member, .inr ⟨_, noted, rfl⟩⟩))
    | setting member => exact .inl (.inr ⟨_, member, rfl⟩)
    | boardName named => exact .inr (.inl (.inl ⟨_, named, rfl⟩))
    | manufacturer named => exact .inr (.inl (.inr ⟨_, named, rfl⟩))
    | mcu named => exact .inr (.inr ⟨_, named, rfl⟩)

theorem forall₂_flatMap {α β γ : Type} {related : β → γ → Prop} {left : α → List β}
    {right : α → List γ} {items : List α}
    (each : ∀ item ∈ items, List.Forall₂ related (left item) (right item)) :
    List.Forall₂ related (items.flatMap left) (items.flatMap right) := by
  induction items with
  | nil => exact .nil
  | cons item rest ih =>
      rw [List.flatMap_cons, List.flatMap_cons]
      exact List.rel_append (each item List.mem_cons_self)
        (ih fun other member => each other (List.mem_cons_of_mem item member))

theorem forall₂_option {α β γ : Type} {related : β → γ → Prop} {left : α → β} {right : α → γ}
    {item : Option α} (each : ∀ value, item = some value → related (left value) (right value)) :
    List.Forall₂ related (item.map left).toList (item.map right).toList := by
  cases item with
  | none => exact .nil
  | some value => exact .cons (each value rfl) .nil

theorem spells_writtenLines (fromLine : ∀ statement, board.States statement → statement.FromLine) :
    List.Forall₂ Spells board.writtenLines board.statements := by
  refine List.rel_append (List.rel_append (List.rel_append ?_ ?_) ?_)
    (List.rel_append (List.rel_append ?_ ?_) ?_)
  · rw [List.forall₂_map_left_iff, List.forall₂_map_right_iff, List.forall₂_same]
    exact fun _ member => spells_assignment (fromLine _ (.resource member))
  · refine forall₂_flatMap fun timer member => ?_
    refine .cons (spells_timer (fromLine _ (.timer member))) (forall₂_option ?_)
    exact fun _ noted => spells_advisory (fromLine _ (.advice member noted)) timer.pin
  · rw [List.forall₂_map_left_iff, List.forall₂_map_right_iff, List.forall₂_same]
    exact fun _ member => spells_setting (fromLine _ (.setting member))
  · exact forall₂_option fun _ named => spells_boardName (fromLine _ (.boardName named))
  · exact forall₂_option fun _ named => spells_manufacturer (fromLine _ (.manufacturer named))
  · exact forall₂_option fun _ named => spells_mcu (fromLine _ (.mcu named))

end Statements

/-! ## Reading lines -/

section Reading

variable {lines : List String} {statements : List Statement}

theorem read_numbered (spelled : List.Forall₂ Spells lines statements) (start : Nat) :
    let numbered := ((lines.map String.toList).zipIdx start).map fun (line, number) =>
      (number, line)
    (numbered.filterMap fun (number, line) =>
        (readLine line).statement.map fun statement =>
          (⟨number, statement⟩ : Declaration)).map (·.statement) = statements ∧
      (numbered.flatMap fun (number, line) =>
        (readLine line).issues.map (Issue.diagnostic number)) = [] := by
  induction spelled generalizing start with
  | nil => exact ⟨rfl, rfl⟩
  | @cons line statement lines statements spelled _ ih =>
      obtain ⟨spoken, quiet⟩ := ih (start + 1)
      simp only [List.map_cons, List.zipIdx_cons, List.filterMap_cons, List.flatMap_cons,
        spelled.clean, Reading.clean, Option.map_some, List.map_nil, List.nil_append]
      exact ⟨congrArg (statement :: ·) spoken, quiet⟩

theorem single_of_spells (spelled : List.Forall₂ Spells lines statements) :
    ∀ line ∈ lines, Text.Single line.toList := by
  induction spelled with
  | nil => exact List.forall_mem_nil _
  | cons first _ ih => exact List.forall_mem_cons.mpr ⟨first.single, ih⟩

/-- A text of lines that say something is read as what they say, without an issue. -/
theorem read_lines (spelled : List.Forall₂ Spells lines statements) :
    (declarations (String.join (lines.map (· ++ "\n")))).map (·.statement) = statements ∧
      lineIssues (String.join (lines.map (· ++ "\n"))) = [] := by
  have single : ∀ line ∈ lines.map String.toList, Text.Single line :=
    List.forall_mem_map.mpr (single_of_spells spelled)
  have text : (String.join (lines.map (· ++ "\n"))).toList =
      (lines.map String.toList).flatMap fun line => line ++ ['\n'] := by
    rw [String.toList_join, List.flatMap_map, List.flatMap_map]
    refine List.flatMap_congr fun line _ => ?_
    rw [String.toList_append]
    rfl
  have numbered : numberedLines (String.join (lines.map (· ++ "\n"))) =
      ((lines.map String.toList).zipIdx 1).map fun (line, number) => (number, line) := by
    rw [numberedLines, text, Text.lines_flatMap_line single]
  rw [declarations, lineIssues, numbered]
  exact read_numbered spelled 1

end Reading

/-! ## Assembling statements -/

section Assembling

variable {policy : Policy} {declarations : List Declaration}

theorem append_filterMap_cons {α β : Type} {item? : α → Option β} {items : List β} {first : α}
    {rest : List α} : items ++ (first :: rest).filterMap item? =
      (items ++ (item? first).toList) ++ rest.filterMap item? := by
  cases found : item? first <;> simp [found]

theorem fresh_of_nodup {α β κ : Type} {item? : α → Option β} {key : β → κ} {items : List β}
    {first : α} {rest : List α}
    (distinct : ((items ++ (first :: rest).filterMap item?).map key).Nodup) :
    ∀ item, item? first = some item → ∀ earlier ∈ items, key earlier ≠ key item := by
  intro item found earlier member same
  rw [append_filterMap_cons, List.map_append, List.map_append, List.nodup_append,
    List.nodup_append] at distinct
  exact distinct.1.2.2 _ (List.mem_map_of_mem member) _ (List.mem_map_of_mem (by simp [found])) same

/-- When no key comes twice, a reduction that adds what is new keeps everything in order. -/
theorem foldl_eq_append {α κ : Type} (key : α → κ) {step : List α → Declaration → List α}
    {item? : Declaration → Option α} {items : List α}
    (adds : ∀ declaration ∈ declarations, ∀ items,
      (∀ item, item? declaration = some item → ∀ earlier ∈ items, key earlier ≠ key item) →
        step items declaration = items ++ (item? declaration).toList)
    (distinct : ((items ++ declarations.filterMap item?).map key).Nodup) :
    declarations.foldl step items = items ++ declarations.filterMap item? := by
  -- What was added so far changes from step to step and stays free of the keys to come.
  induction declarations generalizing items with
  | nil => simp
  | cons declaration rest ih =>
      rw [List.foldl_cons, adds declaration List.mem_cons_self items (fresh_of_nodup distinct),
        append_filterMap_cons]
      rw [append_filterMap_cons] at distinct
      exact ih (fun other member => adds other (List.mem_cons_of_mem declaration member)) distinct

theorem addResource_of_fresh {declaration : Declaration} {resources : List Assignment}
    (keeps : ∀ id, declaration.statement ≠ .clear id)
    (fresh : ∀ assignment, declaration.assignment? = some assignment →
      ∀ earlier ∈ resources, earlier.id ≠ assignment.id) :
    addResource policy resources declaration = resources ++ declaration.assignment?.toList := by
  cases said : declaration.statement with
  | assign id pin =>
      have new : declaration.assignment? = some ⟨id, pin, declaration.line⟩ := by
        rw [Declaration.assignment?, said]
      have absent : ¬ (resources.any fun earlier => earlier.id = id) = true := by
        simpa using fresh _ new
      rw [addResource, said, new]
      dsimp only
      rw [if_neg absent, Option.toList_some]
  | clear id => exact absurd said (keeps id)
  | _ => simp [addResource, Declaration.assignment?, said]

theorem addTimer_of_fresh {declaration : Declaration} {timers : List Timer}
    (fresh : ∀ timer, declaration.timer? = some timer →
      ∀ earlier ∈ timers, earlier.pin ≠ timer.pin) :
    addTimer timers declaration = timers ++ declaration.timer?.toList := by
  cases said : declaration.statement with
  | timer pin function =>
      have new : declaration.timer? = some ⟨pin, function, none, declaration.line⟩ := by
        rw [Declaration.timer?, said]
      have absent : ¬ (timers.any fun earlier => earlier.pin = pin) = true := by
        simpa using fresh _ new
      rw [addTimer, said, new]
      dsimp only
      rw [if_neg absent, Option.toList_some]
  | _ => simp [addTimer, Declaration.timer?, said]

theorem addSetting_of_fresh {declaration : Declaration} {settings : List Setting}
    (fresh : ∀ setting, declaration.setting? = some setting →
      ∀ earlier ∈ settings, earlier.key ≠ setting.key) :
    addSetting settings declaration = settings ++ declaration.setting?.toList := by
  cases said : declaration.statement with
  | setting key value =>
      have new : declaration.setting? = some ⟨key, value, declaration.line⟩ := by
        rw [Declaration.setting?, said]
      have absent : ¬ (settings.any fun earlier => earlier.key = key) = true := by
        simpa using fresh _ new
      rw [addSetting, said, new]
      dsimp only
      rw [if_neg absent, Option.toList_some]
  | _ => simp [addSetting, Declaration.setting?, said]

theorem repetition?_eq_none {declaration : Declaration} {resources : List Assignment}
    {timers : List Timer}
    (freshResource : ∀ assignment, declaration.assignment? = some assignment →
      ∀ earlier ∈ resources, earlier.id ≠ assignment.id)
    (freshTimer : ∀ timer, declaration.timer? = some timer →
      ∀ earlier ∈ timers, earlier.pin ≠ timer.pin) :
    repetition? policy resources timers declaration = none := by
  cases said : declaration.statement with
  | assign id pin =>
      have new : declaration.assignment? = some ⟨id, pin, declaration.line⟩ := by
        rw [Declaration.assignment?, said]
      simpa [repetition?, said] using freshResource _ new
  | timer pin function =>
      have new : declaration.timer? = some ⟨pin, function, none, declaration.line⟩ := by
        rw [Declaration.timer?, said]
      simpa [repetition?, said] using freshTimer _ new
  | _ => simp [repetition?, said]

theorem repetitions_eq_nil {resources : List Assignment} {timers : List Timer}
    (keeps : ∀ declaration ∈ declarations, ∀ id, declaration.statement ≠ .clear id)
    (ids : ((resources ++ declarations.filterMap Declaration.assignment?).map (·.id)).Nodup)
    (pins : ((timers ++ declarations.filterMap Declaration.timer?).map (·.pin)).Nodup) :
    repetitions policy resources timers declarations = [] := by
  induction declarations generalizing resources timers with
  | nil => rfl
  | cons declaration rest ih =>
      have freshResource := fresh_of_nodup ids
      have freshTimer := fresh_of_nodup pins
      rw [append_filterMap_cons] at ids pins
      rw [repetitions, repetition?_eq_none freshResource freshTimer,
        addResource_of_fresh (keeps declaration List.mem_cons_self) freshResource,
        addTimer_of_fresh freshTimer]
      exact ih (fun other member => keeps other (List.mem_cons_of_mem declaration member)) ids pins

end Assembling

/-! ## Parts of what the statements say -/

def Statement.assignment? : Statement → Option Assignment
  | .assign id pin => some ⟨id, pin, 0⟩
  | _ => none

def Statement.timer? : Statement → Option Timer
  | .timer pin function => some ⟨pin, function, none, 0⟩
  | _ => none

def Statement.setting? : Statement → Option Setting
  | .setting key value => some ⟨key, value, 0⟩
  | _ => none

section Parts

variable {board : Definition} {declarations : List Declaration}

/-- What is read from declarations without their lines depends on their statements alone. -/
theorem filterMap_of_statements {α : Type} {item? : Declaration → Option α} {unlined : α → α}
    {bare? : Statement → Option α}
    (same : ∀ declaration, (item? declaration).map unlined = bare? declaration.statement)
    (said : declarations.map (·.statement) = board.statements) :
    (declarations.filterMap item?).map unlined = board.statements.filterMap bare? := by
  rw [List.map_filterMap, ← said, List.filterMap_map]
  exact List.filterMap_congr fun declaration _ => same declaration

theorem unlined_assignment? (declaration : Declaration) :
    declaration.assignment?.map Assignment.unlined = declaration.statement.assignment? := by
  obtain ⟨line, statement⟩ := declaration
  cases statement <;> rfl

theorem unlined_timer? (declaration : Declaration) :
    declaration.timer?.map Timer.unlined = declaration.statement.timer? := by
  obtain ⟨line, statement⟩ := declaration
  cases statement <;> rfl

theorem unlined_setting? (declaration : Declaration) :
    declaration.setting?.map Setting.unlined = declaration.statement.setting? := by
  obtain ⟨line, statement⟩ := declaration
  cases statement <;> rfl

theorem filterMap_metadata {α : Type} {bare? : Statement → Option α}
    (silent : ∀ name, bare? (.mcu name) = none ∧ bare? (.boardName name) = none ∧
      bare? (.manufacturer name) = none) (metadata : Metadata) :
    metadata.statements.filterMap bare? = [] := by
  obtain ⟨mcu, boardName, manufacturer⟩ := metadata
  cases mcu <;> cases boardName <;> cases manufacturer <;> simp [Metadata.statements, silent]

theorem filterMap_statements {α : Type} {bare? : Statement → Option α}
    (silent : ∀ name, bare? (.mcu name) = none ∧ bare? (.boardName name) = none ∧
      bare? (.manufacturer name) = none) (board : Definition) :
    board.statements.filterMap bare? =
      board.resources.filterMap (fun assignment => bare? (.assign assignment.id assignment.pin)) ++
        board.timers.flatMap (fun timer => timer.statements.filterMap bare?) ++
        board.settings.filterMap fun setting => bare? (.setting setting.key setting.value) := by
  rw [Definition.statements, List.filterMap_append, List.filterMap_append, List.filterMap_append,
    filterMap_metadata silent, List.append_nil, List.filterMap_flatMap, List.filterMap_map,
    List.filterMap_map]
  rfl

theorem assignments_statements (board : Definition) :
    board.statements.filterMap Statement.assignment? =
      board.resources.map Assignment.unlined := by
  have timers : board.timers.flatMap
      (fun timer => timer.statements.filterMap Statement.assignment?) = [] := by
    rw [List.flatMap_eq_nil_iff]
    intro timer _
    cases noted : timer.advisory <;> simp [Timer.statements, noted, Statement.assignment?]
  rw [filterMap_statements fun name => ⟨rfl, rfl, rfl⟩, timers]
  simp only [Statement.assignment?, List.filterMap_none, List.append_nil]
  exact congrFun List.filterMap_eq_map _

theorem timers_statements (board : Definition) :
    board.statements.filterMap Statement.timer? =
      board.timers.map fun timer => ⟨timer.pin, timer.function, none, 0⟩ := by
  rw [filterMap_statements fun name => ⟨rfl, rfl, rfl⟩]
  simp only [Statement.timer?, List.filterMap_none, List.append_nil, List.nil_append]
  rw [List.map_eq_flatMap]
  refine List.flatMap_congr fun timer _ => ?_
  cases noted : timer.advisory <;> simp [Timer.statements, noted, Statement.timer?]

theorem settings_statements (board : Definition) :
    board.statements.filterMap Statement.setting? = board.settings.map Setting.unlined := by
  have timers : board.timers.flatMap
      (fun timer => timer.statements.filterMap Statement.setting?) = [] := by
    rw [List.flatMap_eq_nil_iff]
    intro timer _
    cases noted : timer.advisory <;> simp [Timer.statements, noted, Statement.setting?]
  rw [filterMap_statements fun name => ⟨rfl, rfl, rfl⟩, timers]
  simp only [Statement.setting?, List.filterMap_none, List.nil_append]
  exact congrFun List.filterMap_eq_map _

/-! ## Declarations of the same statements -/

section Again

variable (said : declarations.map (·.statement) = board.statements)

include said

theorem metadata_foldl : declarations.foldl addMetadata {} = board.metadata := by
  let step (metadata : Metadata) (statement : Statement) : Metadata :=
    addMetadata metadata ⟨0, statement⟩
  have bare : declarations.foldl addMetadata {} = board.statements.foldl step {} := by
    rw [← said, List.foldl_map]
    rfl
  have silent : (board.resources.map (fun assignment =>
        Statement.assign assignment.id assignment.pin) ++ board.timers.flatMap Timer.statements ++
      board.settings.map fun setting => Statement.setting setting.key setting.value).foldl step {} =
        ({} : Metadata) := by
    refine List.foldlRecOn (motive := (· = {})) _ step rfl ?_
    rintro _ rfl statement member
    simp only [List.mem_append, List.mem_map, List.mem_flatMap, Timer.statements, List.mem_cons,
      Option.mem_toList, Option.map_eq_some_iff] at member
    rcases member with (⟨_, _, rfl⟩ | ⟨_, _, rfl | ⟨_, _, rfl⟩⟩) | ⟨_, _, rfl⟩ <;> rfl
  rw [bare, Definition.statements, List.foldl_append, silent]
  obtain ⟨mcu, boardName, manufacturer⟩ := board.metadata
  cases mcu <;> cases boardName <;> cases manufacturer <;> rfl

theorem lastAdvisory?_eq (distinct : (board.timers.map (·.pin)).Nodup) {timer : Timer}
    (member : timer ∈ board.timers) :
    lastAdvisory? timer.pin declarations = timer.advisory := by
  -- No two timers share a pin, so a note on the pin can only be that of this timer.
  have sound {advisory : Advisory} (noted : lastAdvisory? timer.pin declarations = some advisory) :
      timer.advisory = some advisory := by
    obtain ⟨declaration, inside, spoken⟩ := exists_advise_of_lastAdvisory? noted
    have stated := List.mem_map_of_mem (f := (·.statement)) inside
    rw [said, spoken, mem_statements_iff] at stated
    generalize place : timer.pin = pin at stated
    cases stated with
    | advice among noted =>
        rw [List.inj_on_of_nodup_map distinct member among place, noted]
  refine Option.ext fun advisory => ⟨sound, fun noted => ?_⟩
  have stated := mem_statements_iff.mpr (.advice member noted)
  rw [← said, List.mem_map] at stated
  obtain ⟨declaration, inside, spoken⟩ := stated
  have some : (lastAdvisory? timer.pin declarations).isSome := by
    rw [lastAdvisory?, List.findSome?_isSome_iff]
    exact ⟨declaration, List.mem_reverse.mpr inside, by simp [spoken]⟩
  obtain ⟨other, found⟩ := Option.isSome_iff_exists.mp some
  rw [found, ← noted, sound found]

theorem keeps_of_said : ∀ declaration ∈ declarations, ∀ id, declaration.statement ≠ .clear id := by
  intro declaration member id clears
  have stated := List.mem_map_of_mem (f := (·.statement)) member
  rw [said, clears, mem_statements_iff] at stated
  cases stated

theorem map_key_of_said {α κ : Type} (key : α → κ) {item? : Declaration → Option α}
    {bare? : Statement → Option α} {unlined shown : α → α} {items : List α}
    (same : ∀ declaration, (item? declaration).map unlined = bare? declaration.statement)
    (given : board.statements.filterMap bare? = items.map shown)
    (blind : ∀ item, key (unlined item) = key item)
    (plain : ∀ item, key (shown item) = key item) :
    (declarations.filterMap item?).map key = items.map key := by
  have keys := congrArg (List.map key) (filterMap_of_statements same said)
  rw [given, List.map_map, List.map_map] at keys
  rwa [show key ∘ unlined = key from funext blind,
    show key ∘ shown = key from funext plain] at keys

theorem ids_of_said : (declarations.filterMap Declaration.assignment?).map (·.id) =
    board.resources.map (·.id) :=
  map_key_of_said said Assignment.id unlined_assignment? (assignments_statements board)
    (fun _ => rfl) fun _ => rfl

theorem pins_of_said : (declarations.filterMap Declaration.timer?).map (·.pin) =
    board.timers.map (·.pin) :=
  map_key_of_said said Timer.pin unlined_timer? (timers_statements board) (fun _ => rfl)
    fun _ => rfl

theorem keys_of_said : (declarations.filterMap Declaration.setting?).map (·.key) =
    board.settings.map (·.key) :=
  map_key_of_said said Setting.key unlined_setting? (settings_statements board) (fun _ => rfl)
    fun _ => rfl

end Again

end Parts

/-! ## Definitions read again -/

/-- The definitions agree on resources, timers, settings and description, line numbers apart. -/
structure Definition.Restates (again board : Definition) : Prop where
  resources : again.resources.map Assignment.unlined = board.resources.map Assignment.unlined
  timers : again.timers.map Timer.unlined = board.timers.map Timer.unlined
  settings : again.settings.map Setting.unlined = board.settings.map Setting.unlined
  metadata : again.metadata = board.metadata

namespace Definition.Writable

variable {board : Definition} {policy : Policy} {declarations : List Declaration}
  (writable : board.Writable) (said : declarations.map (·.statement) = board.statements)

include writable said

theorem foldl_addResource : declarations.foldl (addResource policy) [] =
    declarations.filterMap Declaration.assignment? := by
  have keeps := keeps_of_said said
  refine (foldl_eq_append Assignment.id ?_ ?_).trans (List.nil_append _)
  · exact fun declaration member _ fresh => addResource_of_fresh (keeps declaration member) fresh
  · rw [List.nil_append, ids_of_said said]
    exact writable.unambiguous.resources

theorem foldl_addTimer : declarations.foldl addTimer [] =
    declarations.filterMap Declaration.timer? := by
  refine (foldl_eq_append Timer.pin ?_ ?_).trans (List.nil_append _)
  · exact fun _ _ _ fresh => addTimer_of_fresh fresh
  · rw [List.nil_append, pins_of_said said]
    exact writable.unambiguous.timers

theorem foldl_addSetting : declarations.foldl addSetting [] =
    declarations.filterMap Declaration.setting? := by
  refine (foldl_eq_append Setting.key ?_ ?_).trans (List.nil_append _)
  · exact fun _ _ _ fresh => addSetting_of_fresh fresh
  · rw [List.nil_append, keys_of_said said]
    exact writable.keys

theorem repetitions_eq_nil : repetitions policy [] [] declarations = [] := by
  refine Board.repetitions_eq_nil (keeps_of_said said) ?_ ?_
  · rw [List.nil_append, ids_of_said said]
    exact writable.unambiguous.resources
  · rw [List.nil_append, pins_of_said said]
    exact writable.unambiguous.timers

/-- The statements of a definition assemble to it. -/
theorem assemble_restates : (assemble policy declarations).Restates board where
  resources := by
    rw [assemble, writable.foldl_addResource said, filterMap_of_statements unlined_assignment? said,
      assignments_statements]
  timers := by
    have bare := filterMap_of_statements unlined_timer? said
    rw [timers_statements] at bare
    let advised (timer : Timer) : Timer :=
      { timer with advisory := lastAdvisory? timer.pin declarations }
    calc (assemble policy declarations).timers.map Timer.unlined
      _ = ((declarations.foldl addTimer []).map advised).map Timer.unlined := by
        rw [timers_assemble]
      _ = ((declarations.filterMap Declaration.timer?).map Timer.unlined).map advised := by
        rw [writable.foldl_addTimer said, List.map_map, List.map_map]
        rfl
      _ = board.timers.map Timer.unlined := by
        rw [bare, List.map_map]
        refine List.map_congr_left fun timer member => ?_
        exact congrArg (Timer.mk timer.pin timer.function · 0)
          (lastAdvisory?_eq said writable.unambiguous.timers member)
  settings := by
    rw [assemble, writable.foldl_addSetting said, filterMap_of_statements unlined_setting? said,
      settings_statements]
  metadata := metadata_foldl said

end Definition.Writable

theorem writable_parse (policy : Policy) (text : String) : (parse policy text).board.Writable := by
  constructor
  case unambiguous => exact parse_unambiguous policy text
  case keys => exact assemble_keys policy (declarations text)
  case fromLine =>
    have spoken {statement : Statement} (said : ∃ declaration ∈ declarations text,
        declaration.statement = statement) : statement.FromLine := by
      obtain ⟨declaration, inside, said⟩ := said
      exact fromLine_of_mem_declarations inside said
    intro statement stated
    cases stated with
    | resource inside => exact spoken (exists_assign_of_mem inside)
    | timer inside => exact spoken (exists_timer_of_mem inside)
    | advice inside noted => exact spoken (exists_advise_of_mem inside noted)
    | setting inside => exact spoken (exists_setting_of_mem inside)
    | boardName named => exact spoken (exists_boardName named)
    | manufacturer named => exact spoken (exists_manufacturer named)
    | mcu named => exact spoken (exists_mcu named)

/-- Whatever text a definition was read from, its normal form is read without a finding, under
any policy, as the same resources, timers, settings and description in the same order. -/
theorem parse_write (policy later : Policy) (text : String) :
    let board := (parse policy text).board
    (parse later board.write).diagnostics = [] ∧
      (parse later board.write).board.Restates board := by
  intro board
  have writable : board.Writable := writable_parse policy text
  obtain ⟨said, quiet⟩ := read_lines (spells_writtenLines writable.fromLine)
  constructor
  · exact List.append_eq_nil_iff.mpr ⟨quiet, writable.repetitions_eq_nil said⟩
  · exact writable.assemble_restates said

end Pinout.Board
