import Mathlib.Data.List.Induction
import Pinout.Proofs.Board.Unambiguous

/-! What counts when a text says something again. Of the timer lines of a pin, the settings of a
key, the notes on a pin, the hints of a category and the names of the board the last one counts,
wherever it stands; the first one gives the pin or the key its place among the others. Each
further timer line of a pin is reported once. -/

set_option autoImplicit false

namespace Pinout.Board

/-! ## Lists where the last item counts -/

section Keys

variable {α κ : Type} [DecidableEq κ] {key : α → κ} {said kept : List α} {item : α}

/-- Each key has its last item, and the keys stand in the order in which they came first. -/
structure LastWins (key : α → κ) (said kept : List α) : Prop where
  ordered : kept.map key = (said.map key).eraseDups
  latest : ∀ item ∈ kept, (said.filter fun other => key other = key item).getLast? = some item

/-- Put an item in the place of the one with its key, or behind all others. -/
def settle (key : α → κ) (kept : List α) (item : α) : List α :=
  if kept.any fun earlier => key earlier = key item then
    kept.map fun earlier => if key earlier = key item then item else earlier
  else kept ++ [item]

theorem getLast?_filter_concat {test : α → Bool} :
    ((said ++ [item]).filter test).getLast? =
      if test item then some item else (said.filter test).getLast? := by
  rw [List.filter_append]
  by_cases passes : test item = true <;> simp [passes]

theorem eraseDups_concat (keys : List κ) (k : κ) :
    (keys ++ [k]).eraseDups = if k ∈ keys then keys.eraseDups else keys.eraseDups ++ [k] := by
  have single : [k].eraseDups = [k] := by simp [List.eraseDups_cons]
  rw [List.eraseDups_append]
  by_cases known : k ∈ keys <;> simp [known, List.removeAll, single]

theorem LastWins.any_iff (wins : LastWins key said kept) :
    (kept.any fun earlier => key earlier = key item) = true ↔ key item ∈ said.map key := by
  have known : key item ∈ kept.map key ↔ key item ∈ said.map key := by
    rw [wins.ordered, List.mem_eraseDups]
  simpa using known

theorem LastWins.settle (wins : LastWins key said kept) (item : α) :
    LastWins key (said ++ [item]) (settle key kept item) := by
  unfold Board.settle
  split
  · rename_i present
    constructor
    case ordered =>
      rw [map_key_replace key item, List.map_append, List.map_singleton, eraseDups_concat,
        if_pos (wins.any_iff.mp present), wins.ordered]
    case latest =>
      intro later member
      obtain ⟨earlier, inside, replaced⟩ := List.mem_map.mp member
      rw [getLast?_filter_concat]
      by_cases same : key earlier = key item
      · rw [if_pos same] at replaced
        simp [replaced]
      · rw [if_neg same] at replaced
        rw [← replaced, if_neg (by simpa using Ne.symm same), wins.latest earlier inside]
  · rename_i absent
    have fresh : key item ∉ said.map key := fun known => absent (wins.any_iff.mpr known)
    constructor
    case ordered =>
      rw [List.map_append, List.map_append, List.map_singleton, eraseDups_concat, if_neg fresh,
        wins.ordered]
    case latest =>
      intro later member
      rw [getLast?_filter_concat]
      rcases List.mem_append.mp member with earlier | last
      · have apart : key item ≠ key later := by
          intro same
          refine fresh (List.mem_eraseDups.mp ?_)
          rw [← wins.ordered, same]
          exact List.mem_map_of_mem earlier
        rw [if_neg (by simpa using apart), wins.latest later earlier]
      · simp [List.mem_singleton.mp last]

/-- A reduction that settles the items of some declarations and passes over the others. -/
theorem lastWins_foldl {step : List α → Declaration → List α} {item? : Declaration → Option α}
    (step_eq : ∀ kept declaration,
      step kept declaration = (item? declaration).elim kept (Board.settle key kept))
    (declarations : List Declaration) :
    LastWins key (declarations.filterMap item?) (declarations.foldl step []) := by
  induction declarations using List.reverseRecOn with
  | nil => exact ⟨rfl, List.forall_mem_nil _⟩
  | append_singleton declarations declaration ih =>
      rw [List.foldl_concat, step_eq, List.filterMap_append]
      cases told : item? declaration with
      | none => simpa [told] using ih
      | some item => simpa [told] using ih.settle item

/-- Looking up a key among what is kept gives the last item with it. -/
theorem LastWins.find? (wins : LastWins key said kept) (k : κ) :
    (kept.find? fun item => key item = k) = (said.filter fun item => key item = k).getLast? := by
  cases found : kept.find? fun item => key item = k with
  | some item =>
      have named : key item = k := by simpa using List.find?_some found
      rw [← named, wins.latest item (List.mem_of_find?_eq_some found)]
  | none =>
      have absent : k ∉ said.map key := by
        rw [← List.mem_eraseDups, ← wins.ordered]
        simpa using found
      have nothing : (said.filter fun item => key item = k) = [] := by
        simpa using absent
      rw [nothing, List.getLast?_nil]

/-- The items that come after another one with their key, each with the last one before it. -/
def overrulings (key : α → κ) (said : List α) : List (α × α) :=
  said.zipIdx.filterMap fun (later, place) =>
    ((said.take place).filter fun earlier => key earlier = key later).getLast?.map fun earlier =>
      (earlier, later)

theorem overrulings_concat :
    overrulings key (said ++ [item]) = overrulings key said ++
      ((said.filter fun earlier => key earlier = key item).getLast?.map fun earlier =>
        (earlier, item)).toList := by
  unfold overrulings
  rw [List.zipIdx_append, List.filterMap_append]
  congr 1
  · apply List.filterMap_congr
    rintro ⟨later, place⟩ member
    obtain ⟨_, bounded, _⟩ := List.mem_zipIdx member
    dsimp only
    rw [List.take_append_of_le_length (by omega)]
  · simp only [List.zipIdx_cons, List.zipIdx_nil, List.filterMap_cons, List.filterMap_nil,
      Nat.zero_add, List.take_left']
    cases (said.filter fun earlier => key earlier = key item).getLast? <;> rfl

end Keys

/-! ## Statements of one sort -/

def Declaration.timer? (declaration : Declaration) : Option Timer :=
  match declaration.statement with
  | .timer pin function => some ⟨pin, function, none, declaration.line⟩
  | _ => none

def Declaration.setting? (declaration : Declaration) : Option Setting :=
  match declaration.statement with
  | .setting key value => some ⟨key, value, declaration.line⟩
  | _ => none

/-- The advice that a note gives on a pin. -/
def Declaration.adviceOn? (pin : Pin) (declaration : Declaration) : Option Advisory :=
  match declaration.statement with
  | .advise place advisory => if place = pin then some advisory else none
  | _ => none

def Declaration.mcu? (declaration : Declaration) : Option String :=
  match declaration.statement with
  | .mcu name => some name
  | _ => none

def Declaration.boardName? (declaration : Declaration) : Option String :=
  match declaration.statement with
  | .boardName name => some name
  | _ => none

def Declaration.manufacturer? (declaration : Declaration) : Option String :=
  match declaration.statement with
  | .manufacturer name => some name
  | _ => none

section Statements

variable {declarations : List Declaration} {policy : Policy}

theorem addTimer_eq (timers : List Timer) (declaration : Declaration) :
    addTimer timers declaration = declaration.timer?.elim timers (settle Timer.pin timers) := by
  obtain ⟨line, statement⟩ := declaration
  cases statement <;> rfl

theorem addSetting_eq (settings : List Setting) (declaration : Declaration) :
    addSetting settings declaration =
      declaration.setting?.elim settings (settle Setting.key settings) := by
  obtain ⟨line, statement⟩ := declaration
  cases statement <;> rfl

theorem lastWins_timers (declarations : List Declaration) :
    LastWins Timer.pin (declarations.filterMap Declaration.timer?)
      (declarations.foldl addTimer []) :=
  lastWins_foldl addTimer_eq declarations

theorem lastWins_settings (declarations : List Declaration) :
    LastWins Setting.key (declarations.filterMap Declaration.setting?)
      (declarations.foldl addSetting []) :=
  lastWins_foldl addSetting_eq declarations

theorem lastAdvisory?_eq_getLast? (pin : Pin) :
    lastAdvisory? pin declarations =
      (declarations.filterMap (Declaration.adviceOn? pin)).getLast? := by
  rw [List.getLast?_filterMap]
  rfl

/-- A part of the metadata that one sort of statement sets is what the last of them says. -/
theorem part_foldl_addMetadata {part : Metadata → Option String}
    {said? : Declaration → Option String} (blank : part {} = none)
    (step : ∀ metadata declaration,
      part (addMetadata metadata declaration) = (said? declaration).or (part metadata)) :
    part (declarations.foldl addMetadata {}) = (declarations.filterMap said?).getLast? := by
  induction declarations using List.reverseRecOn with
  | nil => exact blank
  | append_singleton declarations declaration ih =>
      rw [List.foldl_concat, step, ih, List.filterMap_append, List.getLast?_append]
      cases told : said? declaration <;> simp [told]

end Statements

theorem Hints.selected?_eq_getLast? (hints : Hints) (category : String) :
    hints.selected? category = (hints.declaredIn category).getLast? := by
  obtain ⟨declared⟩ := hints
  induction declared using List.reverseRecOn with
  | nil => rfl
  | append_singleton declared hint ih =>
      have grown : Hints.selections ⟨declared ++ [hint]⟩ =
          Named.put hint.category hint.variant (Hints.selections ⟨declared⟩) := by
        rw [selections, List.foldl_concat, selections]
      rw [selected?, grown, Named.get?_put, declaredIn, List.getLast?_map, getLast?_filter_concat]
      rw [selected?, declaredIn, List.getLast?_map] at ih
      by_cases same : hint.category = category <;> simp [same, ih]

/-! ## Findings -/

/-- Does the finding say that a timer is declared again? -/
def isTimerRepetition (found : Diagnostic) : Bool :=
  found.finding = .duplicateResource && found.resource.isNone

section Findings

variable {policy : Policy} {resources : List Assignment} {timers : List Timer}
  {declarations : List Declaration} {declaration : Declaration}

theorem repetitions_concat :
    repetitions policy resources timers (declarations ++ [declaration]) =
      repetitions policy resources timers declarations ++
        (repetition? policy (declarations.foldl (addResource policy) resources)
          (declarations.foldl addTimer timers) declaration).toList := by
  induction declarations generalizing resources timers with
  | nil => simp [repetitions]
  | cons first rest ih =>
      rw [List.cons_append, repetitions, repetitions, ih, List.append_assoc, List.foldl_cons,
        List.foldl_cons]

/-- A further timer line of a pin gives one finding on it; nothing else gives any. -/
theorem filter_repetition? {said : List Timer} (wins : LastWins Timer.pin said timers) :
    (repetition? policy resources timers declaration).toList.filter isTimerRepetition =
      (declaration.timer?.bind fun later =>
        (said.filter fun earlier => earlier.pin = later.pin).getLast?.map fun earlier =>
          repeatedTimer earlier later).toList := by
  cases statement : declaration.statement with
  | timer pin function =>
      have found := wins.find? pin
      rw [repetition?, statement, Declaration.timer?, statement]
      dsimp only
      rw [found, Option.bind_some]
      cases (said.filter fun earlier => earlier.pin = pin).getLast? with
      | none => rfl
      | some earlier => rfl
  | assign id pin =>
      rw [repetition?, statement, Declaration.timer?, statement]
      dsimp only
      cases resources.find? fun earlier => earlier.id = id with
      | none => rfl
      | some earlier => rfl
  | _ => simp [repetition?, Declaration.timer?, statement]

theorem filter_repetitions :
    (repetitions policy [] [] declarations).filter isTimerRepetition =
      (overrulings Timer.pin (declarations.filterMap Declaration.timer?)).map fun (earlier, later) =>
        repeatedTimer earlier later := by
  induction declarations using List.reverseRecOn with
  | nil => rfl
  | append_singleton declarations declaration ih =>
      rw [repetitions_concat, List.filter_append, ih, filter_repetition? (lastWins_timers declarations),
        List.filterMap_append]
      cases told : declaration.timer? with
      | none => simp [told]
      | some later =>
          rw [List.filterMap_cons_some told, List.filterMap_nil, overrulings_concat,
            List.map_append, Option.bind_some]
          congr 1
          cases ((declarations.filterMap Declaration.timer?).filter fun earlier =>
            earlier.pin = later.pin).getLast? <;> rfl

end Findings

/-! ## Texts -/

/-- A timer as its own line states it. -/
def Timer.bare (timer : Timer) : Timer :=
  { timer with advisory := none }

/-- What the declarations of timers, settings, hints and names come to, and the findings on
timers declared again. -/
structure Latest (declarations : List Declaration) (parsed : Parsed) : Prop where
  timers : LastWins Timer.pin (declarations.filterMap Declaration.timer?)
    (parsed.board.timers.map Timer.bare)
  advised : ∀ timer ∈ parsed.board.timers,
    timer.advisory = (declarations.filterMap (Declaration.adviceOn? timer.pin)).getLast?
  repeated : parsed.diagnostics.filter isTimerRepetition =
    (overrulings Timer.pin (declarations.filterMap Declaration.timer?)).map fun (earlier, later) =>
      repeatedTimer earlier later
  settings : LastWins Setting.key (declarations.filterMap Declaration.setting?)
    parsed.board.settings
  hints : parsed.board.hints.declared = declarations.filterMap Declaration.hint?
  selected : ∀ category, parsed.board.hints.selected? category =
    (parsed.board.hints.declaredIn category).getLast?
  mcu : parsed.board.metadata.mcu = (declarations.filterMap Declaration.mcu?).getLast?
  boardName : parsed.board.metadata.boardName =
    (declarations.filterMap Declaration.boardName?).getLast?
  manufacturer : parsed.board.metadata.manufacturer =
    (declarations.filterMap Declaration.manufacturer?).getLast?

section Texts

variable {policy : Policy} {text : String}

theorem bare_of_mem_foldl_addTimer {declarations : List Declaration} {timer : Timer}
    (member : timer ∈ declarations.foldl addTimer []) : timer.bare = timer := by
  have last := List.mem_of_getLast? ((lastWins_timers declarations).latest timer member)
  obtain ⟨declaration, _, told⟩ := List.mem_filterMap.mp (List.mem_filter.mp last).1
  unfold Declaration.timer? at told
  split at told <;> cases told
  rfl

theorem map_bare_timers :
    (parse policy text).board.timers.map Timer.bare = (declarations text).foldl addTimer [] := by
  calc (parse policy text).board.timers.map Timer.bare
      = ((declarations text).foldl addTimer []).map Timer.bare := by
        rw [parse, timers_assemble, List.map_map]
        rfl
    _ = ((declarations text).foldl addTimer []).map id :=
        List.map_congr_left fun _ member => bare_of_mem_foldl_addTimer member
    _ = (declarations text).foldl addTimer [] := List.map_id _

theorem isTimerRepetition_lineIssues : (lineIssues text).filter isTimerRepetition = [] := by
  rw [List.filter_eq_nil_iff]
  intro found member
  obtain ⟨number, line, _, issue, _, rfl⟩ := exists_line_of_mem_lineIssues member
  simp [isTimerRepetition, Issue.diagnostic]

end Texts

/-- Whatever is said again in a text, the last word counts, at the place of the first one; a
timer line that is overruled is reported by the one that overrules it. -/
theorem latest_parse (policy : Policy) (text : String) :
    Latest (declarations text) (parse policy text) := by
  constructor
  case timers =>
    rw [map_bare_timers]
    exact lastWins_timers _
  case advised =>
    intro timer member
    rw [parse, timers_assemble] at member
    obtain ⟨bare, _, rfl⟩ := List.mem_map.mp member
    exact lastAdvisory?_eq_getLast? bare.pin
  case repeated =>
    unfold parse
    dsimp only
    rw [List.filter_append, isTimerRepetition_lineIssues, List.nil_append, filter_repetitions]
  case settings => exact lastWins_settings _
  case hints => rfl
  case selected => exact (parse policy text).board.hints.selected?_eq_getLast?
  case mcu =>
    refine part_foldl_addMetadata rfl fun metadata declaration => ?_
    obtain ⟨line, statement⟩ := declaration
    cases statement <;> rfl
  case boardName =>
    refine part_foldl_addMetadata rfl fun metadata declaration => ?_
    obtain ⟨line, statement⟩ := declaration
    cases statement <;> rfl
  case manufacturer =>
    refine part_foldl_addMetadata rfl fun metadata declaration => ?_
    obtain ⟨line, statement⟩ := declaration
    cases statement <;> rfl

end Pinout.Board
