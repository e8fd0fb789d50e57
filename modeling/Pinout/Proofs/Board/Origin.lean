import Pinout.Proofs.Board.LineText
import Pinout.Proofs.Board.Unambiguous

/-! Where the parts of a definition come from. The reduction of statements invents nothing:
every resource, timer, note, setting, hint, name and kept statement is what one line says. So
no text in a definition holds a line feed, keywords and keys are identifiers, names and hints
are without blanks, and numbers start from one. -/

set_option autoImplicit false

namespace Pinout.Board

open Text (Solid IsWord Trimmed)

variable {policy : Policy} {declarations : List Declaration}

/-! ## Parts of a definition -/

theorem Declaration.eq_of_statement {declaration : Declaration} {statement : Statement}
    (said : declaration.statement = statement) : declaration = ⟨declaration.line, statement⟩ :=
  said ▸ rfl

private theorem mem_addResource {resources : List Assignment} {declaration : Declaration}
    {assignment : Assignment} (member : assignment ∈ addResource policy resources declaration) :
    assignment ∈ resources ∨
      declaration = ⟨assignment.line, .assign assignment.id assignment.pin⟩ := by
  unfold addResource at member
  split at member
  · rename_i id pin said
    split at member
    · split at member
      · obtain ⟨earlier, inside, replaced⟩ := List.mem_map.mp member
        split at replaced
        · subst replaced
          exact .inr (Declaration.eq_of_statement said)
        · exact .inl (replaced ▸ inside)
      · exact .inl member
      · exact .inl member
    · rcases List.mem_append.mp member with earlier | new
      · exact .inl earlier
      · rw [List.mem_singleton.mp new]
        exact .inr (Declaration.eq_of_statement said)
  · exact .inl (List.mem_filter.mp member).1
  · exact .inl member

theorem mem_declarations_of_resource {assignment : Assignment}
    (member : assignment ∈ (assemble policy declarations).resources) :
    ⟨assignment.line, .assign assignment.id assignment.pin⟩ ∈ declarations := by
  revert assignment
  refine List.foldlRecOn (motive := fun resources => ∀ {assignment : Assignment},
    assignment ∈ resources →
      ⟨assignment.line, .assign assignment.id assignment.pin⟩ ∈ declarations)
    declarations (addResource policy) (fun member => absurd member List.not_mem_nil) ?_
  intro resources earlier declaration inside assignment member
  rcases mem_addResource member with kept | said
  · exact earlier kept
  · exact said ▸ inside

theorem exists_assign_of_mem {assignment : Assignment}
    (member : assignment ∈ (assemble policy declarations).resources) :
    ∃ declaration ∈ declarations,
      declaration.statement = .assign assignment.id assignment.pin :=
  ⟨_, mem_declarations_of_resource member, rfl⟩

private theorem mem_addTimer {timers : List Timer} {declaration : Declaration} {timer : Timer}
    (member : timer ∈ addTimer timers declaration) :
    timer ∈ timers ∨ declaration = ⟨timer.line, .timer timer.pin timer.function⟩ := by
  unfold addTimer at member
  split at member
  · rename_i pin function said
    dsimp only at member
    split at member
    · obtain ⟨earlier, inside, replaced⟩ := List.mem_map.mp member
      split at replaced
      · subst replaced
        exact .inr (Declaration.eq_of_statement said)
      · exact .inl (replaced ▸ inside)
    · rcases List.mem_append.mp member with earlier | new
      · exact .inl earlier
      · rw [List.mem_singleton.mp new]
        exact .inr (Declaration.eq_of_statement said)
  · exact .inl member

theorem mem_declarations_of_timer {timer : Timer}
    (member : timer ∈ (assemble policy declarations).timers) :
    ⟨timer.line, .timer timer.pin timer.function⟩ ∈ declarations := by
  have bare : ∀ timer ∈ declarations.foldl addTimer [],
      ⟨timer.line, .timer timer.pin timer.function⟩ ∈ declarations := by
    refine List.foldlRecOn (motive := fun timers => ∀ timer ∈ timers,
      ⟨timer.line, .timer timer.pin timer.function⟩ ∈ declarations)
      declarations addTimer (fun _ member => absurd member List.not_mem_nil) ?_
    intro timers earlier declaration inside timer member
    rcases mem_addTimer member with kept | said
    · exact earlier timer kept
    · exact said ▸ inside
  rw [timers_assemble] at member
  obtain ⟨timer, inside, rfl⟩ := List.mem_map.mp member
  exact bare timer inside

theorem exists_timer_of_mem {timer : Timer}
    (member : timer ∈ (assemble policy declarations).timers) :
    ∃ declaration ∈ declarations,
      declaration.statement = .timer timer.pin timer.function :=
  ⟨_, mem_declarations_of_timer member, rfl⟩

theorem exists_advise_of_lastAdvisory? {pin : Pin} {advisory : Advisory}
    (noted : lastAdvisory? pin declarations = some advisory) :
    ∃ declaration ∈ declarations, declaration.statement = .advise pin advisory := by
  obtain ⟨declaration, inside, found⟩ := List.exists_of_findSome?_eq_some noted
  refine ⟨declaration, List.mem_reverse.mp inside, ?_⟩
  split at found
  · rename_i place note said
    split at found <;> cases found
    rename_i same
    exact same ▸ said
  · cases found

theorem exists_advise_of_mem {timer : Timer} {advisory : Advisory}
    (member : timer ∈ (assemble policy declarations).timers)
    (noted : timer.advisory = some advisory) :
    ∃ declaration ∈ declarations, declaration.statement = .advise timer.pin advisory := by
  rw [timers_assemble] at member
  obtain ⟨bare, _, rfl⟩ := List.mem_map.mp member
  exact exists_advise_of_lastAdvisory? noted

private theorem mem_addSetting {settings : List Setting} {declaration : Declaration}
    {setting : Setting} (member : setting ∈ addSetting settings declaration) :
    setting ∈ settings ∨ declaration = ⟨setting.line, .setting setting.key setting.value⟩ := by
  unfold addSetting at member
  split at member
  · rename_i key value said
    dsimp only at member
    split at member
    · obtain ⟨earlier, inside, replaced⟩ := List.mem_map.mp member
      split at replaced
      · subst replaced
        exact .inr (Declaration.eq_of_statement said)
      · exact .inl (replaced ▸ inside)
    · rcases List.mem_append.mp member with earlier | new
      · exact .inl earlier
      · rw [List.mem_singleton.mp new]
        exact .inr (Declaration.eq_of_statement said)
  · exact .inl member

theorem mem_declarations_of_setting {setting : Setting}
    (member : setting ∈ (assemble policy declarations).settings) :
    ⟨setting.line, .setting setting.key setting.value⟩ ∈ declarations := by
  revert setting
  refine List.foldlRecOn (motive := fun settings => ∀ {setting : Setting},
    setting ∈ settings → ⟨setting.line, .setting setting.key setting.value⟩ ∈ declarations)
    declarations addSetting (fun member => absurd member List.not_mem_nil) ?_
  intro settings earlier declaration inside setting member
  rcases mem_addSetting member with kept | said
  · exact earlier kept
  · exact said ▸ inside

theorem exists_setting_of_mem {setting : Setting}
    (member : setting ∈ (assemble policy declarations).settings) :
    ∃ declaration ∈ declarations,
      declaration.statement = .setting setting.key setting.value :=
  ⟨_, mem_declarations_of_setting member, rfl⟩

theorem mem_declarations_of_hint {hint : Hint}
    (member : hint ∈ (assemble policy declarations).hints.declared) :
    ⟨hint.line, .hint hint.category hint.variant⟩ ∈ declarations := by
  obtain ⟨declaration, inside, found⟩ := List.mem_filterMap.mp member
  unfold Declaration.hint? at found
  split at found <;> cases found
  rename_i said
  exact Declaration.eq_of_statement said ▸ inside

theorem exists_hint_of_mem {hint : Hint}
    (member : hint ∈ (assemble policy declarations).hints.declared) :
    ∃ declaration ∈ declarations, declaration.statement = .hint hint.category hint.variant :=
  ⟨_, mem_declarations_of_hint member, rfl⟩

theorem mem_declarations_of_verbatim {kept : Verbatim}
    (member : kept ∈ (assemble policy declarations).verbatim) :
    ⟨kept.line, .verbatim kept.keyword kept.text⟩ ∈ declarations := by
  obtain ⟨declaration, inside, found⟩ := List.mem_filterMap.mp member
  unfold Declaration.verbatim? at found
  split at found <;> cases found
  rename_i said
  exact Declaration.eq_of_statement said ▸ inside

theorem exists_verbatim_of_mem {kept : Verbatim}
    (member : kept ∈ (assemble policy declarations).verbatim) :
    ∃ declaration ∈ declarations, declaration.statement = .verbatim kept.keyword kept.text :=
  ⟨_, mem_declarations_of_verbatim member, rfl⟩

private theorem addMetadata_cases (metadata : Metadata) (declaration : Declaration) :
    ((addMetadata metadata declaration).mcu = metadata.mcu ∨
      ∃ name, (addMetadata metadata declaration).mcu = some name ∧
        declaration.statement = .mcu name) ∧
    ((addMetadata metadata declaration).boardName = metadata.boardName ∨
      ∃ name, (addMetadata metadata declaration).boardName = some name ∧
        declaration.statement = .boardName name) ∧
    ((addMetadata metadata declaration).manufacturer = metadata.manufacturer ∨
      ∃ name, (addMetadata metadata declaration).manufacturer = some name ∧
        declaration.statement = .manufacturer name) := by
  unfold addMetadata
  split
  · rename_i name said
    exact ⟨.inr ⟨name, rfl, said⟩, .inl rfl, .inl rfl⟩
  · rename_i name said
    exact ⟨.inl rfl, .inr ⟨name, rfl, said⟩, .inl rfl⟩
  · rename_i name said
    exact ⟨.inl rfl, .inl rfl, .inr ⟨name, rfl, said⟩⟩
  · exact ⟨.inl rfl, .inl rfl, .inl rfl⟩

/-- A part of the metadata that only one kind of statement sets was set by one of them. -/
private theorem exists_named {part : Metadata → Option String} {spoken : String → Statement}
    (blank : part {} = none)
    (step : ∀ metadata declaration, part (addMetadata metadata declaration) = part metadata ∨
      ∃ name, part (addMetadata metadata declaration) = some name ∧
        declaration.statement = spoken name) {name : String}
    (named : part (assemble policy declarations).metadata = some name) :
    ∃ declaration ∈ declarations, declaration.statement = spoken name := by
  revert name
  refine List.foldlRecOn (motive := fun metadata => ∀ {name}, part metadata = some name →
    ∃ declaration ∈ declarations, declaration.statement = spoken name)
    declarations addMetadata (by simp [blank]) ?_
  intro metadata earlier declaration inside name named
  rcases step metadata declaration with same | ⟨other, given, said⟩
  · exact earlier (same ▸ named)
  · rw [named] at given
    exact ⟨declaration, inside, Option.some.inj given ▸ said⟩

theorem exists_mcu {name : String}
    (named : (assemble policy declarations).metadata.mcu = some name) :
    ∃ declaration ∈ declarations, declaration.statement = .mcu name :=
  exists_named rfl (fun metadata declaration => (addMetadata_cases metadata declaration).1) named

theorem exists_boardName {name : String}
    (named : (assemble policy declarations).metadata.boardName = some name) :
    ∃ declaration ∈ declarations, declaration.statement = .boardName name :=
  exists_named rfl (fun metadata declaration => (addMetadata_cases metadata declaration).2.1) named

theorem exists_manufacturer {name : String}
    (named : (assemble policy declarations).metadata.manufacturer = some name) :
    ∃ declaration ∈ declarations, declaration.statement = .manufacturer name :=
  exists_named rfl (fun metadata declaration => (addMetadata_cases metadata declaration).2.2) named

/-! ## Chosen hints -/

theorem mem_of_mem_put {α : Type} {name : String} {value : α} {entries : List (String × α)}
    {entry : String × α} (member : entry ∈ Named.put name value entries) :
    entry = (name, value) ∨ entry ∈ entries := by
  induction entries with
  | nil => exact .inl (List.mem_singleton.mp member)
  | cons first rest ih =>
      unfold Named.put at member
      split at member
      · exact List.mem_cons.mp member
      · split at member
        · exact (List.mem_cons.mp member).imp_right (List.mem_cons_of_mem first)
        · rcases List.mem_cons.mp member with rfl | behind
          · exact .inr List.mem_cons_self
          · exact (ih behind).imp_right (List.mem_cons_of_mem first)

/-- The chosen variant of a category is one that was declared for it. -/
theorem exists_hint_of_mem_selections {hints : Hints} {category variant : String}
    (member : (category, variant) ∈ hints.selections) :
    ∃ hint ∈ hints.declared, hint.category = category ∧ hint.variant = variant := by
  revert category variant
  refine List.foldlRecOn (motive := fun chosen => ∀ {category variant : String},
    (category, variant) ∈ chosen →
      ∃ hint ∈ hints.declared, hint.category = category ∧ hint.variant = variant)
    hints.declared (fun chosen hint => Named.put hint.category hint.variant chosen)
    (fun member => absurd member List.not_mem_nil) ?_
  intro chosen earlier hint inside category variant member
  rcases mem_of_mem_put member with same | kept
  · cases same
    exact ⟨hint, inside, rfl, rfl⟩
  · exact earlier kept

theorem exists_hint_of_selected? {hints : Hints} {category variant : String}
    (found : hints.selected? category = some variant) :
    ∃ hint ∈ hints.declared, hint.category = category ∧ hint.variant = variant := by
  obtain ⟨⟨name, value⟩, chosen, rfl⟩ := Option.map_eq_some_iff.mp found
  have same : name = category := by simpa using List.find?_some chosen
  subst same
  exact exists_hint_of_mem_selections (List.mem_of_find?_eq_some chosen)

/-! ## Lines -/

/-- A numbered resource whose keyword names it again. -/
structure IsResource (id : ResourceId) : Prop where
  numbered : id.index ≠ 0
  named : isIdentifier id.resource.keyword.toList = true
  canonical : Resource.ofKeyword id.resource.keyword = id.resource

/-- The advice of a note; nothing in it makes the note a head comment. -/
structure IsAdvice (advisory : Advisory) : Prop where
  marked : ['T', 'I', 'M'].isPrefixOf advisory.timer.toList = true
  solid : Solid advisory.timer.toList
  unmarked : ¬ headMark <:+: advisory.timer.toList

/-- A key in small letters, and a value without blanks around it. -/
structure IsSetting (key value : String) : Prop where
  named : isIdentifier key.toList = true
  small : key.toList.map Char.toLower = key.toList
  trimmed : Trimmed value.toList
  single : '\n' ∉ value.toList

/-- The full name of a microcontroller in a head comment. -/
structure IsMcuName (name : String) : Prop where
  plain : ∀ char ∈ name.toList, char.isAlphanum = true
  marked : ['S', 'T', 'M', '3', '2'].isPrefixOf name.toList = true
  long : 5 < name.toList.length

/-- A name without blanks. -/
structure IsToken (name : String) : Prop where
  filled : name.toList ≠ []
  solid : Solid name.toList

/-- What holds of a statement that stands on one line. -/
def Statement.FromLine : Statement → Prop
  | .assign id _ => IsResource id
  | .clear _ => True
  | .timer _ function => function ≤ 15
  | .advise _ advisory => IsAdvice advisory
  | .setting key value => IsSetting key value
  | .hint category variant => Solid category.toList ∧ Solid variant.toList
  | .mcu name => IsMcuName name
  | .boardName name | .manufacturer name => IsToken name
  | .verbatim _ text => '\n' ∉ text.toList

theorem isIdentifier_map {chars : List Char} {change : Char → Char}
    (starts : ∀ char, ((change char).isAlpha || change char == '_') = (char.isAlpha || char == '_'))
    (names : ∀ char, Text.isNameChar (change char) = Text.isNameChar char) :
    isIdentifier (chars.map change) = isIdentifier chars := by
  cases chars with
  | nil => rfl
  | cons first rest =>
      rw [List.map_cons, isIdentifier, isIdentifier, starts, List.all_map]
      congr 2
      exact funext names

theorem isIdentifier_toUpper (chars : List Char) :
    isIdentifier (chars.map Char.toUpper) = isIdentifier chars := by
  refine isIdentifier_map ?_ Text.isNameChar_toUpper
  intro char
  rcases Text.toUpper_cases char with same | ⟨letter, small, rfl⟩
  · rw [same]
  · revert letter
    decide

theorem isIdentifier_toLower (chars : List Char) :
    isIdentifier (chars.map Char.toLower) = isIdentifier chars := by
  refine isIdentifier_map ?_ Text.isNameChar_toLower
  intro char
  rcases Text.toLower_cases char with same | ⟨letter, capital, rfl⟩
  · rw [same]
  · revert letter
    decide

theorem isIdentifier_ofKeyword {keyword : String} (named : isIdentifier keyword.toList = true) :
    isIdentifier (Resource.ofKeyword keyword).keyword.toList = true := by
  have known {resource : Resource} (modeled : resource.isModeled = true) :
      isIdentifier resource.keyword.toList = true := by
    rcases resource with signal | family | role | other
    · cases signal <;> decide
    · cases family <;> decide
    · cases role <;> decide
    · cases modeled
  rcases Resource.ofKeyword_cases keyword with modeled | other
  · exact known modeled
  · rw [other, Resource.keyword, Text.toList_upper, isIdentifier_toUpper, named]

theorem isWord_of_isIdentifier {word : String} (named : isIdentifier word.toList = true) :
    IsWord word := by
  cases chars : word.toList with
  | nil =>
      rw [chars] at named
      cases named
  | cons first rest =>
      rw [chars, isIdentifier, Bool.and_eq_true, List.all_eq_true] at named
      constructor
      · simp [chars]
      · intro char member
        rw [chars] at member
        rcases List.mem_cons.mp member with rfl | inside
        · have starts := named.1
          simp only [Bool.or_eq_true, beq_iff_eq] at starts
          rcases starts with letter | underscore
          · simp [Text.isNameChar, Char.isAlphanum, letter]
          · simp [Text.isNameChar, underscore]
        · exact named.2 char inside

theorem fromLine_of_readTriple {type index place : List Char} {statement : Statement}
    (read : (readTriple type index place).statement = some statement) : statement.FromLine := by
  unfold readTriple at read
  split at read
  · cases read
  · rename_i named
    split at read
    · cases read
    · rename_i number _
      split at read
      · cases read
      · rename_i positive
        unfold readPlace at read
        split at read
        · cases read
          trivial
        · split at read <;> cases read
          refine ⟨positive, isIdentifier_ofKeyword ?_, Resource.ofKeyword_keyword_ofKeyword _⟩
          simpa using named

theorem fromLine_of_readResource {words : List (List Char)} {statement : Statement}
    (read : (readResource words).statement = some statement) : statement.FromLine := by
  unfold readResource at read
  split at read
  · exact fromLine_of_readTriple read
  · exact fromLine_of_readTriple read
  · cases read

theorem mem_of_splitDefine? {name : List Char} {category variant : String}
    (split : splitDefine? name = some (category, variant)) {char : Char}
    (member : char ∈ category.toList ∨ char ∈ variant.toList) :
    char ∈ name ∨ ∃ compound ∈ compoundCategories, char ∈ compound.toList := by
  unfold splitDefine? at split
  split at split
  · cases split
  · cases split
  · rename_i body _ started
    have whole : ∀ {char}, char ∈ body → char ∈ name := Text.mem_of_dropStart? started
    dsimp only at split
    split at split
    · rename_i compound
      obtain ⟨known, listed, named⟩ := List.exists_of_findSome?_eq_some compound
      obtain ⟨rest, after, same⟩ := Option.map_eq_some_iff.mp named
      cases split
      cases same
      rcases member with early | late
      · exact .inr ⟨_, listed, early⟩
      · refine .inl (whole ?_)
        rw [String.toList_ofList] at late
        unfold afterCompound? at after
        split at after <;> cases after
        · cases late
        · rename_i started
          exact Text.mem_of_dropStart? started
            (List.mem_cons_of_mem _ (Text.mem_of_mem_dropWhile late))
    · split at split <;> cases split
      · rename_i cut
        simp only [String.toList_ofList] at member
        exact .inl (whole (Text.mem_of_cut? cut member))
      · simp only [String.toList_ofList] at member
        rcases member with early | late
        · exact .inl (whole early)
        · cases late

theorem fromLine_of_readDefine {text rest : List Char} {statement : Statement}
    (single : '\n' ∉ text)
    (read : (readDefine text rest).statement = some statement) : statement.FromLine := by
  unfold readDefine at read
  split at read
  · cases read
  · rename_i name _ split
    have word : name ∈ Text.words rest := by simp [split]
    split at read <;> cases read
    · rename_i category variant found
      have compounds : ∀ compound ∈ compoundCategories, Solid compound.toList := by decide
      have solid {char : Char} (member : char ∈ category.toList ∨ char ∈ variant.toList) :
          Text.isBlank char = false := by
        rcases mem_of_splitDefine? found member with named | ⟨compound, listed, inside⟩
        · exact Text.solid_of_mem_words word char named
        · exact compounds compound listed char inside
      exact ⟨fun char member => solid (.inl member), fun char member => solid (.inr member)⟩
    · simpa [Statement.FromLine] using single

theorem isMcuName_of_mcuIn? {body : List Char} {name : String} (found : mcuIn? body = some name) :
    IsMcuName name := by
  obtain ⟨word, chosen, rfl⟩ := Option.map_eq_some_iff.mp found
  have kind := List.find?_some chosen
  rw [Bool.and_eq_true, decide_eq_true_eq] at kind
  constructor
  case plain =>
    intro char member
    rw [String.toList_ofList] at member
    have apart := (Text.mem_of_mem_splitOnP (List.mem_of_find?_eq_some chosen) member).2
    simpa using apart
  case marked => simpa using kind.1
  case long => simpa using kind.2

/-- The timer of an advice is a word of the note. -/
theorem mem_words_of_readAdvisory? {detail : List Char} {advisory : Advisory}
    (read : readAdvisory? detail = some advisory) :
    advisory.timer.toList ∈ Text.words detail ∧
      ['T', 'I', 'M'].isPrefixOf advisory.timer.toList = true := by
  unfold readAdvisory? at read
  split at read
  · rename_i timer channel others split
    split at read
    · rename_i marked
      obtain ⟨rest, _, read⟩ := Option.bind_eq_some_iff.mp read
      obtain ⟨number, _, read⟩ := Option.bind_eq_some_iff.mp read
      cases read
      rw [String.toList_ofList]
      exact ⟨by rw [split]; exact List.mem_cons_self, marked⟩
    · cases read
  · cases read

theorem isAdvice_of_readNote? {body : List Char} {pin : Pin} {advisory : Advisory}
    (unmarked : ¬ headMark <:+: body) (read : readNote? body = some (pin, advisory)) :
    IsAdvice advisory := by
  unfold readNote? at read
  obtain ⟨rest, started, read⟩ := Option.bind_eq_some_iff.mp read
  obtain ⟨⟨token, detail⟩, cut, read⟩ := Option.bind_eq_some_iff.mp read
  obtain ⟨place, _, read⟩ := Option.bind_eq_some_iff.mp read
  obtain ⟨advice, noted, read⟩ := Option.bind_eq_some_iff.mp read
  cases read
  obtain ⟨member, marked⟩ := mem_words_of_readAdvisory? noted
  refine ⟨marked, Text.solid_of_mem_words member, ?_⟩
  intro inside
  have tail : detail <:+ body := by
    rw [Text.dropStart?_eq_some_iff.mp started, ← Text.append_of_cut? cut, ← List.append_assoc]
    exact List.suffix_append _ _
  exact unmarked (inside.trans ((Text.infix_of_mem_words member).trans tail.isInfix))

theorem fromLine_of_readComment {text : List Char} {statement : Statement}
    (read : (readComment text).statement = some statement) : statement.FromLine := by
  unfold readComment at read
  dsimp only at read
  split at read
  · obtain ⟨name, found, rfl⟩ := Option.map_eq_some_iff.mp read
    exact isMcuName_of_mcuIn? found
  · rename_i whole
    obtain ⟨note, noted, rfl⟩ := Option.map_eq_some_iff.mp read
    refine isAdvice_of_readNote? ?_ noted
    exact Text.cut?_eq_none_iff.mp (by simpa using whole)

theorem le_of_functionNumber? {word : List Char} {number : UInt8}
    (read : functionNumber? word = some number) : number ≤ 15 := by
  unfold functionNumber? at read
  split at read
  · split at read
    · exact of_decide_eq_true (Option.filter_eq_some_iff.mp read).2
    · cases read
  · cases read

theorem fromLine_of_readTimer {words : List (List Char)} {statement : Statement}
    (read : (readTimer words).statement = some statement) : statement.FromLine := by
  unfold readTimer at read
  split at read
  · split at read
    · cases read
    · split at read
      · cases read
      · rename_i numbered
        split at read <;> cases read <;> exact le_of_functionNumber? numbered
  · cases read

theorem fromLine_of_readSetting {rest : List Char} {statement : Statement}
    (single : '\n' ∉ rest) (read : (readSetting rest).statement = some statement) :
    statement.FromLine := by
  unfold readSetting at read
  split at read
  · cases read
  · rename_i before after cut
    dsimp only at read
    split at read <;> cases read
    rename_i named
    constructor
    case named => rwa [String.toList_ofList, isIdentifier_toLower]
    case small =>
      rw [String.toList_ofList, List.map_map]
      exact List.map_congr_left fun char _ => Text.toLower_toLower char
    case trimmed =>
      rw [String.toList_ofList]
      exact Text.trimmed_trim after
    case single =>
      rw [String.toList_ofList]
      intro feed
      exact single (Text.mem_of_cut? cut (.inr (Text.mem_of_mem_trim feed)))

theorem fromLine_of_readStatement {text : List Char} {statement : Statement}
    (single : '\n' ∉ text) (read : (readStatement text).statement = some statement) :
    statement.FromLine := by
  have token {word : List Char} {others : List (List Char)}
      (split : Text.words (Text.trim (text.dropWhile fun char => !Text.isBlank char)) =
        word :: others) : IsToken (String.ofList word) := by
    have member : word ∈ word :: others := List.mem_cons_self
    rw [← split] at member
    constructor
    · rw [String.toList_ofList]
      exact Text.ne_nil_of_mem_words member
    · rw [String.toList_ofList]
      exact Text.solid_of_mem_words member
  unfold readStatement at read
  dsimp only at read
  split at read
  · exact fromLine_of_readResource read
  · exact fromLine_of_readTimer read
  · refine fromLine_of_readSetting ?_ read
    intro feed
    exact single (Text.mem_of_mem_dropWhile (Text.mem_of_mem_trim feed))
  · split at read <;> cases read
    rename_i split
    exact token split
  · split at read <;> cases read
    rename_i split
    exact token split
  · split at read <;> cases read
    simpa [Statement.FromLine] using single

theorem fromLine_of_readLine {line : List Char} {statement : Statement} (single : '\n' ∉ line)
    (read : (readLine line).statement = some statement) : statement.FromLine := by
  have single_text : '\n' ∉ lineText line :=
    fun member => single ((isInfix_lineText line).subset member)
  unfold readLine at read
  split at read
  · cases read
  · rename_i rest text
    rw [text] at single_text
    split at read
    · exact fromLine_of_readDefine single_text read
    · exact fromLine_of_readComment read
  · exact fromLine_of_readStatement single_text read

theorem fromLine_of_mem_declarations {text : String} {declaration : Declaration}
    {statement : Statement} (member : declaration ∈ Board.declarations text)
    (said : declaration.statement = statement) : statement.FromLine := by
  obtain ⟨⟨number, line⟩, numbered, given⟩ := List.mem_filterMap.mp member
  obtain ⟨other, read, rfl⟩ := Option.map_eq_some_iff.mp given
  obtain ⟨⟨content, place⟩, inside, same⟩ := List.mem_map.mp numbered
  cases same
  cases said
  exact fromLine_of_readLine (Text.not_mem_of_mem_lines (List.fst_mem_of_mem_zipIdx inside)) read

/-! ## Definitions -/

/-- What holds of the parts of a definition that was read from a text. -/
structure Definition.FromText (board : Definition) : Prop where
  numbered : ∀ assignment ∈ board.resources, assignment.id.index ≠ 0
  keywords : ∀ assignment ∈ board.resources, IsWord assignment.id.resource.keyword
  hints : ∀ hint ∈ board.hints.declared, Solid hint.category.toList ∧ Solid hint.variant.toList
  boardName : ∀ name, board.metadata.boardName = some name → Solid name.toList
  manufacturer : ∀ name, board.metadata.manufacturer = some name → Solid name.toList
  verbatim : ∀ kept ∈ board.verbatim, '\n' ∉ kept.text.toList

theorem fromText_parse (policy : Policy) (text : String) :
    (parse policy text).board.FromText := by
  constructor
  case numbered =>
    intro assignment member
    obtain ⟨declaration, inside, said⟩ := exists_assign_of_mem member
    exact (fromLine_of_mem_declarations inside said).numbered
  case keywords =>
    intro assignment member
    obtain ⟨declaration, inside, said⟩ := exists_assign_of_mem member
    exact isWord_of_isIdentifier (fromLine_of_mem_declarations inside said).named
  case hints =>
    intro hint member
    obtain ⟨declaration, inside, said⟩ := exists_hint_of_mem member
    exact fromLine_of_mem_declarations inside said
  case boardName =>
    intro name named
    obtain ⟨declaration, inside, said⟩ := exists_boardName named
    exact (fromLine_of_mem_declarations inside said).solid
  case manufacturer =>
    intro name named
    obtain ⟨declaration, inside, said⟩ := exists_manufacturer named
    exact (fromLine_of_mem_declarations inside said).solid
  case verbatim =>
    intro kept member
    obtain ⟨declaration, inside, said⟩ := exists_verbatim_of_mem member
    exact fromLine_of_mem_declarations inside said

end Pinout.Board
