import Mathlib.Data.List.TakeWhile
import Pinout.Board.Writing
import Pinout.Proofs.Board.Origin

/-! Lines of the normal form, one by one. A line that is written for a part of a definition is
read as the statement of that part and gives no issue, provided that the part could come from
a line in the first place. -/

set_option autoImplicit false

namespace Pinout.Board

open Text (Solid Single Trimmed digitsOf trim words)

/-- The line spells the statement and nothing else. -/
structure Spells (line : String) (statement : Statement) : Prop where
  single : Single line.toList
  clean : readLine line.toList = .clean statement

/-! ## Keywords -/

section Keywords

variable {word rest line : List Char} {first : Char}

theorem readLine_of_trimmed (trimmed : Trimmed line) (opens : line.head? = some first)
    (bare : first ≠ '\uFEFF') (spoken : first ≠ '#') : readLine line = readStatement line := by
  have text := lineText_of_trimmed trimmed (by simpa [opens] using bare)
  rw [readLine_of_spoken, text]
  · rw [text]
    rintro rfl
    cases opens
  · rw [text, opens]
    simpa using spoken

theorem takeWhile_append_space (solid : Solid word) :
    (word ++ ' ' :: rest).takeWhile (fun char => !Text.isBlank char) = word := by
  rw [List.takeWhile_append_of_pos (by simpa [Solid] using solid),
    List.takeWhile_cons_of_neg (by decide), List.append_nil]

theorem trim_dropWhile_append_space (solid : Solid word) (trimmed : Trimmed rest) :
    trim ((word ++ ' ' :: rest).dropWhile fun char => !Text.isBlank char) = rest := by
  rw [List.dropWhile_append_of_pos (by simpa [Solid] using solid),
    List.dropWhile_cons_of_neg (by decide), Text.trim_cons_blank (by decide),
    Text.trim_eq_self trimmed]

variable (trimmed : Trimmed rest) (filled : rest ≠ [])

include trimmed filled

theorem readLine_append_space (solid : Solid word) (opens : word.head? = some first)
    (bare : first ≠ '\uFEFF') (spoken : first ≠ '#') :
    readLine (word ++ ' ' :: rest) = readStatement (word ++ ' ' :: rest) := by
  have named : word ≠ [] := by
    rintro rfl
    cases opens
  refine readLine_of_trimmed (trimmed.cons_between solid named filled ' ') ?_ bare spoken
  rw [List.head?_append, opens, Option.some_or]

theorem readLine_resource :
    readLine ("resource".toList ++ ' ' :: rest) = readResource (words rest) := by
  have solid : Solid "resource".toList := by decide
  rw [readLine_append_space trimmed filled solid rfl (by decide) (by decide), readStatement,
    takeWhile_append_space solid, trim_dropWhile_append_space solid trimmed]
  rfl

theorem readLine_timer : readLine ("timer".toList ++ ' ' :: rest) = readTimer (words rest) := by
  have solid : Solid "timer".toList := by decide
  rw [readLine_append_space trimmed filled solid rfl (by decide) (by decide), readStatement,
    takeWhile_append_space solid, trim_dropWhile_append_space solid trimmed]
  rfl

theorem readLine_set : readLine ("set".toList ++ ' ' :: rest) = readSetting rest := by
  have solid : Solid "set".toList := by decide
  rw [readLine_append_space trimmed filled solid rfl (by decide) (by decide), readStatement,
    takeWhile_append_space solid, trim_dropWhile_append_space solid trimmed]
  rfl

theorem readLine_boardName :
    readLine ("board_name".toList ++ ' ' :: rest) =
      match words rest with
      | name :: _ => .clean (.boardName (String.ofList name))
      | [] => .refused .noBoardName := by
  have solid : Solid "board_name".toList := by decide
  rw [readLine_append_space trimmed filled solid rfl (by decide) (by decide), readStatement,
    takeWhile_append_space solid, trim_dropWhile_append_space solid trimmed]
  rfl

theorem readLine_manufacturer :
    readLine ("manufacturer_id".toList ++ ' ' :: rest) =
      match words rest with
      | name :: _ => .clean (.manufacturer (String.ofList name))
      | [] => .refused .noManufacturer := by
  have solid : Solid "manufacturer_id".toList := by decide
  rw [readLine_append_space trimmed filled solid rfl (by decide) (by decide), readStatement,
    takeWhile_append_space solid, trim_dropWhile_append_space solid trimmed]
  rfl

theorem readLine_comment :
    readLine ('#' :: ' ' :: rest) =
      if (Text.cut? headMark rest).isSome then ⟨(mcuIn? rest).map .mcu, []⟩
      else ⟨(readNote? rest).map fun (pin, advisory) => .advise pin advisory, []⟩ := by
  have solid : Solid ['#'] := by decide
  have text : lineText ('#' :: ' ' :: rest) = '#' :: ' ' :: rest :=
    lineText_of_trimmed (trimmed.cons_between solid (by decide) filled ' ') (by simp)
  have comment : afterDefine? ('#' :: ' ' :: rest) = none := rfl
  rw [readLine_of_comment text comment, readComment, List.dropWhile_cons_of_pos (by decide),
    List.dropWhile_cons_of_neg (by decide), Text.trim_cons_blank (by decide),
    Text.trim_eq_self trimmed]

end Keywords

/-! ## Statements -/

theorem pinToken?_boardToken (pin : Pin) : pinToken? pin.boardToken.toList = some pin := by
  obtain ⟨port, number⟩ := pin
  revert port number
  decide

theorem boardToken_ne_none (pin : Pin) :
    pin.boardToken.toList.map Char.toUpper ≠ ['N', 'O', 'N', 'E'] := by
  intro same
  have length := congrArg List.length same
  simp [Pin.boardToken, Text.twoDigits] at length

theorem spells_assignment {assignment : Assignment} (known : IsResource assignment.id) :
    Spells assignment.write (.assign assignment.id assignment.pin) := by
  obtain ⟨⟨resource, index⟩, pin, line⟩ := assignment
  have spelled : (Assignment.write ⟨⟨resource, index⟩, pin, line⟩).toList =
      "resource".toList ++ ' ' :: (resource.keyword.toList ++ ' ' ::
        (digitsOf index.toNat ++ ' ' :: pin.boardToken.toList)) := by
    simp [Assignment.write, toString, ResourceId.name, Text.decimal]
  have keyword := isWord_of_isIdentifier known.named
  have token := pin.isWord_boardToken
  have number := Text.solid_digitsOf index.toNat
  have tail := token.solid.trimmed.cons_between number (Text.digitsOf_ne_nil _) token.filled ' '
  have rest := tail.cons_between keyword.solid keyword.filled (by simp) ' '
  constructor
  case single =>
    rw [spelled]
    refine (rest.cons_between (by decide) (by decide) (by simp) ' ').single ?_
    have first := keyword.solid.feedless
    have second := number.feedless
    have third := token.solid.feedless
    simp [first, second, third]
  case clean =>
    rw [spelled, readLine_resource rest (by simp),
      Text.words_append_blank keyword.solid keyword.filled (by decide),
      Text.words_append_blank number (Text.digitsOf_ne_nil _) (by decide),
      Text.words_of_solid token.solid token.filled, readResource, readTriple, known.named,
      Text.byte?_digitsOf]
    simp only [Bool.not_true, Bool.false_eq_true, if_false, known.numbered, readPlace,
      boardToken_ne_none, pinToken?_boardToken, String.ofList_toList]
    rw [known.canonical]

theorem spells_timer {pin : Pin} {function : UInt8} (bounded : function ≤ 15) :
    Spells s!"timer {pin} AF{function}" (.timer pin function) := by
  have spelled : (s!"timer {pin} AF{function}").toList =
      "timer".toList ++ ' ' :: (pin.boardToken.toList ++ ' ' ::
        ('A' :: 'F' :: digitsOf function.toNat)) := by
    have digits := Text.toList_toString_byte function
    simp only [toString] at digits
    simp [toString, digits]
  have token := pin.isWord_boardToken
  have mark : Solid ['A', 'F'] := by decide
  have number : Solid ('A' :: 'F' :: digitsOf function.toNat) := mark.append (Text.solid_digitsOf _)
  have rest := number.trimmed.cons_between token.solid token.filled (by simp) ' '
  constructor
  case single =>
    rw [spelled]
    refine (rest.cons_between (by decide) (by decide) (by simp) ' ').single ?_
    have first := token.solid.feedless
    have second := number.feedless
    simp only [List.mem_append, List.mem_cons, not_or] at second ⊢
    exact ⟨by decide, by decide, first, by decide, second⟩
  case clean =>
    have read : functionNumber? ('A' :: 'F' :: digitsOf function.toNat) = some function := by
      rw [functionNumber?, if_pos (by decide), Text.byte?_digitsOf]
      simp [bounded]
    rw [spelled, readLine_timer rest (by simp),
      Text.words_append_blank token.solid token.filled (by decide),
      Text.words_of_solid number (by simp), readTimer, pinToken?_boardToken]
    dsimp only
    rw [read]

theorem key_ne_equals {key : String} (named : isIdentifier key.toList = true) :
    '=' ∉ key.toList :=
  fun member => absurd ((isWord_of_isIdentifier named).names '=' member) (by decide)

theorem readSetting_append {key value : String} {after : List Char} (known : IsSetting key value)
    (same : trim after = value.toList) :
    readSetting (key.toList ++ ' ' :: '=' :: after) = .clean (.setting key value) := by
  have before : key.toList ++ ' ' :: '=' :: after = (key.toList ++ [' ']) ++ '=' :: after := by
    simp
  have cut : Text.cut? ['='] (key.toList ++ ' ' :: '=' :: after) =
      some (key.toList ++ [' '], after) := by
    rw [before, Text.cut?_append]
    simp [key_ne_equals known.named]
  have keyword : trim (key.toList ++ [' ']) = key.toList := by
    rw [Text.trim_concat_blank (by decide),
      Text.trim_eq_self (isWord_of_isIdentifier known.named).solid.trimmed]
  rw [readSetting, cut]
  dsimp only
  rw [keyword, if_pos known.named, known.small, same, String.ofList_toList, String.ofList_toList]

theorem spells_setting {setting : Setting} (known : IsSetting setting.key setting.value) :
    Spells setting.write (.setting setting.key setting.value) := by
  obtain ⟨key, value, line⟩ := setting
  have spelled : (Setting.write ⟨key, value, line⟩).toList =
      "set".toList ++ ' ' :: (key.toList ++ ' ' :: '=' :: ' ' :: value.toList) := by
    simp [Setting.write, toString]
  have keyword := isWord_of_isIdentifier known.named
  have equals : Solid ['='] := by decide
  have feedless : '\n' ∉ (Setting.write ⟨key, value, line⟩).toList := by
    have first := keyword.solid.feedless
    rw [spelled]
    simp [first, known.single]
  by_cases empty : value.toList = []
  · -- The blank after the equals sign ends the line, where it makes no difference.
    have rest := equals.trimmed.cons_between keyword.solid keyword.filled (by simp) ' '
    have closed : (Setting.write ⟨key, value, line⟩).toList =
        ("set".toList ++ ' ' :: (key.toList ++ ' ' :: ['='])) ++ [' '] := by
      rw [spelled, empty]
      simp
    constructor
    case single =>
      refine ⟨feedless, ?_⟩
      rw [closed, List.getLast?_concat]
      decide
    case clean =>
      rw [closed, readLine_concat_blank (by decide), readLine_set rest (by simp),
        readSetting_append known (by rw [empty]; rfl)]
  · have tail := known.trimmed.cons_between equals (by simp) empty ' '
    have rest := tail.cons_between keyword.solid keyword.filled (by simp) ' '
    have after : trim (' ' :: value.toList) = value.toList := by
      rw [Text.trim_cons_blank (by decide), Text.trim_eq_self known.trimmed]
    constructor
    case single =>
      refine Trimmed.single ?_ feedless
      rw [spelled]
      exact rest.cons_between (by decide) (by decide) (by simp) ' '
    case clean =>
      rw [spelled, ← readSetting_append known after]
      exact readLine_set rest (by simp)

theorem spells_boardName {name : String} (token : IsToken name) :
    Spells s!"board_name {name}" (.boardName name) := by
  have spelled : (s!"board_name {name}").toList = "board_name".toList ++ ' ' :: name.toList := by
    simp [toString]
  have trimmed := token.solid.trimmed
  constructor
  case single =>
    rw [spelled]
    refine (trimmed.cons_between (by decide) (by decide) token.filled ' ').single ?_
    simp [token.solid.feedless]
  case clean =>
    rw [spelled, readLine_boardName trimmed token.filled,
      Text.words_of_solid token.solid token.filled]
    dsimp only
    rw [String.ofList_toList]

theorem spells_manufacturer {name : String} (token : IsToken name) :
    Spells s!"manufacturer_id {name}" (.manufacturer name) := by
  have spelled : (s!"manufacturer_id {name}").toList =
      "manufacturer_id".toList ++ ' ' :: name.toList := by
    simp [toString]
  have trimmed := token.solid.trimmed
  constructor
  case single =>
    rw [spelled]
    refine (trimmed.cons_between (by decide) (by decide) token.filled ' ').single ?_
    simp [token.solid.feedless]
  case clean =>
    rw [spelled, readLine_manufacturer trimmed token.filled,
      Text.words_of_solid token.solid token.filled]
    dsimp only
    rw [String.ofList_toList]

/-! ## Comments -/

theorem IsMcuName.token {name : String} (known : IsMcuName name) : IsToken name where
  filled := List.ne_nil_of_length_pos (Nat.lt_trans (by decide) known.long)
  solid := by
    intro char member
    exact Text.isBlank_of_isNameChar (by simp [Text.isNameChar, known.plain char member])

theorem mcuIn?_headed {name : String} (known : IsMcuName name) :
    mcuIn? (headMark ++ ' ' :: '/' :: ' ' :: name.toList) = some name := by
  have pieces : (headMark ++ ' ' :: '/' :: ' ' :: name.toList).splitOnP
      (fun char => !char.isAlphanum) = [headMark, [], [], name.toList] := by
    rw [List.splitOnP_append_cons_of_forall_mem (by simp [headMark]) ' ' (by decide),
      List.splitOnP_cons_eq_if_modifyHead, if_pos (by decide),
      List.splitOnP_cons_eq_if_modifyHead, if_pos (by decide), List.splitOnP_eq_singleton]
    intro char member
    simp [known.plain char member]
  have long := known.long
  rw [mcuIn?, pieces, List.find?_cons_of_neg (by decide), List.find?_cons_of_neg (by decide),
    List.find?_cons_of_neg (by decide), List.find?_cons_of_pos (by simp [known.marked, long]),
    Option.map_some, String.ofList_toList]

theorem spells_mcu {name : String} (known : IsMcuName name) :
    Spells s!"# Betaflight / {name}" (.mcu name) := by
  have token := known.token
  have spelled : (s!"# Betaflight / {name}").toList =
      '#' :: ' ' :: (headMark ++ ' ' :: '/' :: ' ' :: name.toList) := by
    simp [toString, headMark]
  have sharp : Solid ['#'] := by decide
  have slash : Solid ['/'] := by decide
  have tail := token.solid.trimmed.cons_between slash (by decide) token.filled ' '
  have body : Trimmed (headMark ++ ' ' :: '/' :: ' ' :: name.toList) :=
    tail.cons_between (by decide) (by decide) (by simp) ' '
  have marked : (Text.cut? headMark (headMark ++ ' ' :: '/' :: ' ' :: name.toList)).isSome =
      true := rfl
  constructor
  case single =>
    rw [spelled]
    refine (body.cons_between sharp (by decide) (by simp) ' ').single ?_
    simp [headMark, token.solid.feedless]
  case clean =>
    rw [spelled, readLine_comment body (by simp), if_pos marked, mcuIn?_headed known]
    rfl

def channelWord (channel : UInt8) : List Char :=
  'C' :: 'H' :: digitsOf channel.toNat

/-- A note without the mark of a comment. -/
def noteBody (pin : Pin) (advisory : Advisory) : List Char :=
  "pin".toList ++ ' ' :: ((pin.boardToken.toList ++ [':']) ++ ' ' :: (advisory.timer.toList ++
    ' ' :: channelWord advisory.channel))

theorem solid_channelWord (channel : UInt8) : Solid (channelWord channel) :=
  have mark : Solid ['C', 'H'] := by decide
  mark.append (Text.solid_digitsOf _)

theorem IsAdvice.filled {advisory : Advisory} (known : IsAdvice advisory) :
    advisory.timer.toList ≠ [] := by
  intro empty
  have marked := known.marked
  rw [empty] at marked
  cases marked

section Notes

variable {advisory : Advisory} (known : IsAdvice advisory) (pin : Pin)

include known

/-- No word of a note holds the mark of a head comment, so the note does not hold it. -/
theorem not_headMark_infix_noteBody : ¬ headMark <:+: noteBody pin advisory := by
  have apart {word : List Char} (free : 'f' ∉ word) : ¬ headMark <:+: word :=
    fun inside => free (inside.subset (by decide))
  have token : ∀ port number, 'f' ∉ (Pin.mk port number).boardToken.toList ++ [':'] := by decide
  intro found
  rcases Text.infix_of_infix_append_cons (by decide) found with first | found
  · exact apart (by decide) first
  rcases Text.infix_of_infix_append_cons (by decide) found with second | found
  · exact apart (token pin.port pin.number) second
  rcases Text.infix_of_infix_append_cons (by decide) found with third | fourth
  · exact known.unmarked third
  · refine apart ?_ fourth
    simp only [channelWord, List.mem_cons, not_or]
    exact ⟨by decide, by decide, fun digit =>
      absurd (Text.isDigit_of_mem_digitsOf digit) (by decide)⟩

theorem readAdvisory?_words :
    readAdvisory? (' ' :: (advisory.timer.toList ++ ' ' :: channelWord advisory.channel)) =
      some advisory := by
  have split : words (' ' :: (advisory.timer.toList ++ ' ' :: channelWord advisory.channel)) =
      [advisory.timer.toList, channelWord advisory.channel] := by
    rw [Text.words_cons_blank (by decide),
      Text.words_append_blank known.solid known.filled (by decide),
      Text.words_of_solid (solid_channelWord _) (by simp [channelWord])]
  have mark : Text.dropStart? ['C', 'H'] (channelWord advisory.channel) =
      some (digitsOf advisory.channel.toNat) :=
    Text.dropStart?_eq_some_iff.mpr rfl
  have digits : (digitsOf advisory.channel.toNat).takeWhile Char.isDigit =
      digitsOf advisory.channel.toNat :=
    List.takeWhile_eq_self_iff.mpr fun _ member => Text.isDigit_of_mem_digitsOf member
  rw [readAdvisory?, split]
  dsimp only
  rw [if_pos known.marked, mark, Option.bind_eq_bind, Option.bind_some, digits,
    Text.byte?_digitsOf, Option.bind_eq_bind, Option.bind_some, String.ofList_toList]
  rfl

theorem readNote?_noteBody : readNote? (noteBody pin advisory) = some (pin, advisory) := by
  have token := pin.isWord_boardToken
  have started : Text.dropStart? ['p', 'i', 'n', ' '] (noteBody pin advisory) =
      some (pin.boardToken.toList ++ ':' :: ' ' :: (advisory.timer.toList ++
        ' ' :: channelWord advisory.channel)) := by
    rw [Text.dropStart?_eq_some_iff, noteBody]
    simp
  have unmarked : ':' ∉ pin.boardToken.toList :=
    fun member => absurd (token.names ':' member) (by decide)
  rw [readNote?, started, Option.bind_eq_bind, Option.bind_some, Text.cut?_append unmarked,
    Option.bind_eq_bind, Option.bind_some]
  dsimp only
  rw [Text.trim_eq_self token.solid.trimmed, pinToken?_boardToken, readAdvisory?_words known]
  rfl

theorem trimmed_noteBody : Trimmed (noteBody pin advisory) := by
  have token : Solid (pin.boardToken.toList ++ [':']) :=
    pin.isWord_boardToken.solid.append (by decide)
  have tail := (solid_channelWord advisory.channel).trimmed.cons_between known.solid known.filled
    (by simp [channelWord]) ' '
  have rest := tail.cons_between token (by simp) (by simp) ' '
  exact rest.cons_between (by decide) (by decide) (by simp) ' '

theorem feedless_noteBody : '\n' ∉ noteBody pin advisory := by
  have first := pin.isWord_boardToken.solid.feedless
  have second := known.solid.feedless
  have third := (solid_channelWord advisory.channel).feedless
  simp [noteBody, first, second, third]

theorem spells_advisory : Spells (advisory.write pin) (.advise pin advisory) := by
  have spelled : (advisory.write pin).toList = '#' :: ' ' :: noteBody pin advisory := by
    have digits := Text.toList_toString_byte advisory.channel
    simp only [toString] at digits
    simp [Advisory.write, toString, noteBody, channelWord, digits]
  have sharp : Solid ['#'] := by decide
  have body := trimmed_noteBody known pin
  have filled : noteBody pin advisory ≠ [] := by simp [noteBody]
  constructor
  case single =>
    rw [spelled]
    refine (body.cons_between sharp (by decide) filled ' ').single ?_
    simp [feedless_noteBody known pin]
  case clean =>
    have plain : Text.cut? headMark (noteBody pin advisory) = none :=
      Text.cut?_eq_none_iff.mpr (not_headMark_infix_noteBody known pin)
    rw [spelled, readLine_comment body filled, plain, readNote?_noteBody known pin]
    rfl

end Notes

end Pinout.Board
