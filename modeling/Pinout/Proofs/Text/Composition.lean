import Mathlib.Data.List.Infix
import Pinout.Proofs.Text.Part
import Pinout.Proofs.Text.Word

/-! Texts that are put together and taken apart again. Trimming, cutting, splitting into words
or lines and reading numerals give back the parts, when these have no blanks or marks where
the text is taken apart. -/

set_option autoImplicit false

namespace Pinout.Text

variable {chars word front back rest : List Char} {char blank mark : Char}

/-! ## Trimming -/

/-- A text that holds no blank. -/
def Solid (chars : List Char) : Prop :=
  ∀ char ∈ chars, isBlank char = false

instance (chars : List Char) : Decidable (Solid chars) :=
  List.decidableBAll _ _

/-- A text with no blank at either end. -/
structure Trimmed (chars : List Char) : Prop where
  opens : ∀ char, chars.head? = some char → isBlank char = false
  ends : ∀ char, chars.getLast? = some char → isBlank char = false

theorem Solid.trimmed (solid : Solid chars) : Trimmed chars where
  opens := fun char found => solid char (List.mem_of_head? found)
  ends := fun char found => solid char (List.mem_of_getLast? found)

theorem Solid.append (first : Solid front) (second : Solid back) : Solid (front ++ back) := by
  intro char member
  exact (List.mem_append.mp member).elim (first char) (second char)

/-- The codes of the blanks. -/
def blankCodes : List Nat :=
  [9, 10, 11, 12, 13, 32, 0x85, 0xA0, 0x1680, 0x2000, 0x2001, 0x2002, 0x2003, 0x2004, 0x2005,
    0x2006, 0x2007, 0x2008, 0x2009, 0x200A, 0x2028, 0x2029, 0x202F, 0x205F, 0x3000]

theorem toNat_mem_blankCodes (white : isBlank char = true) : char.toNat ∈ blankCodes := by
  simp only [isBlank, Bool.or_eq_true, Bool.and_eq_true, decide_eq_true_eq, beq_iff_eq] at white
  simp only [blankCodes, List.mem_cons, List.not_mem_nil, or_false]
  omega

theorem isBlank_of_isNameChar (named : isNameChar char = true) : isBlank char = false := by
  have unnamed : blankCodes.all (fun code => !isNameChar (Char.ofNat code)) = true := by decide
  rw [← Bool.not_eq_true]
  intro white
  have found := List.all_eq_true.mp unnamed _ (toNat_mem_blankCodes white)
  rw [Char.ofNat_toNat, named] at found
  cases found

theorem IsWord.solid {text : String} (word : IsWord text) : Solid text.toList :=
  fun char member => isBlank_of_isNameChar (word.names char member)

/-- What stands between two ends does not matter to them. -/
theorem Trimmed.around (first : Trimmed front) (second : Trimmed back) (middle : List Char)
    (opened : front ≠ []) (ended : back ≠ []) : Trimmed (front ++ middle ++ back) where
  opens := by
    intro char found
    rw [List.append_assoc, List.head?_append_of_ne_nil _ opened] at found
    exact first.opens char found
  ends := by
    intro char found
    rw [List.getLast?_append_of_ne_nil _ ended] at found
    exact second.ends char found

/-- A word and what follows it after one character. -/
theorem Trimmed.cons_between (second : Trimmed back) (solid : Solid word) (filled : word ≠ [])
    (ended : back ≠ []) (between : Char) : Trimmed (word ++ between :: back) := by
  have around := solid.trimmed.around second [between] filled ended
  rwa [List.append_assoc, List.singleton_append] at around

theorem trimEnd_concat_blank (white : isBlank blank = true) :
    trimEnd (chars ++ [blank]) = trimEnd chars := by
  rw [trimEnd, List.reverse_concat, List.dropWhile_cons_of_pos white, trimEnd]

theorem trim_cons_blank (white : isBlank blank = true) : trim (blank :: chars) = trim chars := by
  rw [trim, trimStart, List.dropWhile_cons_of_pos white, trim, trimStart]

theorem trim_concat_blank (white : isBlank blank = true) :
    trim (chars ++ [blank]) = trim chars := by
  unfold trim trimStart
  rw [List.dropWhile_append]
  split
  · rename_i empty
    rw [List.isEmpty_iff] at empty
    rw [empty, List.dropWhile_cons_of_pos white, List.dropWhile_nil]
  · exact trimEnd_concat_blank white

theorem trim_blanks_append (before : ∀ char ∈ front, isBlank char = true) :
    trim (front ++ chars) = trim chars := by
  rw [trim, trimStart, List.dropWhile_append_of_pos before, trim, trimStart]

theorem trim_append_blanks (behind : ∀ char ∈ back, isBlank char = true) :
    trim (chars ++ back) = trim chars := by
  induction back using List.reverseRecOn with
  | nil => rw [List.append_nil]
  | append_singleton back last ih =>
      rw [← List.append_assoc, trim_concat_blank (behind last (by simp))]
      exact ih fun char member => behind char (List.mem_append_left _ member)

theorem dropWhile_eq_self {skips : Char → Bool}
    (keeps : ∀ char, chars.head? = some char → skips char = false) :
    chars.dropWhile skips = chars := by
  cases chars with
  | nil => rfl
  | cons first rest => rw [List.dropWhile_cons_of_neg (by simp [keeps first rfl])]

theorem trim_eq_self (trimmed : Trimmed chars) : trim chars = chars := by
  unfold trim trimStart trimEnd
  rw [dropWhile_eq_self trimmed.opens, dropWhile_eq_self, List.reverse_reverse]
  intro char found
  rw [List.head?_reverse] at found
  exact trimmed.ends char found

theorem not_of_head?_dropWhile {skips : Char → Bool}
    (found : (chars.dropWhile skips).head? = some char) : skips char = false := by
  have stops := List.head?_dropWhile_not skips chars
  rw [found] at stops
  simpa using stops

theorem trimEnd_isPrefix (chars : List Char) : trimEnd chars <+: chars := by
  rw [← List.reverse_suffix, trimEnd, List.reverse_reverse]
  exact List.dropWhile_suffix isBlank

theorem isInfix_trim (chars : List Char) : trim chars <:+: chars :=
  (trimEnd_isPrefix _).isInfix.trans (List.dropWhile_suffix isBlank).isInfix

theorem trimmed_trim (chars : List Char) : Trimmed (trim chars) where
  opens := by
    intro char found
    obtain ⟨tail, same⟩ := trimEnd_isPrefix (trimStart chars)
    have opens : (trimStart chars).head? = some char := by
      rw [← same, List.head?_append, ← trim, found, Option.some_or]
    exact not_of_head?_dropWhile opens
  ends := by
    intro char found
    rw [trim, trimEnd, List.getLast?_reverse] at found
    exact not_of_head?_dropWhile found

/-! ## Words -/

theorem words_append (front : List Char) (white : isBlank blank = true) :
    words (front ++ blank :: rest) = words front ++ words rest := by
  rw [words, List.splitOnP_append_cons front rest white, List.filter_append, words, words]

theorem words_append_blank (solid : Solid word) (filled : word ≠ [])
    (white : isBlank blank = true) : words (word ++ blank :: rest) = word :: words rest := by
  rw [words, List.splitOnP_append_cons_of_forall_mem solid blank white, List.filter_cons_of_pos,
    words]
  simpa using filled

theorem words_of_solid (solid : Solid word) (filled : word ≠ []) : words word = [word] := by
  rw [words, List.splitOnP_eq_singleton solid]
  simpa using filled

theorem words_cons_blank (white : isBlank blank = true) : words (blank :: rest) = words rest := by
  rw [words, List.splitOnP_cons_eq_if_modifyHead, if_pos white, List.filter_cons_of_neg (by simp),
    words]

theorem solid_of_mem_words (member : word ∈ words chars) : Solid word :=
  fun _ inside => (mem_of_mem_splitOnP (List.mem_filter.mp member).1 inside).2

theorem words_trimStart (chars : List Char) : words (trimStart chars) = words chars := by
  induction chars with
  | nil => rfl
  | cons first rest ih =>
      cases white : isBlank first with
      | true =>
          rw [words_cons_blank white, ← ih, trimStart, List.dropWhile_cons_of_pos white, trimStart]
      | false => rw [trimStart, List.dropWhile_cons_of_neg (by simp [white])]

theorem words_trimEnd (chars : List Char) : words (trimEnd chars) = words chars := by
  induction chars using List.reverseRecOn with
  | nil => rfl
  | append_singleton front last ih =>
      cases white : isBlank last with
      | true =>
          rw [trimEnd_concat_blank white, ih, words_append front white]
          simp [words]
      | false =>
          rw [trimEnd, List.reverse_concat, List.dropWhile_cons_of_neg (by simp [white]),
            ← List.reverse_concat, List.reverse_reverse]

/-- Blanks around a text do not matter to its words. -/
theorem words_trim (chars : List Char) : words (trim chars) = words chars := by
  rw [trim, words_trimEnd, words_trimStart]

/-- A text that does not start with a blank starts with its first word. -/
theorem words_of_head? (opens : chars.head? = some char) (solid : isBlank char = false) :
    words chars = (chars.takeWhile fun char => !isBlank char) ::
      words (chars.dropWhile fun char => !isBlank char) := by
  have filled : (chars.takeWhile fun char => !isBlank char) ≠ [] := by
    cases chars with
    | nil => cases opens
    | cons first rest =>
        cases opens
        simp [solid]
  have whole : Solid (chars.takeWhile fun char => !isBlank char) := by
    intro char member
    simpa using List.all_eq_true.mp List.all_takeWhile char member
  have parts := List.takeWhile_append_dropWhile (p := fun char => !isBlank char) (l := chars)
  cases split : chars.dropWhile fun char => !isBlank char with
  | nil =>
      rw [split, List.append_nil] at parts
      rw [parts] at whole filled
      rw [parts, words_of_solid whole filled]
      rfl
  | cons blank rest =>
      have white : isBlank blank = true := by
        have opens : (chars.dropWhile fun char => !isBlank char).head? = some blank := by
          rw [split, List.head?_cons]
        simpa using not_of_head?_dropWhile opens
      rw [split] at parts
      conv_lhs => rw [← parts]
      rw [words_append_blank whole filled white, words_cons_blank white]

theorem words_eq_nil_iff : words chars = [] ↔ ∀ char ∈ chars, isBlank char = true := by
  induction chars with
  | nil => simp [words]
  | cons first rest ih =>
      cases white : isBlank first with
      | true => simp [words_cons_blank white, ih, white]
      | false =>
          have opens : (first :: rest).head? = some first := rfl
          simp [words_of_head? opens white, white]

/-- The pieces of a split stand in the text as they are. -/
theorem infix_of_mem_splitOnP {marks : Char → Bool} {piece : List Char}
    (member : piece ∈ chars.splitOnP marks) : piece <:+: chars := by
  -- A piece grows at its front only, so that the first one has to be a beginning of the text.
  have begins (chars : List Char) : ∀ piece, (chars.splitOnP marks).head? = some piece →
      piece <+: chars := by
    induction chars with
    | nil => simp
    | cons first rest ih =>
        intro piece found
        rw [List.splitOnP_cons_eq_if_modifyHead] at found
        split at found
        · simp only [List.head?_cons, Option.some.injEq] at found
          exact found ▸ List.nil_prefix
        · rw [List.head?_modifyHead] at found
          obtain ⟨tail, headed, rfl⟩ := Option.map_eq_some_iff.mp found
          exact (List.prefix_cons_inj first).mpr (ih tail headed)
  induction chars generalizing piece with
  | nil =>
      rw [List.splitOnP_nil, List.mem_singleton] at member
      exact member ▸ List.infix_rfl
  | cons first rest ih =>
      cases split : rest.splitOnP marks with
      | nil => exact absurd split (List.splitOnP_ne_nil marks rest)
      | cons head others =>
          rw [List.splitOnP_cons_eq_if_modifyHead] at member
          split at member
          · rcases List.mem_cons.mp member with rfl | behind
            · exact List.nil_infix
            · exact (ih behind).trans (List.suffix_cons first rest).isInfix
          · rw [split, List.modifyHead_cons] at member
            rcases List.mem_cons.mp member with rfl | behind
            · have start := begins rest head (by rw [split, List.head?_cons])
              exact ((List.prefix_cons_inj first).mpr start).isInfix
            · have inside : piece ∈ rest.splitOnP marks := split ▸ List.mem_cons_of_mem head behind
              exact (ih inside).trans (List.suffix_cons first rest).isInfix

theorem infix_of_mem_words (member : word ∈ words chars) : word <:+: chars :=
  infix_of_mem_splitOnP (List.mem_filter.mp member).1

/-! ## Cutting -/

theorem cut?_append (free : mark ∉ front) :
    cut? [mark] (front ++ mark :: back) = some (front, back) := by
  induction front with
  | nil => simp [cut?]
  | cons first rest ih =>
      rw [List.mem_cons, not_or] at free
      rw [List.cons_append, cut?, if_neg (by simpa using free.1), ih free.2]
      rfl

/-- A cut at one character is one at its first occurrence. -/
theorem cut?_eq_some_iff : cut? [mark] chars = some (front, back) ↔
    chars = front ++ mark :: back ∧ mark ∉ front := by
  constructor
  · intro found
    have whole := append_of_cut? found
    rw [List.append_assoc, List.singleton_append] at whole
    have inside : mark ∈ chars := whole ▸ List.mem_append_right _ List.mem_cons_self
    obtain ⟨before, after, rfl, free⟩ := List.eq_append_cons_of_mem inside
    rw [cut?_append free] at found
    cases found
    exact ⟨rfl, free⟩
  · rintro ⟨rfl, free⟩
    exact cut?_append free

/-- A word ends at the first blank, so that texts opening with words have one beginning. -/
theorem eq_of_append_blank {left right opening ending : String} (first : IsWord left)
    (second : IsWord right) (same : left ++ " " ++ opening = right ++ " " ++ ending) :
    left = right ∧ opening = ending := by
  have free {text : String} (named : IsWord text) : ' ' ∉ text.toList :=
    without_singleton_iff.mp (named.without (by decide))
  have chars : left.toList ++ ' ' :: opening.toList = right.toList ++ ' ' :: ending.toList := by
    simpa using congrArg String.toList same
  have cut : cut? [' '] (left.toList ++ ' ' :: opening.toList) =
      some (left.toList, opening.toList) := cut?_append (free first)
  rw [chars, cut?_append (free second)] at cut
  simpa [String.toList_inj, eq_comm] using cut

/-- A cut fails where the mark does not occur. -/
theorem cut?_eq_none_iff {marks : List Char} : cut? marks chars = none ↔ ¬ marks <:+: chars := by
  induction chars with
  | nil => cases marks <;> simp [cut?]
  | cons first rest ih =>
      rw [cut?, List.infix_cons_iff, not_or, ← ih]
      by_cases starts : marks <+: first :: rest
      · simp [starts, List.isPrefixOf_iff_prefix]
      · simp [starts, List.isPrefixOf_iff_prefix]

/-- A mark without the separator does not reach across it. -/
theorem infix_of_infix_append_cons {marks : List Char} {between : Char} (free : between ∉ marks)
    (found : marks <:+: front ++ between :: back) : marks <:+: front ∨ marks <:+: back := by
  rcases List.infix_append_iff.mp found with inside | behind | ⟨head, tail, rfl, ending, start⟩
  · exact .inl inside
  · rcases List.infix_cons_iff.mp behind with start | inside
    · cases marks with
      | nil => exact .inl List.nil_infix
      | cons first others =>
          obtain ⟨rfl, _⟩ := List.cons_prefix_cons.mp start
          exact absurd List.mem_cons_self free
    · exact .inr inside
  · cases tail with
    | nil =>
        rw [List.append_nil]
        exact .inl ending.isInfix
    | cons first others =>
        obtain ⟨rfl, _⟩ := List.cons_prefix_cons.mp start
        exact absurd (List.mem_append_right head List.mem_cons_self) free

/-- A mark that does not begin with a character of the front does not begin there. -/
theorem not_infix_append {others : List Char} (free : mark ∉ front)
    (unmarked : ¬ mark :: others <:+: back) : ¬ mark :: others <:+: front ++ back := by
  intro found
  rcases List.infix_append_iff.mp found with inside | behind | ⟨head, tail, split, ending, start⟩
  · exact free (inside.subset List.mem_cons_self)
  · exact unmarked behind
  · cases head with
    | nil =>
        rw [List.nil_append] at split
        exact unmarked (split ▸ start.isInfix)
    | cons first head =>
        cases split
        exact free (ending.subset List.mem_cons_self)

/-- A mark that its first character only begins is found where it was put. -/
theorem cut?_append_mark {others : List Char} (once : mark ∉ others)
    (unmarked : ¬ mark :: others <:+: front) (back : List Char) :
    cut? (mark :: others) (front ++ mark :: others ++ back) = some (front, back) := by
  induction front with
  | nil => simp [cut?]
  | cons first rest ih =>
      -- An occurrence from here on that is not inside the front reaches the mark, whose first
      -- character would come a second time.
      have later : ¬ mark :: others <+: first :: (rest ++ mark :: others ++ back) := by
        intro starts
        by_cases inside : (mark :: others).length ≤ (first :: rest).length
        · have whole : first :: rest <+: first :: (rest ++ mark :: others ++ back) := by simp
          exact unmarked (List.prefix_of_prefix_length_le starts whole inside).isInfix
        · have long : (first :: (rest ++ [mark])).length ≤ (mark :: others).length := by
            simp only [List.length_cons, List.length_append, List.length_nil] at inside ⊢
            omega
          have whole : first :: (rest ++ [mark]) <+: first :: (rest ++ mark :: others ++ back) := by
            simp
          have reach := List.prefix_of_prefix_length_le whole starts long
          have tail := (List.cons_prefix_cons.mp reach).2
          exact once (tail.subset (by simp))
      have deeper := ih fun inside => unmarked (inside.trans (List.suffix_cons first rest).isInfix)
      rw [List.cons_append, List.cons_append, cut?, if_neg (by simpa using later), deeper]
      rfl

/-! ## Lines -/

/-- A text that can stand on a line of its own. -/
structure Single (line : List Char) : Prop where
  feedless : '\n' ∉ line
  unreturned : line.getLast? ≠ some '\r'

theorem Trimmed.single (trimmed : Trimmed chars) (feedless : '\n' ∉ chars) : Single chars where
  feedless := feedless
  unreturned := fun ended => absurd (trimmed.ends '\r' ended) (by decide)

theorem Solid.feedless (solid : Solid chars) : '\n' ∉ chars :=
  fun feed => absurd (solid '\n' feed) (by decide)

theorem splitOn_flatMap_line {lines : List (List Char)} (single : ∀ line ∈ lines, Single line) :
    (lines.flatMap fun line => line ++ ['\n']).splitOn '\n' = lines ++ [[]] := by
  induction lines with
  | nil => simp
  | cons line others ih =>
      have feedless := (single line List.mem_cons_self).feedless
      rw [List.flatMap_cons, List.append_assoc, List.singleton_append,
        List.splitOn_append_cons_self, List.splitOn_eq_singleton feedless,
        ih fun other member => single other (List.mem_cons_of_mem line member)]
      rfl

/-- Lines that were closed one by one are the lines of the text. -/
theorem lines_flatMap_line {written : List (List Char)} (single : ∀ line ∈ written, Single line) :
    lines (written.flatMap fun line => line ++ ['\n']) = written := by
  unfold lines
  dsimp only
  rw [splitOn_flatMap_line single, List.dropLast_concat, List.getLast?_concat]
  dsimp only
  calc written.map dropReturn = written.map id := by
        apply List.map_congr_left
        intro line member
        have unreturned := (single line member).unreturned
        simp [dropReturn, unreturned]
    _ = written := List.map_id written

/-! ## Numerals -/

theorem toNat_digitChar {value : Nat} (digit : value < 10) :
    digitValue (digitChar value) = value := by
  have digits : ∀ value < 10, digitValue (digitChar value) = value := by decide
  exact digits value digit

theorem digitsValue_concat :
    digitsValue (chars ++ [char]) = 10 * digitsValue chars + digitValue char := by
  rw [digitsValue, List.foldl_concat, digitsValue]

theorem digitsValue_digitsOf (value : Nat) : digitsValue (digitsOf value) = value := by
  rw [digitsOf]
  split
  · rename_i small
    simp [digitsValue, toNat_digitChar small]
  · have last : digitChar value = digitChar (value % 10) := by simp [digitChar]
    rw [digitsValue_concat, digitsValue_digitsOf (value / 10), last,
      toNat_digitChar (Nat.mod_lt value (by decide))]
    omega
termination_by value

theorem digitsOf_ne_nil (value : Nat) : digitsOf value ≠ [] := by
  rw [digitsOf]
  split <;> simp

theorem isDigits_digitsOf (value : Nat) : isDigits (digitsOf value) = true := by
  rw [isDigits, Bool.and_eq_true, List.all_eq_true]
  exact ⟨by simpa using digitsOf_ne_nil value, fun char member => isDigit_of_mem_digitsOf member⟩

theorem solid_digitsOf (value : Nat) : Solid (digitsOf value) :=
  fun _ member => isBlank_of_isNameChar (isNameChar_of_isDigit (isDigit_of_mem_digitsOf member))

theorem unsigned_of_isDigits (digits : isDigits chars = true) : unsigned chars = chars := by
  unfold unsigned
  split
  · simp [isDigits, Char.isDigit] at digits
  · rfl

theorem byte?_digitsOf (number : UInt8) : byte? (digitsOf number.toNat) = some number := by
  have small : number.toNat ≤ 255 := Nat.le_of_lt_succ number.toNat_lt
  have read : numeral? 255 (digitsOf number.toNat) = some number.toNat := by
    rw [numeral?_eq_some_iff, unsigned_of_isDigits (isDigits_digitsOf _)]
    exact ⟨isDigits_digitsOf _, digitsValue_digitsOf _, small⟩
  rw [byte?, read]
  simp

theorem toDigits_eq_digitsOf (value : Nat) : Nat.toDigits 10 value = digitsOf value := by
  have chars : ∀ digit < 10, digit.digitChar = digitChar digit := by decide
  rw [digitsOf]
  split
  · rename_i small
    rw [Nat.toDigits_of_lt_base small, chars value small]
  · rename_i large
    rw [Nat.toDigits_of_base_le (by decide) (by omega), toDigits_eq_digitsOf (value / 10),
      chars _ (Nat.mod_lt value (by decide))]
    simp [digitChar]
termination_by value

theorem toList_toString_byte (number : UInt8) :
    (toString number).toList = digitsOf number.toNat := by
  have same : toString number = toString number.toNat := rfl
  rw [same, Nat.toString_eq_ofList_toDigits, String.toList_ofList, toDigits_eq_digitsOf]

theorem toString_byte_injective : Function.Injective fun number : UInt8 => toString number := by
  intro first second same
  have digits := congrArg String.toList same
  simp only [toList_toString_byte] at digits
  have read := byte?_digitsOf first
  rw [digits, byte?_digitsOf, Option.some.injEq] at read
  exact read.symm

end Pinout.Text
