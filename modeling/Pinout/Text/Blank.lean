/-! White space, trimming, and the blank-separated words of a line. The blank
characters are those of the Unicode property White_Space; control separators
U+001C to U+001F, zero-width space and the byte-order mark are not among them. -/

set_option autoImplicit false

namespace Pinout.Text

/-- Membership in the Unicode property White_Space. -/
def isBlank (char : Char) : Bool :=
  let code := char.toNat
  (9 ≤ code && code ≤ 13) || code == 32 || code == 0x85 || code == 0xA0 ||
    code == 0x1680 || (0x2000 ≤ code && code ≤ 0x200A) || code == 0x2028 ||
    code == 0x2029 || code == 0x202F || code == 0x205F || code == 0x3000

/-- The ASCII blanks that the core library knows are all blank. -/
theorem isBlank_of_isWhitespace {char : Char} (white : char.isWhitespace = true) :
    isBlank char = true := by
  simp only [Char.isWhitespace, Bool.or_eq_true, decide_eq_true_eq] at white
  rcases white with ((rfl | rfl) | rfl) | rfl <;> decide

def trimStart (chars : List Char) : List Char :=
  chars.dropWhile isBlank

def trimEnd (chars : List Char) : List Char :=
  (chars.reverse.dropWhile isBlank).reverse

/-- Drop the blanks at both ends. -/
def trim (chars : List Char) : List Char :=
  trimEnd (trimStart chars)

/-- The maximal blank-free runs, in order; none of them is empty. -/
def words (chars : List Char) : List (List Char) :=
  (chars.splitOnP isBlank).filter fun run => !run.isEmpty

theorem ne_nil_of_mem_words {chars word : List Char} (member : word ∈ words chars) :
    word ≠ [] := by
  simp only [words, List.mem_filter, Bool.not_eq_eq_eq_not, Bool.not_true,
    List.isEmpty_eq_false_iff] at member
  exact member.2

end Pinout.Text
