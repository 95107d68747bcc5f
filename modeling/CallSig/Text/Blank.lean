import CallSig.Text.Basic

/-!
# `CallSig.Text.Blank` — white space

The characters with the Unicode property `White_Space`, and what is done with them: trimming, and
collapsing runs of them. The lexer skips a smaller set of its own.

## Contents
- **Class.** `isBlank`.
- **Trimming.** `trimStart`, `trimEnd`, `trim`, and `trimmed` on strings.
- **Words.** `words`, `collapse` (words with one space between them).
-/

namespace CallSig.Text

/-! ## Class -/

/-- Whether a character has the Unicode property `White_Space`. -/
def isBlank (c : Char) : Bool :=
  let n := c.toNat
  (0x09 ≤ n && n ≤ 0x0D) || n == 0x20 || n == 0x85 || n == 0xA0 || n == 0x1680 ||
    (0x2000 ≤ n && n ≤ 0x200A) || n == 0x2028 || n == 0x2029 || n == 0x202F || n == 0x205F || n == 0x3000

/-! ## Trimming -/

/-- A text without the blanks it begins with. -/
def trimStart (cs : List Char) : List Char := cs.dropWhile isBlank

/-- A text without the blanks it ends with. -/
def trimEnd (cs : List Char) : List Char := (cs.reverse.dropWhile isBlank).reverse

/-- A text without the blanks at either end. -/
def trim (cs : List Char) : List Char := trimEnd (trimStart cs)

/-- A string without the blanks at either end. -/
def trimmed (s : String) : String := String.ofList (trim s.toList)

/-! ## Words -/

/-- The maximal runs of characters that are not blank. -/
def words (cs : List Char) : List (List Char) := (cutWhere isBlank cs).filter fun w => !w.isEmpty

/-- The words of a text with one space between them. -/
def collapse (cs : List Char) : List Char := [' '].intercalate (words cs)

end CallSig.Text
