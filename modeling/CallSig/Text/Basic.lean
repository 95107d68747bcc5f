/-!
# `CallSig.Text.Basic` — measuring, cutting and searching character lists

Texts are read as lists of characters and measured in UTF-8 bytes, because every position this library
reports is a byte offset.

## Contents
- **Measure.** `width`, with `width_append`.
- **Cuts.** `cutWhere` (pieces between separators), `lines`.
- **Search.** `length_dropWhile_le`; `offsetOf?` (first occurrence, in bytes).
-/

namespace CallSig.Text

/-! ## Measure -/

/-- The number of bytes the characters take in UTF-8. -/
def width : List Char → Nat
  | [] => 0
  | c :: cs => c.utf8Size + width cs

@[simp] theorem width_nil : width [] = 0 := rfl

@[simp] theorem width_cons (c : Char) (cs : List Char) : width (c :: cs) = c.utf8Size + width cs := rfl

@[simp] theorem width_append (a b : List Char) : width (a ++ b) = width a + width b := by
  induction a with
  | nil => simp
  | cons c cs ih => simp [ih, Nat.add_assoc]

/-! ## Cuts -/

/-- The pieces between the characters that satisfy `isSep`; there is one more piece than separators. -/
def cutWhere (isSep : Char → Bool) : List Char → List (List Char)
  | [] => [[]]
  | c :: cs =>
    if isSep c then [] :: cutWhere isSep cs
    else match cutWhere isSep cs with
      | [] => [[c]]
      | piece :: pieces => (c :: piece) :: pieces

theorem cutWhere_ne_nil (isSep : Char → Bool) (cs : List Char) : cutWhere isSep cs ≠ [] := by
  cases cs with
  | nil => simp [cutWhere]
  | cons c cs =>
    unfold cutWhere
    split
    · simp
    · split <;> simp

/-- The pieces between occurrences of one character. -/
def cutAt (sep : Char) : List Char → List (List Char) := cutWhere (· == sep)

/-- A line without the carriage return that may end it. -/
def dropReturn (line : List Char) : List Char :=
  if line.getLast? = some '\r' then line.dropLast else line

/-- The lines among pieces that line feeds separate: each line but the last was ended by a line feed, and
an empty last piece is no line. -/
def linesOfPieces : List (List Char) → List (List Char)
  | [] => []
  | [last] => if last.isEmpty then [] else [last]
  | line :: rest => dropReturn line :: linesOfPieces rest

/-- The lines of a text, each without the line feed, or the carriage return and line feed, that ends it. -/
def lines (text : List Char) : List (List Char) := linesOfPieces (cutAt '\n' text)

/-- `sep` between the members of a list of texts. -/
def join (sep : String) (texts : List String) : String := sep.intercalate texts

/-! ## Search -/

theorem length_dropWhile_le {α : Type} (p : α → Bool) (l : List α) : (l.dropWhile p).length ≤ l.length := by
  induction l with
  | nil => simp
  | cons a l ih =>
    rw [List.dropWhile_cons]
    split
    · exact Nat.le_succ_of_le ih
    · exact Nat.le_refl _

/-- The byte offset of the first occurrence of `needle`. -/
def offsetOf? (needle : List Char) : List Char → Option Nat
  | [] => if needle.isEmpty then some 0 else none
  | c :: cs =>
    if needle.isPrefixOf (c :: cs) then some 0
    else (offsetOf? needle cs).map (c.utf8Size + ·)

end CallSig.Text
