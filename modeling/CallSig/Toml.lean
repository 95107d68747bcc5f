import CallSig.Text.Basic
import CallSig.Toml.DateTime

/-!
# `CallSig.Toml` — statements of a TOML text

A reader for the part of TOML that settings are written in: strings in their four forms, integers, booleans,
dates and times, arrays, inline tables, dotted keys and table headers. A text with a float is refused, since
no setting has such a value. What the statements mean is for others to say.

## Contents
- **Statements.** `Toml.Value`, `Toml.Statement`.
- **Space.** `skipBlanks`, `skipComment`, `endLine?`, `skipLines`.
- **Strings.** `escapeIn?`, `basicString?`, `literalString?`, and their forms over several lines.
- **Keys and numbers.** `simpleKey?`, `key?`, `integer?`.
- **Values.** `value?`, with `arrayItems?` and `tableItems?`.
- **Texts.** `statement?`, `statements?`, `read?`.
-/

namespace CallSig.Toml

/-! ## Statements -/

/-- A value after a key. -/
inductive Value
  | string (s : String)
  | integer (n : Int)
  | boolean (b : Bool)
  | dateTime (d : DateTime)
  | array (items : List Value)
  /-- An inline table: dotted keys with their values, in order. -/
  | table (items : List (List String × Value))

/-- A statement of a TOML text. -/
inductive Statement
  /-- A header in single or, for an element of an array of tables, in double brackets. -/
  | header (double : Bool) (path : List String)
  | assign (path : List String) (value : Value)

/-! ## Space -/

/-- What follows spaces and tabs. -/
def skipBlanks (cs : List Char) : List Char := cs.dropWhile fun c => c == ' ' || c == '\t'

/-- Whether a character may stand in a comment. -/
def isCommentChar (c : Char) : Bool := c == '\t' || (0x20 ≤ c.toNat && c.toNat != 0x7F)

/-- What follows a line end: a line feed, or a carriage return and a line feed. -/
def newline? : List Char → Option (List Char)
  | '\n' :: rest => some rest
  | '\r' :: '\n' :: rest => some rest
  | _ => none

/-- What follows blanks and a comment, if there is one. -/
def skipComment (cs : List Char) : List Char :=
  match skipBlanks cs with
  | '#' :: rest => rest.dropWhile isCommentChar
  | rest => rest

/-- What follows the rest of a line that has nothing but blanks and a comment. -/
def endLine? (cs : List Char) : Option (List Char) :=
  match skipComment cs with
  | [] => some []
  | rest => newline? rest

/-- What follows blanks, comments and line ends; the fuel bounds the number of lines. -/
def skipLines : Nat → List Char → List Char
  | 0, cs => cs
  | fuel + 1, cs =>
    let rest := skipComment cs
    match newline? rest with
    | some rest => skipLines fuel rest
    | none => rest

/-! ## Strings -/

/-- The characters that a string may hold without an escape, beside its quotes and backslashes. -/
def isStringChar (c : Char) : Bool := isCommentChar c

/-- The character with a code point written in digits of base sixteen. -/
def codePoint? (digits : List Char) : Option Char :=
  (Text.natural? 16 digits).bind fun n => if n.isValidChar then some (Char.ofNat n) else none

/-- The character that an escape after a backslash stands for, and what follows it. -/
def escapeIn? : List Char → Option (Char × List Char)
  | 'b' :: rest => some ('\x08', rest)
  | 't' :: rest => some ('\t', rest)
  | 'n' :: rest => some ('\n', rest)
  | 'f' :: rest => some ('\x0c', rest)
  | 'r' :: rest => some ('\r', rest)
  | '"' :: rest => some ('"', rest)
  | '\\' :: rest => some ('\\', rest)
  | 'u' :: rest =>
    if rest.length < 4 then none else (codePoint? (rest.take 4)).map fun c => (c, rest.drop 4)
  | 'U' :: rest =>
    if rest.length < 8 then none else (codePoint? (rest.take 8)).map fun c => (c, rest.drop 8)
  | _ => none

/-- The characters up to the quote that ends a string of one line; the fuel bounds their number. -/
def basicString? : Nat → List Char → Option (List Char × List Char)
  | 0, _ => none
  | fuel + 1, cs =>
    match cs with
    | [] => none
    | '"' :: rest => some ([], rest)
    | '\\' :: rest =>
      (escapeIn? rest).bind fun (c, rest) =>
        (basicString? fuel rest).map fun (more, rest) => (c :: more, rest)
    | c :: rest =>
      if isStringChar c then (basicString? fuel rest).map fun (more, rest) => (c :: more, rest) else none

/-- The characters up to the quote that ends a literal string of one line. -/
def literalString? : List Char → Option (List Char × List Char)
  | [] => none
  | '\'' :: rest => some ([], rest)
  | c :: rest =>
    if isStringChar c then (literalString? rest).map fun (more, rest) => (c :: more, rest) else none

/-- What a run of quotes inside a string of several lines gives: fewer than three belong to the string; of
three to five the last three end it. -/
def closingQuotes (quote : Char) (cs : List Char) : List Char × Option (List Char) :=
  let run := (cs.take 5).takeWhile (· == quote)
  if run.length < 3 then (run, none) else (run.drop 3, some (cs.drop run.length))

/-- What follows blanks and line ends; the fuel bounds the number of lines. -/
def skipSpace : Nat → List Char → List Char
  | 0, cs => cs
  | fuel + 1, cs =>
    let rest := skipBlanks cs
    match newline? rest with
    | some rest => skipSpace fuel rest
    | none => rest

/-- What follows the blanks and line ends after a backslash at the end of a line. -/
def continuation? (cs : List Char) : Option (List Char) :=
  (newline? (skipBlanks cs)).map fun rest => skipSpace (rest.length + 1) rest

/-- The characters up to the quotes that end a string of several lines, with or without escapes; the fuel
bounds the number of steps. -/
def multiline? (quote : Char) (escapes : Bool) : Nat → List Char → Option (List Char × List Char)
  | 0, _ => none
  | fuel + 1, cs =>
    let go (front : List Char) (rest : List Char) : Option (List Char × List Char) :=
      (multiline? quote escapes fuel rest).map fun (more, rest) => (front ++ more, rest)
    match newline? cs with
    | some rest => go ['\n'] rest
    | none =>
      match cs with
      | [] => none
      | c :: rest =>
        if c = quote then
          match closingQuotes quote cs with
          | (front, some rest) => some (front, rest)
          | (front, none) => go front (cs.drop front.length)
        else if c = '\\' ∧ escapes then
          match escapeIn? rest with
          | some (c, rest) => go [c] rest
          | none => (continuation? rest).bind (go [])
        else if isStringChar c then go [c] rest
        else none

/-- A string of several lines; a line end right after the opening quotes does not count. -/
def multilineString? (quote : Char) (escapes : Bool) (cs : List Char) : Option (List Char × List Char) :=
  let body := (newline? cs).getD cs
  multiline? quote escapes (body.length + 1) body

/-- A string of one line between the given quotes. -/
def singleLine? : List Char → Option (List Char × List Char)
  | '"' :: rest => basicString? (rest.length + 1) rest
  | '\'' :: rest => literalString? rest
  | _ => none

/-- A string in any of its four forms. -/
def string? : List Char → Option (List Char × List Char)
  | '"' :: '"' :: '"' :: rest => multilineString? '"' true rest
  | '\'' :: '\'' :: '\'' :: rest => multilineString? '\'' false rest
  | cs => singleLine? cs

/-! ## Keys and numbers -/

/-- The characters of a key without quotes. -/
def isBareKeyChar (c : Char) : Bool := c.isAlphanum || c == '_' || c == '-'

/-- One part of a key. -/
def simpleKey? (cs : List Char) : Option (String × List Char) :=
  match cs with
  | '"' :: _ => (singleLine? cs).map fun (text, rest) => (String.ofList text, rest)
  | '\'' :: _ => (singleLine? cs).map fun (text, rest) => (String.ofList text, rest)
  | _ =>
    let bare := cs.takeWhile isBareKeyChar
    if bare.isEmpty then none else some (String.ofList bare, cs.dropWhile isBareKeyChar)

/-- A dotted key with the blanks around its parts; the fuel bounds the number of parts. -/
def key? : Nat → List Char → Option (List String × List Char)
  | 0, _ => none
  | fuel + 1, cs =>
    (simpleKey? (skipBlanks cs)).bind fun (part, rest) =>
      match skipBlanks rest with
      | '.' :: rest => (key? fuel rest).map fun (parts, rest) => (part :: parts, rest)
      | rest => some ([part], rest)

/-- Digits in a radix, with single underscores between them, and what follows. -/
def digits? (radix : Nat) (cs : List Char) : Option (List Char × List Char) :=
  let belongs (c : Char) : Bool := (Text.digitValue? radix c).isSome || c == '_'
  let groups := Text.cutAt '_' (cs.takeWhile belongs)
  if groups.any List.isEmpty then none else some (groups.flatten, cs.dropWhile belongs)

/-- What was read, if its number fits a signed word. -/
def signedOnly? (read : Int × List Char) : Option (Int × List Char) :=
  (Text.signedOfInt? read.1).map fun _ => read

/-- An integer in a radix, after its mark. -/
def radixInteger? (radix : Nat) (cs : List Char) : Option (Int × List Char) :=
  (digits? radix cs).bind fun (digits, rest) =>
    (Text.natural? radix digits).bind fun n => signedOnly? ((n : Int), rest)

/-- A decimal integer without its sign; zero stands alone. -/
def decimal? (cs : List Char) : Option (Nat × List Char) :=
  match cs with
  | '0' :: rest => some (0, rest)
  | _ => (digits? 10 cs).bind fun (digits, rest) => (Text.natural? 10 digits).map fun n => (n, rest)

/-- An integer that a signed word holds: decimal with an optional sign, or in another radix without one. -/
def integer? : List Char → Option (Int × List Char)
  | '0' :: 'x' :: rest => radixInteger? 16 rest
  | '0' :: 'o' :: rest => radixInteger? 8 rest
  | '0' :: 'b' :: rest => radixInteger? 2 rest
  | '-' :: rest => (decimal? rest).bind fun (n, rest) => signedOnly? (-(n : Int), rest)
  | '+' :: rest => (decimal? rest).bind fun (n, rest) => signedOnly? ((n : Int), rest)
  | cs => (decimal? cs).bind fun (n, rest) => signedOnly? ((n : Int), rest)

/-! ## Values -/

mutual

/-- A value and what follows it; the fuel bounds the number of steps. -/
def value? : Nat → List Char → Option (Value × List Char)
  | 0, _ => none
  | fuel + 1, cs =>
    match cs with
    | 't' :: 'r' :: 'u' :: 'e' :: rest => some (.boolean true, rest)
    | 'f' :: 'a' :: 'l' :: 's' :: 'e' :: rest => some (.boolean false, rest)
    | '[' :: rest => (arrayItems? fuel rest).map fun (items, rest) => (.array items, rest)
    | '\x7b' :: rest =>
      match skipBlanks rest with
      | '\x7d' :: rest => some (.table [], rest)
      | rest => (tableItems? fuel rest).map fun (items, rest) => (.table items, rest)
    | '"' :: _ => (string? cs).map fun (text, rest) => (.string (String.ofList text), rest)
    | '\'' :: _ => (string? cs).map fun (text, rest) => (.string (String.ofList text), rest)
    | _ =>
      match dateTime? cs with
      | some (d, rest) => some (.dateTime d, rest)
      | none => (integer? cs).map fun (n, rest) => (.integer n, rest)

/-- The items of an array up to its closing bracket; a comma may follow the last one. -/
def arrayItems? : Nat → List Char → Option (List Value × List Char)
  | 0, _ => none
  | fuel + 1, cs =>
    match skipLines cs.length cs with
    | ']' :: rest => some ([], rest)
    | cs =>
      (value? fuel cs).bind fun (item, rest) =>
        match skipLines rest.length rest with
        | ']' :: rest => some ([item], rest)
        | ',' :: rest => (arrayItems? fuel rest).map fun (items, rest) => (item :: items, rest)
        | _ => none

/-- The items of an inline table, at least one, up to its closing brace. -/
def tableItems? : Nat → List Char → Option (List (List String × Value) × List Char)
  | 0, _ => none
  | fuel + 1, cs =>
    (key? (cs.length + 1) cs).bind fun (path, rest) =>
      match rest with
      | '=' :: rest =>
        (value? fuel (skipBlanks rest)).bind fun (item, rest) =>
          match skipBlanks rest with
          | '\x7d' :: rest => some ([(path, item)], rest)
          | ',' :: rest => (tableItems? fuel rest).map fun (items, rest) => ((path, item) :: items, rest)
          | _ => none
      | _ => none

end

/-! ## Texts -/

/-- The statement that a text begins with, and what follows its line. -/
def statement? (cs : List Char) : Option (Statement × List Char) :=
  match cs with
  | '[' :: '[' :: rest =>
    (key? (rest.length + 1) rest).bind fun (path, rest) =>
      match rest with
      | ']' :: ']' :: rest => (endLine? rest).map fun rest => (.header true path, rest)
      | _ => none
  | '[' :: rest =>
    (key? (rest.length + 1) rest).bind fun (path, rest) =>
      match rest with
      | ']' :: rest => (endLine? rest).map fun rest => (.header false path, rest)
      | _ => none
  | _ =>
    (key? (cs.length + 1) cs).bind fun (path, rest) =>
      match rest with
      | '=' :: rest =>
        let rest := skipBlanks rest
        (value? (2 * rest.length + 2) rest).bind fun (value, rest) =>
          (endLine? rest).map fun rest => (.assign path value, rest)
      | _ => none

/-- The statements of a text; the fuel bounds their number. -/
def statements? : Nat → List Char → Option (List Statement)
  | 0, _ => none
  | fuel + 1, cs =>
    match skipLines cs.length cs with
    | [] => some []
    | cs => (statement? cs).bind fun (statement, rest) =>
        (statements? fuel rest).map fun more => statement :: more

/-- The statements of a whole text, which may begin with a byte order mark. -/
def read? (text : String) : Option (List Statement) :=
  let cs := match text.toList with
    | '\ufeff' :: rest => rest
    | cs => cs
  statements? (cs.length + 1) cs

end CallSig.Toml
