import CallSig.Descriptor
import CallSig.Lexeme.Pieces
import CallSig.Reserved
import CallSig.Text.Blank
import CallSig.Text.Numeral

/-!
# `CallSig.Descriptor.Parser` — reading a descriptor line

```text
line     := (index ":")? name ("." name)* "(" list? ")" ("->" result)?
list     := item ("," item)*
item     := name ":" type ("=" default)? | "/" | "*"
```

Faults are reported in the order in which the line is read: the name, the round brackets, the nesting of the
list, its items, and what follows the list. An argument whose type is `...` is variadic: a name that begins
with `arg_` collects positional values, any other name collects keywords.

## Contents
- **Head.** `readIndex`, `readName`, `readSegments`.
- **Items.** `splitDefault`, `readArgument`, `ItemState`, `ItemState.add`, `readArguments`.
- **Lines.** `readResult`, `Descriptor.parse`.
-/

namespace CallSig.Descriptor

/-! ## Head -/

/-- The overload index before a colon, if the line begins with one, and the rest. -/
def readIndex : List Lexeme → Except ParseError (Option Nat × List Lexeme)
  | x :: y :: rest =>
    if x.token = .integer ∧ y.token = .colon then
      match Text.word? x.text with
      | some n => .ok (some n, rest)
      | none => .error ⟨.malformedArgument (.indexOutOfRange (String.ofList x.text)), x.span⟩
    else .ok (none, x :: y :: rest)
  | xs => .ok (none, xs)

/-- The first lexeme, which must be this token, and the rest; `stop` is the end of the line. -/
def expect (stop : Nat) (token : Token) : List Lexeme → Except ParseError (Lexeme × List Lexeme)
  | [] => .error ⟨.unexpectedEnd token, ⟨stop, stop⟩⟩
  | x :: rest => if x.token = token then .ok (x, rest) else .error ⟨.unexpectedToken token x.token, x.span⟩

/-- The names that follow, each after a dot, and the rest. -/
def readSegments (stop : Nat) : List Lexeme → Except ParseError (List Lexeme × List Lexeme)
  | [] => .ok ([], [])
  | [x] =>
    if x.token = .dot then .error ⟨.unexpectedEnd .identifier, ⟨stop, stop⟩⟩ else .ok ([], [x])
  | x :: y :: rest =>
    if x.token = .dot then
      if y.token = .identifier then (readSegments stop rest).map fun (more, rest) => (y :: more, rest)
      else .error ⟨.unexpectedToken .identifier y.token, y.span⟩
    else .ok ([], x :: y :: rest)

/-- The dotted name: its first segment, the further ones, and the rest of the line. -/
def readName (stop : Nat) (xs : List Lexeme) : Except ParseError (Lexeme × List Lexeme × List Lexeme) := do
  let (first, xs) ← expect stop .identifier xs
  let (more, xs) ← readSegments stop xs
  return (first, more, xs)

/-! ## Items -/

/-- What stands before the first equals sign outside brackets, and what stands after it. Brackets are only
counted here. -/
def splitDefault (depth : Nat) : List Lexeme → List Lexeme × Option (List Lexeme)
  | [] => ([], none)
  | x :: xs =>
    if x.token = .equal ∧ depth = 0 then ([], some xs)
    else
      let depth := match x.token with
        | .opening _ => depth + 1
        | .closing _ => depth - 1
        | _ => depth
      let (before, after?) := splitDefault depth xs
      (x :: before, after?)

/-- The argument named `name`, from the lexemes after the colon. -/
def readTyped (kind : ParamKind) (name : List Char) (span : Span) (body : List Lexeme) :
    Except ParseError Argument :=
  let fault (cause : String → ArgumentFault) : ParseError := ⟨.malformedArgument (cause (String.ofList name)), span⟩
  let (typePart, defaultPart?) := splitDefault 0 body
  if typePart.isEmpty then .error (fault .emptyType)
  else
    let typeToken := String.ofList (Text.collapse (Lexeme.runText typePart))
    if defaultPart? = some [] then .error (fault .emptyDefault)
    else if typeToken = "..." then
      if defaultPart?.isSome then .error (fault .variadicDefault)
      else if "arg_".toList.isPrefixOf name then .ok ⟨"args", typeToken, none, .varPositional, span⟩
      else .ok ⟨escapeReserved (String.ofList name), typeToken, none, .varKeyword, span⟩
    else
      let default? := defaultPart?.map fun part => String.ofList (Lexeme.runText part)
      .ok ⟨escapeReserved (String.ofList name), typeToken, default?, kind, span⟩

/-- The argument that a piece of the list spells; `kind` is its kind unless it is variadic. -/
def readArgument (kind : ParamKind) (first : Lexeme) (rest : List Lexeme) : Except ParseError Argument :=
  let span := Lexeme.runSpan first rest
  if first.token ≠ .identifier then .error ⟨.unexpectedToken .identifier first.token, first.span⟩
  else match rest with
    | [] => .error ⟨.malformedArgument (.noType (String.ofList first.text)), span⟩
    | x :: body =>
      if x.token ≠ .colon then .error ⟨.unexpectedToken .colon x.token, x.span⟩
      else readTyped kind first.text span body

/-- The arguments read so far, and the markers passed. -/
structure ItemState where
  arguments : List Argument
  slash : Bool
  star : Bool

namespace ItemState

/-- The state before the first item. -/
def start : ItemState := ⟨[], false, false⟩

/-- The kind of an argument that a slash follows. -/
def beforeSlash (arg : Argument) : Argument :=
  if arg.kind = .positionalOrKeyword then { arg with kind := .positionalOnly } else arg

/-- The state after one more item. A slash may stand once, after some argument and before any star; a star may
stand once. -/
def add (s : ItemState) (first : Lexeme) (rest : List Lexeme) : Except ParseError ItemState :=
  if rest.isEmpty ∧ first.token = .slash then
    if s.slash ∨ s.star ∨ s.arguments.isEmpty then .error ⟨.misplacedMarker .slash, first.span⟩
    else .ok { s with arguments := s.arguments.map beforeSlash, slash := true }
  else if rest.isEmpty ∧ first.token = .star then
    if s.star then .error ⟨.misplacedMarker .star, first.span⟩
    else .ok { s with star := true }
  else
    let kind := if s.star then .keywordOnly else .positionalOrKeyword
    (readArgument kind first rest).map fun arg => { s with arguments := s.arguments ++ [arg] }

/-- The state after further items; an empty item is reported at the start of the list. -/
def addAll (anchor : Span) (s : ItemState) : List (List Lexeme) → Except ParseError ItemState
  | [] => .ok s
  | [] :: _ => .error ⟨.malformedArgument .empty, anchor⟩
  | (first :: rest) :: items =>
    match s.add first rest with
    | .ok s => addAll anchor s items
    | .error e => .error e

end ItemState

/-- The arguments that the lexemes between the round brackets spell. -/
def readArguments (limit : Nat) (xs : List Lexeme) : Except ParseError (List Argument) := do
  let items ← Lexeme.pieces limit xs
  let anchor := (xs.head?.map Lexeme.span).getD ⟨0, 0⟩
  let s ← ItemState.start.addAll anchor items
  return s.arguments

/-! ## Lines -/

/-- The result token after an arrow; nothing may follow the list without one. -/
def readResult (stop : Nat) : List Lexeme → Except ParseError (Option String)
  | [] => .ok none
  | x :: rest =>
    if x.token = .arrow then
      if rest.isEmpty then .error ⟨.unexpectedEnd .identifier, ⟨stop, stop⟩⟩
      else .ok (some (String.ofList (Text.collapse (Lexeme.runText rest))))
    else .error ⟨.trailingInput, ⟨x.start, stop⟩⟩

/-- The bracket depth the parser uses when asked for `depth`: at least one. -/
def parserDepth (depth : Nat) : Nat := max depth 1

/-- What a line says, or the first fault in it; brackets nest up to `parserDepth depth`. -/
def parse (depth : Nat) (line : String) : Except ParseError Descriptor := do
  let cs := line.toList
  let stop := Text.width cs
  let xs ← Lexeme.ofText cs
  let (index?, xs) ← readIndex xs
  let (first, more, xs) ← readName stop xs
  let (opened, xs) ← expect stop (.opening .round) xs
  let (inner, xs) ← match Lexeme.untilClose? 0 xs with
    | some found => .ok found
    | none => .error ⟨.unclosedBracket .round, opened.span⟩
  let arguments ← readArguments (parserDepth depth) inner
  let result? ← readResult stop xs
  let segments := (first :: more).map fun x => String.ofList x.text
  return {
    index?
    scope := segments.dropLast
    name := escapeReserved (segments.getLastD "")
    arguments
    result?
    nameSpan := Lexeme.runSpan first more
  }

end CallSig.Descriptor
