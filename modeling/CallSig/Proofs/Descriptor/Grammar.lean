import CallSig.Proofs.Lexeme.Nesting

/-!
# `CallSig.Proofs.Descriptor.Grammar` — the grammar of descriptor lines

The grammar is given by its derivations: a `Line` says for every lexeme of a line which part of the grammar it
stands for. What the line spells, whether it is well formed and what it declares are read off the derivation. No
scanner or parser is mentioned here.

```text
line     := (integer ":")? name ("." name)* "(" list? ")" ("->" token+)?
list     := item ("," item)*
item     := name ":" type ("=" token+)? | "/" | "*"
```

## Contents
- **Arguments.** `marked`; `ArgumentForm`, with `lexemes`, `variadic`, `WellFormed`, `argument` (what it declares).
- **Items.** `Item`, `Item.Fits` (where an item may stand), `MarkersInPlace`; `argumentsFrom`, with what one
  more item changes.
- **Lines.** `Line`, with `lexemes`, `WellFormed`, `descriptor`.
-/

namespace CallSig.Grammar

open Lexeme

/-! ## Arguments -/

/-- A part of a line that may be left out, with the mark before it. -/
def marked : Option (Lexeme × List Lexeme) → List Lexeme
  | none => []
  | some (mark, part) => mark :: part

/-- An argument: a name, a colon, a type, and a default after an equals sign if there is one. -/
structure ArgumentForm where
  name : Lexeme
  colon : Lexeme
  type : List Lexeme
  default? : Option (Lexeme × List Lexeme)

namespace ArgumentForm

/-- What the argument consists of. -/
def lexemes (form : ArgumentForm) : List Lexeme := form.name :: form.colon :: (form.type ++ marked form.default?)

/-- Whether the type is the one token of three dots. -/
def variadic (form : ArgumentForm) : Bool :=
  match form.type with
  | [dots] => dots.token = .ellipsis
  | _ => false

/-- The argument has a name, a type that ends before the first outer equals sign, and a default that is not empty
if it has one; a variadic argument has none. -/
structure WellFormed (depth : Nat) (form : ArgumentForm) : Prop where
  name : form.name.token = .identifier
  colon : form.colon.token = .colon
  type_ne_nil : form.type ≠ []
  type_nested : Nested NoEqual depth form.type
  default : ∀ equal part, form.default? = some (equal, part) →
    equal.token = .equal ∧ part ≠ [] ∧ form.variadic = false

/-- What the argument declares; `kind` is its kind unless it is variadic. -/
def argument (kind : ParamKind) (form : ArgumentForm) : Argument :=
  let typeToken := String.ofList (Text.collapse (runText form.type))
  let span := runSpan form.name (form.colon :: (form.type ++ marked form.default?))
  if form.variadic then
    if "arg_".toList.isPrefixOf form.name.text then ⟨"args", typeToken, none, .varPositional, span⟩
    else ⟨escapeReserved (String.ofList form.name.text), typeToken, none, .varKeyword, span⟩
  else
    let default? := form.default?.map fun (_, part) => String.ofList (runText part)
    ⟨escapeReserved (String.ofList form.name.text), typeToken, default?, kind, span⟩

end ArgumentForm

theorem typeToken_argument (kind : ParamKind) (form : ArgumentForm) :
    (form.argument kind).typeToken = String.ofList (Text.collapse (runText form.type)) := by
  unfold ArgumentForm.argument
  split
  · split
    · rfl
    · rfl
  · rfl

/-! ## Items -/

/-- An item of the list: a marker or an argument. -/
inductive Item
  | slash (mark : Lexeme)
  | star (mark : Lexeme)
  | argument (form : ArgumentForm)

namespace Item

/-- What the item consists of. -/
def lexemes : Item → List Lexeme
  | slash mark => [mark]
  | star mark => [mark]
  | argument form => form.lexemes

/-- The markers are what they are called, and the arguments are well formed. -/
def WellFormed (depth : Nat) : Item → Prop
  | slash mark => mark.token = .slash
  | star mark => mark.token = .star
  | argument form => form.WellFormed depth

/-- Whether the item is a slash. -/
def isSlash : Item → Bool
  | slash _ => true
  | _ => false

/-- Whether the item is a star. -/
def isStar : Item → Bool
  | star _ => true
  | _ => false

/-- Whether the item is an argument. -/
def isArgument : Item → Bool
  | argument _ => true
  | _ => false

/-- The item may stand after these: a slash after some argument, with no marker before it, and a star with no other
star before it. -/
def Fits (front : List Item) : Item → Prop
  | slash _ => front.any isSlash = false ∧ front.any isStar = false ∧ front.any isArgument = true
  | star _ => front.any isStar = false
  | argument _ => True

end Item

/-- Every item may stand after those before it. -/
def MarkersInPlace (items : List Item) : Prop :=
  ∀ front item back, items = front ++ item :: back → item.Fits front

/-- The kind of an argument that is not variadic: a star before it makes it a keyword, a slash after it makes it
positional. -/
def kindAt (star slash : Bool) : ParamKind :=
  if slash then .positionalOnly else if star then .keywordOnly else .positionalOrKeyword

/-- What the arguments among the items declare; `star` says whether a star stands before these items. -/
def argumentsFrom (star : Bool) : List Item → List Argument
  | [] => []
  | .slash _ :: items => argumentsFrom star items
  | .star _ :: items => argumentsFrom true items
  | .argument form :: items => form.argument (kindAt star (items.any Item.isSlash)) :: argumentsFrom star items

/-! ## Lines -/

/-- What stands between round brackets: nothing, or items with commas between them, in a nested run. -/
def IsList (depth : Nat) (inner : List Lexeme) (items : List Item) : Prop :=
  inner = [] ∧ items = [] ∨ Separated (Nested NoComma depth) inner (items.map Item.lexemes)

/-- A line: an index and a colon, the first name, further names with the dots before them, a list of arguments with
its round brackets, and a result with its arrow. -/
structure Line where
  index? : Option (Lexeme × Lexeme)
  first : Lexeme
  more : List (Lexeme × Lexeme)
  opened : Lexeme
  inner : List Lexeme
  items : List Item
  closed : Lexeme
  result? : Option (Lexeme × List Lexeme)

/-- An index and its colon, if there is one. -/
def indexed : Option (Lexeme × Lexeme) → List Lexeme
  | none => []
  | some (digits, colon) => [digits, colon]

/-- Names, each after its dot. -/
def dotted (names : List (Lexeme × Lexeme)) : List Lexeme := names.flatMap fun (dot, name) => [dot, name]

/-- The number that decimal digits write. -/
def decimal (digits : List Char) : Nat := digits.foldl (fun n c => 10 * n + (c.toNat - '0'.toNat)) 0

/-- The index is an integer that a machine word holds, with a colon after it. -/
def IsIndex (index? : Option (Lexeme × Lexeme)) : Prop :=
  ∀ digits colon, index? = some (digits, colon) →
    digits.token = .integer ∧ decimal digits.text < 0x10000000000000000 ∧ colon.token = .colon

theorem isIndex_none : IsIndex none := by
  intro digits colon h
  cases h

/-- The further names are identifiers, each with a dot before it. -/
def AreDotted (more : List (Lexeme × Lexeme)) : Prop :=
  ∀ dot name, (dot, name) ∈ more → dot.token = .dot ∧ name.token = .identifier

theorem areDotted_nil : AreDotted [] := by
  intro dot name h
  cases h

/-- The result is not empty, with an arrow before it. -/
def IsResult (result? : Option (Lexeme × List Lexeme)) : Prop :=
  ∀ arrow part, result? = some (arrow, part) → arrow.token = .arrow ∧ part ≠ []

theorem isResult_none : IsResult none := by
  intro arrow part h
  cases h

namespace Line

/-- What the line consists of. -/
def lexemes (line : Line) : List Lexeme :=
  indexed line.index? ++
    line.first :: (dotted line.more ++ line.opened :: (line.inner ++ line.closed :: marked line.result?))

/-- The names of the dotted name. -/
def names (line : Line) : List Lexeme := line.first :: line.more.map Prod.snd

/-- The line follows the grammar, with brackets at most so many deep between the round ones. -/
structure WellFormed (depth : Nat) (line : Line) : Prop where
  index : IsIndex line.index?
  first : line.first.token = .identifier
  more : AreDotted line.more
  opened : line.opened.token = .opening .round
  list : IsList depth line.inner line.items
  items : ∀ item ∈ line.items, item.WellFormed depth
  markers : MarkersInPlace line.items
  closed : line.closed.token = .closing .round
  result : IsResult line.result?

/-- What the line declares. -/
def descriptor (line : Line) : Descriptor where
  index? := line.index?.map fun (digits, _) => decimal digits.text
  scope := (line.names.map fun name => String.ofList name.text).dropLast
  name := escapeReserved ((line.names.map fun name => String.ofList name.text).getLastD "")
  arguments := argumentsFrom false line.items
  result? := line.result?.map fun (_, part) => String.ofList (Text.collapse (runText part))
  nameSpan := runSpan line.first (line.more.map Prod.snd)

end Line

end CallSig.Grammar
