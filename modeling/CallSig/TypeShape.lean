import CallSig.Lexeme.Pieces
import CallSig.Text.Blank
import CallSig.Text.Numeral

/-!
# `CallSig.TypeShape` — the outer shape of a type token

A type token ends with an array suffix (`int[4]`, `double[]`), is a container applied to arguments
(`std.map[int, str]`, `vector<int>`), or is taken as a whole. The last character decides which bracket is
looked for, and only brackets of this one kind are paired with it.

## Contents
- **Shapes.** `TypeShape`.
- **Analysis.** `splitAtOpener`, `TypeShape.ofToken`.
-/

namespace CallSig

/-! ## Shapes -/

/-- The outer shape of a type token. -/
inductive TypeShape
  /-- A token that is looked up as a whole. -/
  | atom (text : String)
  /-- An element token with an array suffix, and the length in the suffix. -/
  | array (element : String) (length? : Option Nat)
  /-- A container token and the tokens it is applied to. -/
  | generic (container : String) (args : List String)
  deriving Repr, DecidableEq

/-! ## Analysis -/

/-- Going left through a reversed text with `depth` further brackets to pair: what stands inside the bracket
pair and what stands before it, both reversed. -/
def splitAtOpener (opener closer : Char) (depth : Nat) : List Char → Option (List Char × List Char)
  | [] => none
  | c :: cs =>
    if c = opener ∧ depth = 0 then some ([], cs)
    else
      let depth := if c = closer then depth + 1 else if c = opener then depth - 1 else depth
      (splitAtOpener opener closer depth cs).map fun (inner, before) => (c :: inner, before)

namespace TypeShape

/-- The bracket pair that a type token may end with. -/
def finalBracket? (c : Char) : Option Bracket :=
  if c = ']' then some .square else if c = '>' then some .angle else none

/-- The shape of `whole`, which is `head` with `inner` in brackets of this kind after it. -/
def ofParts (depth : Nat) (whole head inner : List Char) (bracket : Bracket) : TypeShape :=
  let atom := atom (String.ofList whole)
  if head.isEmpty then atom
  else if bracket = .square ∧ inner.all Char.isDigit then
    if inner.isEmpty then array (String.ofList head) none
    else match Text.word? inner with
      | some n => array (String.ofList head) (some n)
      | none => atom
  else match Lexeme.splitText depth inner with
    | .ok args =>
      if args.isEmpty ∨ args.any List.isEmpty then atom
      else generic (String.ofList head) (args.map String.ofList)
    | .error _ => atom

/-- The shape of a type token; blanks around it do not count. -/
def ofToken (depth : Nat) (token : String) : TypeShape :=
  let whole := Text.trim token.toList
  match whole.reverse with
  | [] => atom (String.ofList whole)
  | last :: before =>
    match finalBracket? last with
    | none => atom (String.ofList whole)
    | some bracket =>
      match splitAtOpener bracket.opener bracket.closer 0 before with
      | none => atom (String.ofList whole)
      | some (inner, head) =>
        ofParts depth whole (Text.trimEnd head.reverse) (Text.trim inner.reverse) bracket

end TypeShape

end CallSig
