import CallSig.Lexicon
import CallSig.TypeShape

/-!
# `CallSig.Lexicon.Resolution` — from native tokens to values

A type token is looked up as a whole first. If that fails, array suffixes and containers are resolved part by
part; any other token is resolved through its alias, as a default-constructed value, as an expression, or as an
expression qualified by the scope it stands in. Every result is kept under its token, a failure too, so a token
is resolved, and reported, once.

## Contents
- **Steps.** `LexiconM`, `orCached`, `remember`, `giveUp`.
- **Atoms.** `tryExpression`, `guess`, `atom`.
- **Composites.** `arrayOf`, `matrix`, `typeArgs`, `applyFormer`.
- **Types and defaults.** `maxHops`, `typeAt`, `resolveType`, `zeroFor?`, `resolveValue`.
-/

namespace CallSig

/-- Computations that read and extend a lexicon. -/
abbrev LexiconM := StateM Lexicon

namespace Lexicon

open Text

/-! ## Steps -/

/-- The value kept for a token, or the result of resolving it. -/
def orCached (token : String) (resolve : LexiconM Value) : LexiconM Value := do
  match ← modifyGet (·.cached token) with
  | some value => return value
  | none => resolve

/-- Keeps a result for a token, and returns it. -/
def remember (token : String) (value : Value) : LexiconM Value := do
  modify (·.memoize token value)
  return value

/-- Gives up on a token, which from now on stands for itself. -/
def giveUp (token : String) (reason : MissReason) : LexiconM Value := do
  modify (·.recordMiss ⟨token, reason⟩)
  remember token (.unmapped token)

/-! ## Atoms -/

/-- The name before a final `()`, if the text is a plain default construction. -/
def defaultConstructed? (text : String) : Option String :=
  match text.toList.reverse with
  | ')' :: '(' :: name =>
    if name.isEmpty ∨ name.head? = some '(' then none else some (String.ofList name.reverse)
  | _ => none

/-- The value of a text as a default construction or as an expression. -/
def tryExpression (text : String) : LexiconM (Option Value) :=
  match defaultConstructed? text with
  | some name => return some (.sentinel ⟨.defaulted, name⟩)
  | none => modifyGet (·.evaluate text)

/-- The token with the words of the scope before the first one that is the token's leading word. -/
def spliced? (token scope : String) : Option String :=
  let leading := token.toList.takeWhile fun c => c != '.' && c != '('
  let words := cutAt '.' scope.toList
  if words.contains leading then
    let before := words.takeWhile (· != leading)
    some (join "." (before.map String.ofList ++ [token]))
  else none

/-- The value of a token qualified by its scope: a bare name as a member of the scope, else the token joined to
the scope where they overlap. -/
def guess (token scope : String) : LexiconM (Option Value) := do
  modify countGuess
  let bare := !token.toList.contains '.' && !token.toList.contains '(' && Expression.isPath scope.toList
  let member ← if bare then tryExpression (scope ++ "." ++ token) else pure none
  match member with
  | some value => return some value
  | none => match spliced? token scope with
    | some candidate => tryExpression candidate
    | none => return none

/-- The value of a token without structure that is not known yet; `follow` resolves the target of an alias. -/
def atom (follow : String → LexiconM Value) (scope? : Option String) (token : String) : LexiconM Value := do
  match (← get).aliases.get? token with
  | some target => remember token (← follow (trimmed target))
  | none =>
    match ← tryExpression token with
    | some value => remember token value
    | none =>
      let guessed ← match scope? with
        | some scope => guess token scope
        | none => pure none
      match guessed with
      | some value => remember token value
      | none => giveUp token .unknownToken

/-! ## Composites -/

/-- The longest array that is spelled out as a tuple. -/
def maxTupleLength : Nat := 32

/-- The value of an array: a tuple for a short fixed length, array-like otherwise. -/
def arrayOf (element : TypeExpr) : Option Nat → Value
  | some n => if n ≤ maxTupleLength then .type (.tuple (List.replicate n element)) else .arrayLike element
  | none => .arrayLike element

/-- The dimensions of a matrix, from the arguments of its former. -/
def dimensions? : List String → Option (Nat × Nat)
  | [rows, cols, _] =>
    (word? (trim rows.toList)).bind fun r => (word? (trim cols.toList)).map fun c => (r, c)
  | _ => none

/-- The value of a matrix type: the defined class that its dimensions name. -/
def matrix (token stem : String) (args : List String) : LexiconM Value := do
  match dimensions? args with
  | none => giveUp token .badArguments
  | some (rows, cols) =>
    match ← modifyGet (·.evaluate s!"{stem}{rows}x{cols}") with
    | some value => remember token value
    | none => giveUp token .unknownToken

/-- The types of the arguments of a former, from left to right. -/
def typeArgs (resolve : String → LexiconM Value) : List String → LexiconM (List TypeExpr)
  | [] => return []
  | arg :: args => do
    let value ← resolve (trimmed arg)
    let rest ← typeArgs resolve args
    return value.elementType :: rest

/-- The value of a token whose container has the value `former`. -/
def applyFormer (resolve : String → LexiconM Value) (token : String) (args : List String) (former : Value) :
    LexiconM Value := do
  match former with
  | .former (.matrix stem) => matrix token stem args
  | .former .arrayLike =>
    match ← typeArgs resolve args with
    | [element] => remember token (.arrayLike element)
    | _ => giveUp token .badArguments
  | .former (.container kind) => remember token (.type (.generic kind (← typeArgs resolve args)))
  | .type (.named path []) => remember token (.type (.named path (← typeArgs resolve args)))
  | .type (.generic kind []) => remember token (.type (.generic kind (← typeArgs resolve args)))
  | _ => giveUp token .notAContainer

/-! ## Types and defaults -/

/-- How many steps from a token to a part of it, or to the target of its alias, are followed. -/
def maxHops : Nat := 16

/-- The value of a type token without blanks around it, with `hops` steps left; brackets nest up to `depth`. -/
def typeAt (depth : Nat) (scope? : Option String) : Nat → String → LexiconM Value
  | 0, token => orCached token (giveUp token .tooDeep)
  | hops + 1, token =>
    orCached token <|
      match TypeShape.ofToken depth token with
      | .atom text => atom (typeAt depth scope? hops) scope? text
      | .array element length? => do
        let value ← typeAt depth scope? hops element
        remember token (arrayOf value.elementType length?)
      | .generic container args => do
        let former ← typeAt depth scope? hops container
        applyFormer (typeAt depth scope? hops) token args former

/-- The value of a type token that stands in a scope. -/
def resolveType (depth : Nat) (scope? : Option String) (token : String) : LexiconM Value :=
  typeAt depth scope? maxHops (trimmed token)

/-- The zero of a type: the registered one for a builtin type, `None` for any other known type. -/
def zeroFor? (depth : Nat) (typeToken : String) : LexiconM (Option Value) := do
  let type ← resolveType depth none typeToken
  match type.zeroName? with
  | some name => modifyGet (·.lookup (Vocabulary.zeroToken name))
  | none => return if type.isUnmapped then none else some (.literal .null)

/-- The value of a default token for a parameter of the given type. The tokens `0` and `None` stand for the
zero of the type, if it has one. -/
def resolveValue (depth : Nat) (type? : Option String) (token : String) : LexiconM Value := do
  let token := trimmed token
  let zero? ← match type? with
    | some typeToken => if token = "0" ∨ token = "None" then zeroFor? depth typeToken else pure none
    | none => pure none
  match zero? with
  | some zero => return zero
  | none => orCached token (atom (typeAt depth type? (maxHops - 1)) type? token)

end Lexicon

end CallSig
