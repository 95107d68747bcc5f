import CallSig.Descriptor
import CallSig.Lexicon.Resolution
import CallSig.Variant

/-!
# `CallSig.Variant.Assembly` — from a descriptor to a variant

Types are resolved in the scope of the declaring type, defaults in the scope of the parameter's own type. An
output parameter leaves the parameters and becomes part of the result, ahead of the natural result. The
structure of the argument list is checked before anything is resolved.

## Contents
- **Errors.** `AssemblyError`.
- **Structure.** `checkStructure`.
- **Arguments.** `Draft`, `Draft.add`, `Draft.addAll`.
- **Results.** `resultType`, `assemble`.
-/

namespace CallSig

/-! ## Errors -/

/-- What is wrong with the arguments of a line. -/
inductive AssemblyError
  /-- A kind that may not follow the one before it. -/
  | kindRegression (name : String) (kind previous : ParamKind) (span : Span)
  | duplicateParameter (name : String) (span : Span)
  | requiredAfterDefault (name : String) (span : Span)
  deriving Repr, DecidableEq

namespace AssemblyError

/-- The number of an error among those of the structure. -/
def number : AssemblyError → Nat
  | kindRegression .. => 1
  | duplicateParameter .. => 2
  | requiredAfterDefault .. => 3

/-- The offending argument inside its line. -/
def span : AssemblyError → Span
  | kindRegression _ _ _ span => span
  | duplicateParameter _ span => span
  | requiredAfterDefault _ span => span

/-- The error in words. -/
def message : AssemblyError → String
  | kindRegression name kind previous _ =>
    s!"Parameter '{name}' is {kind.text} but follows a {previous.text} parameter"
  | duplicateParameter name _ => s!"Duplicate parameter '{name}'"
  | requiredAfterDefault name _ => s!"Parameter '{name}' has no default but follows a parameter with one"

end AssemblyError

namespace Variant

/-! ## Structure -/

/-- Checks arguments that follow others with the given names, the last of which has the given kind: names are
distinct, kinds do not decrease, and no variadic kind is repeated. -/
def checkFrom (names : List String) (previous? : Option ParamKind) : List Argument → Except AssemblyError Unit
  | [] => .ok ()
  | arg :: args =>
    if names.contains arg.name then .error (.duplicateParameter arg.name arg.span)
    else
      let next := checkFrom (arg.name :: names) (some arg.kind) args
      match previous? with
      | none => next
      | some previous =>
        if arg.kind.rank < previous.rank ∨ (arg.kind.isVariadic ∧ arg.kind = previous) then
          .error (.kindRegression arg.name arg.kind previous arg.span)
        else next

/-- Checks the names and kinds of an argument list. -/
def checkStructure (args : List Argument) : Except AssemblyError Unit := checkFrom [] none args

/-! ## Arguments -/

/-- What the arguments read so far have given. -/
structure Draft where
  params : List Parameter
  defaults : List Value
  keywordDefaults : List (String × Value)
  /-- Output parameters and the types written through them. -/
  outputs : List (String × TypeExpr)

namespace Draft

/-- The draft without arguments. -/
def empty : Draft := ⟨[], [], [], []⟩

/-- Adds a parameter that is no output: a positional one without a default may not follow one that has a
default, and one whose default is `None` also admits `None`. -/
def addTyped (d : Draft) (arg : Argument) (value : Value) (default? : Option Value) :
    Except AssemblyError Draft :=
  let hint := value.hint .argument
  match default? with
  | some default =>
    let hint := if default.isNone then hint.orNone else hint
    let params := d.params ++ [⟨arg.name, arg.kind, some hint⟩]
    if arg.kind.isPositional then .ok { d with params, defaults := d.defaults ++ [default] }
    else .ok { d with params, keywordDefaults := d.keywordDefaults ++ [(arg.name, default)] }
  | none =>
    if arg.kind.isPositional ∧ !d.defaults.isEmpty then .error (.requiredAfterDefault arg.name arg.span)
    else .ok { d with params := d.params ++ [⟨arg.name, arg.kind, some hint⟩] }

/-- The value of an argument's default, if it has one. -/
def resolveDefault (depth : Nat) (arg : Argument) : LexiconM (Option Value) :=
  match arg.default? with
  | some token => do return some (← Lexicon.resolveValue depth (some arg.typeToken) token)
  | none => return none

/-- Adds an argument; the default of an output parameter is not looked at. -/
def add (depth : Nat) (declaring? : Option String) (d : Draft) (arg : Argument) :
    LexiconM (Except AssemblyError Draft) := do
  if arg.kind.isVariadic then return .ok { d with params := d.params ++ [⟨arg.name, arg.kind, none⟩] }
  else
    match ← Lexicon.resolveType depth declaring? arg.typeToken with
    | .output t => return .ok { d with outputs := d.outputs ++ [(arg.name, t)] }
    | value => return d.addTyped arg value (← resolveDefault depth arg)

/-- Adds arguments up to the first one that does not fit. -/
def addAll (depth : Nat) (declaring? : Option String) (d : Draft) :
    List Argument → LexiconM (Except AssemblyError Draft)
  | [] => return .ok d
  | arg :: args => do
    match ← d.add depth declaring? arg with
    | .ok d => d.addAll depth declaring? args
    | .error e => return .error e

end Draft

/-! ## Results -/

/-- The type of the result: what is written through output parameters, then the natural result. A natural
result `None` beside outputs does not count, and several types form a tuple. -/
def resultType (outputs : List TypeExpr) (natural? : Option TypeExpr) : Option TypeExpr :=
  let natural := match natural? with
    | some (.builtin .noneType) => if outputs.isEmpty then [.builtin .noneType] else []
    | some t => [t]
    | none => []
  match outputs ++ natural with
  | [] => none
  | [t] => some t
  | ts => some (.tuple ts)

/-- The full name of a declared function; a name without owner is qualified by the scope. -/
def qualifiedName (descriptor : Descriptor) (scope? : Option String) : String :=
  match descriptor.owner?, scope? with
  | none, some scope => scope ++ "." ++ descriptor.fullName
  | _, _ => descriptor.fullName

/-- The natural result of a descriptor. -/
def naturalResult (depth : Nat) (declaring? : Option String) (descriptor : Descriptor) :
    LexiconM (Option TypeExpr) :=
  match descriptor.result? with
  | some token => do return some ((← Lexicon.resolveType depth declaring? token).hint .result)
  | none => return none

/-- The variant that a descriptor declares. The scope stands in for an owner that the name does not have; the
results of the functions named in `optionalReturns` also admit `None`. -/
def assemble (depth : Nat) (optionalReturns : List String) (scope? : Option String) (descriptor : Descriptor) :
    LexiconM (Except AssemblyError Variant) := do
  match checkStructure descriptor.arguments with
  | .error e => return .error e
  | .ok () =>
    let declaring? := descriptor.owner?.or scope?
    match ← Draft.empty.addAll depth declaring? descriptor.arguments with
    | .error e => return .error e
    | .ok d =>
      let natural? ← naturalResult depth declaring? descriptor
      let fullName := qualifiedName descriptor scope?
      let result? := resultType (d.outputs.map Prod.snd) natural?
      return .ok {
        shortName := descriptor.name
        fullName
        index? := descriptor.index?
        params := d.params
        defaults := d.defaults
        keywordDefaults := d.keywordDefaults
        result? := if optionalReturns.contains fullName then result?.map TypeExpr.orNone else result?
        promoted := d.outputs.map Prod.fst
      }

end Variant

end CallSig
