import CallSig.Descriptor
import CallSig.Value

/-!
# `CallSig.Variant` — one assembled overload

A variant is one overload of a function with everything resolved: its parameters, their defaults and its result.
Positional defaults belong to the last positional parameters, in order; keyword-only defaults go by name.

## Contents
- **Variants.** `Parameter`, `Variant`.
- **Parameters by name.** `param?`, `kindOf?`, `hintOf?`.
- **Defaults.** `positionalCount`, `defaultAt`, `requiredArity`.
-/

namespace CallSig

/-! ## Variants -/

/-- A parameter of a variant. -/
structure Parameter where
  name : String
  kind : ParamKind
  /-- The type; variadic parameters have none. -/
  hint? : Option TypeExpr
  deriving Repr

/-- One overload with everything resolved. -/
structure Variant where
  /-- The last segment of the full name. -/
  shortName : String
  fullName : String
  /-- The overload index of the line. -/
  index? : Option Nat
  /-- The parameters in order, output parameters left out. -/
  params : List Parameter
  /-- The defaults of the last positional parameters. -/
  defaults : List Value
  /-- The defaults of keyword-only parameters. -/
  keywordDefaults : List (String × Value)
  /-- The type of the result. -/
  result? : Option TypeExpr
  /-- The output parameters that became part of the result. -/
  promoted : List String
  deriving Repr

namespace Variant

/-! ## Parameters by name -/

/-- The first parameter with a name. -/
def param? (v : Variant) (name : String) : Option Parameter := v.params.find? (·.name == name)

/-- The kind of a parameter. -/
def kindOf? (v : Variant) (name : String) : Option ParamKind := (v.param? name).map Parameter.kind

/-- The type of a parameter. -/
def hintOf? (v : Variant) (name : String) : Option TypeExpr := (v.param? name).bind Parameter.hint?

/-! ## Defaults -/

/-- The number of positional parameters. -/
def positionalCount (v : Variant) : Nat := v.params.countP fun p => p.kind.isPositional

/-- The default of the parameter at a position, if it has one. -/
def defaultAt (v : Variant) (i : Nat) : Option Value :=
  v.params[i]?.bind fun p =>
    if p.kind.isPositional then
      let first := v.positionalCount - v.defaults.length
      if v.positionalCount < v.defaults.length ∨ i < first then none else v.defaults[i - first]?
    else (v.keywordDefaults.find? (·.1 == p.name)).map Prod.snd

/-- The number of positional arguments that a call must pass. -/
def requiredArity (v : Variant) : Nat := v.positionalCount - v.defaults.length

end Variant

end CallSig
