import CallSig.Decimal.Shortest
import CallSig.Text.Quoted
import CallSig.TypeExpr

/-!
# `CallSig.Value` — what a native token stands for

Type tokens mostly stand for types, for output parameters or for array-like containers; default tokens mostly
stand for literals, constants, or for values without a literal form.

## Contents
- **Literals.** `Literal`, `Literal.text`, `Literal.type`; `literalStyle` for floats.
- **Sentinels and formers.** `Sentinel`, `Former`.
- **Values.** `Value`, `Value.text`, `Value.hint` (the type in a position), `Value.elementType`,
  `Value.zeroName?`.
-/

namespace CallSig

/-! ## Literals -/

/-- A literal of the host language. -/
inductive Literal
  | null
  | bool (b : Bool)
  | int (n : Int64)
  | float (x : Float)
  | str (s : String)
  | bytes (s : String)
  | emptyList
  | emptyDict
  | ellipsis
  deriving Repr

/-- Floats are written positionally from `1e-4` up to, but not including, `1e16`; a tie goes up. -/
def literalStyle : Decimal.Style := ⟨-4, 15, .up, false⟩

namespace Literal

/-- The host spelling of a literal. -/
def text : Literal → String
  | null => "None"
  | bool true => "True"
  | bool false => "False"
  | int n => toString n.toInt
  | float x => literalStyle.text x
  | str s => Text.quoted s
  | bytes s => "b" ++ Text.quoted s
  | emptyList => "[]"
  | emptyDict => "\x7b\x7d"
  | ellipsis => "..."

/-- The type of a literal. -/
def type : Literal → TypeExpr
  | null => .builtin .noneType
  | bool _ => .builtin .bool
  | int _ => .builtin .int
  | float _ => .builtin .float
  | str _ => .builtin .str
  | bytes _ => .builtin .bytes
  | emptyList => .generic .list []
  | emptyDict => .generic .dict []
  | ellipsis => .builtin .any

end Literal

/-! ## Sentinels and formers -/

/-- What a sentinel stands for. -/
inductive SentinelKind
  /-- An explicit absent value. -/
  | missing
  /-- An explicit invalid value. -/
  | invalid
  /-- A default-constructed value. -/
  | defaulted
  /-- A constructed value or a combination of flags. -/
  | constructed
  deriving Repr, DecidableEq

/-- The host spelling of a kind of sentinel. -/
def SentinelKind.name : SentinelKind → String
  | missing => "Missing"
  | invalid => "Invalid"
  | defaulted => "Default"
  | constructed => "Instance"

/-- A default value that has no literal form, with its native spelling. -/
structure Sentinel where
  kind : SentinelKind
  token : String
  deriving Repr, DecidableEq

/-- The host spelling of a sentinel. -/
def Sentinel.text (s : Sentinel) : String := s.kind.name ++ "(" ++ Text.quoted s.token ++ ")"

/-- Something that gives a type once it is applied to arguments. -/
inductive Former
  | container (kind : GenericKind)
  /-- A container that widens by position once it is applied. -/
  | arrayLike
  /-- A family of matrix classes: `N` rows and `M` columns name the class `stem`, `N`, `x`, `M`. -/
  | matrix (stem : String)
  deriving Repr, DecidableEq

/-- The host spelling of a former. -/
def Former.text : Former → String
  | container kind => kind.name
  | arrayLike => "ArrayLike"
  | matrix stem => stem ++ "NxM"

/-! ## Values -/

/-- What a native token stands for. -/
inductive Value
  | type (t : TypeExpr)
  | former (f : Former)
  /-- An output parameter, through which the callee writes a value of this type. -/
  | output (t : TypeExpr)
  /-- An array-like container with elements of this type. -/
  | arrayLike (t : TypeExpr)
  | literal (l : Literal)
  /-- A constant of a host module, by its dotted path. -/
  | constant (path : String)
  | sentinel (s : Sentinel)
  /-- A native token that could not be resolved, kept as it is spelled. -/
  | unmapped (token : String)
  deriving Repr

namespace Value

/-- A builtin type as a value. -/
def builtin (b : Builtin) : Value := type (.builtin b)

/-- Whether the value is the literal `None`. -/
def isNone : Value → Bool
  | literal .null => true
  | _ => false

/-- Whether the value marks an output parameter. -/
def isOutput : Value → Bool
  | output _ => true
  | _ => false

/-- Whether the value is a token that could not be resolved. -/
def isUnmapped : Value → Bool
  | unmapped _ => true
  | _ => false

/-- The spelling of a value. -/
def text : Value → String
  | type t => t.text
  | former f => f.text
  | output t => "ResultVariable(" ++ t.text ++ ")"
  | arrayLike t => "ArrayLikeVariable(" ++ t.text ++ ")"
  | literal l => l.text
  | constant path => path
  | sentinel s => s.text
  | unmapped token => Text.quoted token

/-- The type of a value in a position. An array-like container is a sequence as an argument and a list as a
result; an output parameter as a result is a list. What is no type is an unmapped type of the same spelling. -/
def hint (position : Position) : Value → TypeExpr
  | type t => t.widen position
  | former (.container kind) => (TypeExpr.generic kind []).widen position
  | former f => .unmapped f.text
  | arrayLike t => match position with
    | .argument => .sequence t
    | .result => .list t
  | output t => match position with
    | .argument => t
    | .result => .list t
  | literal .null => .builtin .noneType
  | literal l => .unmapped l.text
  | constant path => .unmapped path
  | sentinel s => .unmapped s.text
  | unmapped token => .unmapped token

/-- The type of a value inside the arguments of another type: nothing is widened there. -/
def elementType : Value → TypeExpr
  | output t => t
  | v => v.hint .result

/-- The name under which the zero of a builtin type is registered. -/
def zeroName? : Value → Option String
  | type (.builtin b) => some b.name
  | _ => none

end Value

end CallSig
