import CallSig.Text.Basic

/-!
# `CallSig.TypeExpr` — host types

What a native type token turns into once it is mapped to the host language, and how it is written there.

## Contents
- **Constructors.** `Builtin`, `GenericKind`, with their host spellings.
- **Types.** `TypeExpr`, `TypeExpr.text`.
- **Positions.** `Position`, `widen` (arguments accept any sequence), `orNone` (optional types).
-/

namespace CallSig

/-! ## Constructors -/

/-- The builtin types of the host language. -/
inductive Builtin
  | int
  | float
  | bool
  | str
  | bytes
  | byteArray
  | object
  | typeObject
  /-- `None` used as a type. -/
  | noneType
  | any
  deriving Repr, DecidableEq

/-- The host spelling of a builtin type. -/
def Builtin.name : Builtin → String
  | int => "int"
  | float => "float"
  | bool => "bool"
  | str => "str"
  | bytes => "bytes"
  | byteArray => "bytearray"
  | object => "object"
  | typeObject => "type"
  | noneType => "None"
  | any => "Any"

/-- The generic type constructors of the host language. -/
inductive GenericKind
  | list
  | sequence
  | dict
  | tuple
  | set
  | iterable
  | callable
  deriving Repr, DecidableEq

/-- The host spelling of a generic type constructor. -/
def GenericKind.name : GenericKind → String
  | list => "List"
  | sequence => "Sequence"
  | dict => "Dict"
  | tuple => "Tuple"
  | set => "Set"
  | iterable => "Iterable"
  | callable => "Callable"

/-! ## Types -/

/-- A host type. -/
inductive TypeExpr
  | builtin (b : Builtin)
  /-- A class of a host module, by its dotted path. -/
  | named (path : String) (args : List TypeExpr)
  /-- A generic type; without arguments it is the bare constructor. -/
  | generic (kind : GenericKind) (args : List TypeExpr)
  | optional (of : TypeExpr)
  /-- A native token without a host type, kept as it is spelled. -/
  | unmapped (token : String)
  deriving Repr, BEq

namespace TypeExpr

/-- Arguments in square brackets; no brackets for no arguments. -/
def bracketed (args : List String) : String :=
  if args.isEmpty then "" else "[" ++ Text.join ", " args ++ "]"

mutual

/-- The host spelling of a type. An unmapped token stands between single quotes, as it is. -/
def text : TypeExpr → String
  | builtin b => b.name
  | named path args => path ++ bracketed (texts args)
  | generic .tuple [] => "Tuple[()]"
  | generic kind args => kind.name ++ bracketed (texts args)
  | optional of => "Optional[" ++ text of ++ "]"
  | unmapped token => "'" ++ token ++ "'"

/-- The host spellings of types. -/
def texts : List TypeExpr → List String
  | [] => []
  | t :: ts => text t :: texts ts

end

/-- A class without arguments. -/
def ofPath (path : String) : TypeExpr := named path []

/-- The type of lists of `element`. -/
def list (element : TypeExpr) : TypeExpr := generic .list [element]

/-- The type of sequences of `element`. -/
def sequence (element : TypeExpr) : TypeExpr := generic .sequence [element]

/-- The type of tuples with these members. -/
def tuple (members : List TypeExpr) : TypeExpr := generic .tuple members

/-- Whether `None` is a value of the type without wrapping it. -/
def admitsNone : TypeExpr → Bool
  | optional _ => true
  | builtin .noneType => true
  | builtin .any => true
  | _ => false

/-- Whether the type is a native token without a host type. -/
def isUnmapped : TypeExpr → Bool
  | unmapped _ => true
  | _ => false

/-- The type that also admits `None`. -/
def orNone (t : TypeExpr) : TypeExpr := if t.admitsNone then t else optional t

end TypeExpr

/-! ## Positions -/

/-- The side of a call on which a type stands. -/
inductive Position
  | argument
  | result
  deriving Repr, DecidableEq

/-- The type in its position: an argument that is a list may be any sequence. Only the outermost constructor
changes. -/
def TypeExpr.widen (position : Position) (t : TypeExpr) : TypeExpr :=
  match position, t with
  | .argument, .generic .list args => .generic .sequence args
  | _, t => t

end CallSig
