import CallSig.Layout
import CallSig.Variant

/-!
# `CallSig.Rendering` — a variant under a layout

A rendering is what a layout shows of a variant that is bound in some way. It has a text for readers and, if it
shows names, a descriptor line that reads back to the same names and kinds.

## Contents
- **Bindings.** `Binding`, `Binding.implicitName?`.
- **Renderings.** `ShownDefault`, `ShownParam`, `Rendering`, `Variant.render`.
- **Arity.** `requiredArity`, `maxArity?`, `names`.
- **Texts.** `Rendering.text`, `Rendering.descriptorLine`.
- **Sets.** `SignatureSet`.
-/

namespace CallSig

/-! ## Bindings -/

/-- How a callable is bound to its owner. -/
inductive Binding
  | function
  | method
  | staticMethod
  | classMethod
  deriving Repr, DecidableEq

/-- The name of the parameter that the binding adds. -/
def Binding.implicitName? : Binding → Option String
  | method => some "self"
  | classMethod => some "cls"
  | _ => none

/-! ## Renderings -/

/-- A default as it is shown. -/
inductive ShownDefault
  | value (v : Value)
  | ellipsis
  deriving Repr

/-- The text of a shown default. -/
def ShownDefault.text : ShownDefault → String
  | value v => v.text
  | ellipsis => "..."

/-- A parameter as it is shown. -/
structure ShownParam where
  name? : Option String
  kind : ParamKind
  hint? : Option TypeExpr
  default? : Option ShownDefault
  /-- Whether the parameter has a default, shown or not. -/
  optional : Bool
  deriving Repr

/-- What a layout shows of a variant. -/
structure Rendering where
  params : List ShownParam
  result? : Option TypeExpr
  deriving Repr

namespace Variant

/-- The parameter that the binding adds in front, if the layout shows it. -/
def implicitParams (v : Variant) (binding : Binding) (layout : Layout) : List ShownParam :=
  match layout.definition, binding.implicitName? with
  | true, some name =>
    let kind := match v.params with
      | first :: _ => if first.kind = .positionalOnly then .positionalOnly else .positionalOrKeyword
      | [] => .positionalOrKeyword
    [⟨if layout.names then some name else none, kind, none, none, false⟩]
  | _, _ => []

/-- What the layout shows of a default. -/
def shownDefault (layout : Layout) (default? : Option Value) : Option ShownDefault :=
  if layout.showsDefaults then
    default?.map fun v => if layout.ellipsis then .ellipsis else .value v
  else none

/-- What the layout shows of a parameter with the given default. -/
def shownParam (layout : Layout) (p : Parameter) (default? : Option Value) : ShownParam where
  name? := if layout.names then some p.name else none
  kind := p.kind
  hint? := p.hint?
  default? := shownDefault layout default?
  optional := default?.isSome

/-- What a layout shows of a variant bound in some way. -/
def render (v : Variant) (binding : Binding) (layout : Layout) : Rendering where
  params :=
    v.implicitParams binding layout ++
      v.params.mapIdx fun i p => shownParam layout p (v.defaultAt i)
  result? := if layout.result then v.result? else none

end Variant

/-! ## Arity -/

namespace Rendering

/-- The number of positional arguments that a call must pass. -/
def requiredArity (r : Rendering) : Nat := r.params.countP fun p => p.kind.isPositional && !p.optional

/-- The number of positional arguments that a call may pass, if there is a bound. -/
def maxArity? (r : Rendering) : Option Nat :=
  if r.params.any fun p => p.kind == .varPositional then none
  else some (r.params.countP fun p => p.kind.isPositional)

/-- The names that are shown. -/
def names (r : Rendering) : List String := r.params.filterMap ShownParam.name?

end Rendering

/-! ## Texts -/

/-- The mark before a variadic parameter. -/
def ParamKind.sign : ParamKind → String
  | varPositional => "*"
  | varKeyword => "**"
  | _ => ""

/-- The text of a shown parameter: name and type, one of them, or three dots; then the default. -/
def ShownParam.text (p : ShownParam) : String :=
  let head := match p.name?, p.hint? with
    | some name, some t => name ++ ": " ++ t.text
    | some name, none => name
    | none, some t => t.text
    | none, none => "..."
  let tail := match p.default?, p.hint? with
    | some d, some _ => " = " ++ d.text
    | some d, none => "=" ++ d.text
    | none, _ => ""
  p.kind.sign ++ head ++ tail

/-- The spelling of a shown parameter as an argument of a descriptor line. -/
def ShownParam.item (p : ShownParam) : String :=
  let name := p.name?.getD "_"
  match p.kind with
  | .varPositional => "arg__1:..."
  | .varKeyword => name ++ ":..."
  | _ =>
    let type := (p.hint?.map TypeExpr.text).getD "object"
    name ++ ":" ++ type ++ match p.default? with
      | some d => "=" ++ d.text
      | none => ""

namespace Rendering

/-- A slash, if a positional-only parameter is followed by something else. -/
def slashAfter (p : ShownParam) (rest : List ShownParam) : List String :=
  if p.kind = .positionalOnly ∧ (rest.head?.map ShownParam.kind) ≠ some .positionalOnly then ["/"] else []

/-- The texts of the parameters with their markers; a star still has to be written before the first
keyword-only parameter if `star` is set. -/
def textItems (star : Bool) : List ShownParam → List String
  | [] => []
  | p :: rest =>
    let mark := star && p.kind == .keywordOnly
    (if mark then ["*"] else []) ++ p.text :: (slashAfter p rest ++ textItems (star && !mark) rest)

/-- The items of a descriptor line; a star still has to be written before the first keyword-only parameter, and
is no longer needed after a parameter that collects positional values, if `star` is set. -/
def lineItems (star : Bool) : List ShownParam → List String
  | [] => []
  | p :: rest =>
    let mark := star && p.kind == .keywordOnly
    (if mark then ["*"] else []) ++
      p.item :: (slashAfter p rest ++ lineItems (star && !mark && p.kind != .varPositional) rest)

/-- The text of a rendering. -/
def text (r : Rendering) : String :=
  let star := !r.params.any fun p => p.kind == .varPositional
  "(" ++ Text.join ", " (textItems star r.params) ++ ")" ++ match r.result? with
    | some t => " -> " ++ t.text
    | none => ""

/-- The descriptor line of a rendering under a name. -/
def descriptorLine (r : Rendering) (name : String) : String :=
  name ++ "(" ++ Text.join "," (lineItems true r.params) ++ ")" ++ match r.result? with
    | some t => "->" ++ t.text
    | none => ""

end Rendering

/-! ## Sets -/

/-- The renderings of all overloads of a member. -/
inductive SignatureSet
  | single (r : Rendering)
  | overloads (rs : List Rendering)
  deriving Repr

namespace SignatureSet

/-- The set of the renderings. -/
def ofList : List Rendering → SignatureSet
  | [r] => single r
  | rs => overloads rs

/-- The renderings in order. -/
def toList : SignatureSet → List Rendering
  | single r => [r]
  | overloads rs => rs

/-- Whether there is more than one overload. -/
def isOverloaded : SignatureSet → Bool
  | single _ => false
  | overloads _ => true

/-- The texts of the renderings, one a line. -/
def text (s : SignatureSet) : String := Text.join "\n" (s.toList.map Rendering.text)

end SignatureSet

end CallSig
