import CallSig.Json

/-!
# `CallSig.Layout` — which parts of a signature are shown

A layout is five switches. Four layouts have names; a switch can be set by its name.

## Contents
- **Switches.** `Switch`, `Switch.name`, `Switch.ofName?`.
- **Layouts.** `Layout`, the named ones, `Layout.ofName`.
- **Changes.** `LayoutError`, `get`, `put`, `set`, `setAll`, `showsDefaults`.
-/

namespace CallSig

/-! ## Switches -/

/-- The parts of a signature that can be shown or hidden. -/
inductive Switch
  /-- The implicit first parameter of methods. -/
  | definition
  | defaults
  /-- Three dots in place of each default. -/
  | ellipsis
  | result
  | names
  deriving Repr, DecidableEq

namespace Switch

/-- The name of a switch. -/
def name : Switch → String
  | definition => "definition"
  | defaults => "defaults"
  | ellipsis => "ellipsis"
  | result => "return_annotation"
  | names => "parameter_names"

/-- All switches. -/
def all : List Switch := [definition, defaults, ellipsis, result, names]

/-- The switch with a name. -/
def ofName? (name : String) : Option Switch := all.find? (·.name == name)

end Switch

/-! ## Layouts -/

/-- What is wrong with a name of a layout or with a change to one. -/
inductive LayoutError
  | unknownSwitch (name : String)
  | unknownLayout (name : String)
  | notBoolean (switch : Switch) (value : Json)

/-- The error in words; the rejected value is shown as compact JSON. -/
def LayoutError.message : LayoutError → String
  | unknownSwitch name => s!"Unknown layout switch: {name}"
  | unknownLayout name => s!"Unknown layout: {name}"
  | notBoolean switch value => s!"Layout switch '{switch.name}' expects a boolean, got {value.compact}"

/-- Which parts of a signature are shown. -/
structure Layout where
  definition : Bool
  defaults : Bool
  ellipsis : Bool
  result : Bool
  names : Bool
  deriving Repr, DecidableEq

namespace Layout

/-- Everything is shown. -/
def full : Layout := ⟨true, true, false, true, true⟩

/-- Only the kinds and types of the parameters are shown. -/
def existence : Layout := ⟨false, false, false, false, false⟩

/-- Everything is shown, with three dots for each default. -/
def hintingStub : Layout := { full with ellipsis := true }

/-- The shape that is shown when no overload fits. -/
def errorMessage : Layout := { existence with defaults := true }

/-- The layout with a name. -/
def ofName (name : String) : Except LayoutError Layout :=
  match name with
  | "signature" => .ok full
  | "existence" => .ok existence
  | "hintingstub" => .ok hintingStub
  | "typeerror" => .ok errorMessage
  | _ => .error (.unknownLayout name)

/-! ## Changes -/

/-- The state of a switch. -/
def get (l : Layout) : Switch → Bool
  | .definition => l.definition
  | .defaults => l.defaults
  | .ellipsis => l.ellipsis
  | .result => l.result
  | .names => l.names

/-- The layout with a switch in the given state. -/
def put (l : Layout) (switch : Switch) (flag : Bool) : Layout :=
  match switch with
  | .definition => { l with definition := flag }
  | .defaults => { l with defaults := flag }
  | .ellipsis => { l with ellipsis := flag }
  | .result => { l with result := flag }
  | .names => { l with names := flag }

/-- Sets the switch with a name to a JSON value, which must be a boolean. -/
def set (l : Layout) (name : String) (value : Json) : Except LayoutError Layout :=
  match Switch.ofName? name with
  | none => .error (.unknownSwitch name)
  | some switch =>
    match value with
    | .bool flag => .ok (l.put switch flag)
    | value => .error (.notBoolean switch value)

/-- Sets several switches, up to the first failure. -/
def setAll (l : Layout) : List (String × Json) → Except LayoutError Layout
  | [] => .ok l
  | (name, value) :: changes => (l.set name value).bind fun l => l.setAll changes

/-- Whether defaults are shown: without names there are none. -/
def showsDefaults (l : Layout) : Bool := l.defaults && l.names

end Layout

end CallSig
