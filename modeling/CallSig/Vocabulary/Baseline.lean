import CallSig.Vocabulary

/-!
# `CallSig.Vocabulary.Baseline` — the vocabulary that is always there

The native primitives and standard containers, the spellings of their pointers, common default values, and the
zeros of the builtin types.

## Contents
- **Spellings.** Integers, floats, strings, outputs, arrays, containers.
- **Vocabulary.** `Vocabulary.baseline`, the module `baselineName`.
-/

namespace CallSig.Vocabulary

/-! ## Spellings -/

/-- The builtin types under their own names. -/
def ownNames : List (String × Builtin) :=
  [("int", .int), ("float", .float), ("bool", .bool), ("str", .str), ("bytes", .bytes),
   ("bytearray", .byteArray), ("object", .object), ("type", .typeObject)]

/-- Native spellings of the integer type. -/
def integerTokens : List String :=
  ["int", "char", "signed char", "unsigned char", "short", "unsigned short", "long", "unsigned long",
   "long long", "unsigned long long", "unsigned", "unsigned int", "int8_t", "int16_t", "int32_t", "int64_t",
   "uint8_t", "uint16_t", "uint32_t", "uint64_t", "size_t", "ssize_t", "intptr_t", "uintptr_t", "void*"]

/-- Native spellings of the float type. -/
def floatTokens : List String := ["float", "double", "long double"]

/-- Native spellings of the string type. -/
def stringTokens : List String :=
  ["str", "char*", "const char*", "std.string", "std.wstring", "std.string_view", "wchar_t*"]

/-- Native spellings of the other builtin types. -/
def otherTokens : List (String × Builtin) :=
  [("void", .noneType), ("Any", .any), ("PyObject", .object), ("PyBytes", .bytes), ("PyByteArray", .byteArray),
   ("PyTypeObject", .typeObject), ("PyUnicode", .str)]

/-- Pointers that the callee writes through. -/
def outputTokens : List (String × Builtin) :=
  [("bool*", .bool), ("int*", .int), ("unsigned int*", .int), ("short*", .int), ("long*", .int),
   ("long long*", .int), ("unsigned long long*", .int), ("float*", .float), ("double*", .float)]

/-- Pointers to arrays. -/
def arrayTokens : List (String × Builtin) :=
  [("array double*", .float), ("array float*", .float), ("array int*", .int), ("array unsigned int*", .int),
   ("array short*", .int)]

/-- Containers that become a generic type of the host. -/
def containerTokens : List (String × GenericKind) :=
  [("List", .list), ("Sequence", .sequence), ("Dict", .dict), ("Tuple", .tuple), ("Set", .set),
   ("Iterable", .iterable), ("Callable", .callable), ("std.map", .dict), ("std.unordered_map", .dict),
   ("std.multimap", .dict), ("std.set", .set), ("std.unordered_set", .set), ("std.pair", .tuple),
   ("std.tuple", .tuple), ("std.function", .callable)]

/-- Containers that widen by position. -/
def arrayLikeTokens : List String := ["std.vector", "std.list", "std.deque"]

/-- Spellings of literals. -/
def literalTokens : List (String × Literal) :=
  [("nullptr", .null), ("NULL", .null), ("None", .null), ("true", .bool true), ("True", .bool true),
   ("false", .bool false), ("False", .bool false), ("...", .ellipsis), ("\x7b\x7d", .emptyDict),
   ("[]", .emptyList), ("\"\"", .str "")]

/-- The zeros of builtin types, by the host names of the types. -/
def zeros : List (String × Literal) :=
  [("int", .int 0), ("float", .float 0.0), ("bool", .bool false), ("str", .str ""), ("bytes", .bytes ""),
   ("object", .null), ("Any", .null)]

/-- The token under which the zero of a builtin type is registered. -/
def zeroToken (name : String) : String := "zero(" ++ name ++ ")"

/-! ## Vocabulary -/

/-- The module of the baseline vocabulary. -/
def baselineName : String := "builtins"

/-- The baseline vocabulary; of two entries for a token the later one counts. -/
def baseline : Vocabulary where
  name := baselineName
  definitions :=
    ownNames.map (fun (name, b) => (name, .builtin b)) ++
      [("None", .literal .null), ("True", .literal (.bool true)), ("False", .literal (.bool false))]
  tokens :=
    ownNames.map (fun (name, b) => (name, .builtin b)) ++
      integerTokens.map (·, .builtin .int) ++
      floatTokens.map (·, .builtin .float) ++
      stringTokens.map (·, .builtin .str) ++
      otherTokens.map (fun (token, b) => (token, .builtin b)) ++
      outputTokens.map (fun (token, b) => (token, .output (.builtin b))) ++
      arrayTokens.map (fun (token, b) => (token, .arrayLike (.builtin b))) ++
      containerTokens.map (fun (token, kind) => (token, .former (.container kind))) ++
      arrayLikeTokens.map (·, .former .arrayLike) ++
      literalTokens.map (fun (token, l) => (token, .literal l)) ++
      zeros.map (fun (name, l) => (zeroToken name, .literal l))
  aliases := []

end CallSig.Vocabulary
