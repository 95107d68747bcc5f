import CallSig.Lexeme

/-!
# `CallSig.Lexeme.Pieces` — cutting lexemes at commas outside brackets

The three kinds of brackets are paired with one another, so `f(a, b)[c, d]` has one piece. Brackets must be
well nested and no deeper than a limit.

## Contents
- **Nesting.** `defaultDepth`, `Lexeme.cut` (the pieces, or the first fault in the nesting).
- **Pieces.** `Lexeme.pieces` (none for no lexemes), `Lexeme.splitText` (the texts of the pieces).
- **Parentheses.** `Lexeme.untilClose?` pairs round brackets and looks at no others.
-/

namespace CallSig.Lexeme

/-! ## Nesting -/

/-- The bracket depth accepted where nothing else is asked for. -/
def defaultDepth : Nat := 3

/-- The lexemes up to the first comma outside brackets, and the pieces between the later ones. The open
brackets, innermost first, are given with their spans. A fault is reported where it is met: an opening bracket
deeper than the limit, a closing one that does not match, or, at the end, the innermost bracket still open. -/
def cut (limit : Nat) : List (Bracket × Span) → List Lexeme →
    Except ParseError (List Lexeme × List (List Lexeme))
  | [], [] => .ok ([], [])
  | (b, span) :: _, [] => .error ⟨.unclosedBracket b, span⟩
  | opened, x :: xs =>
    match x.token with
    | .opening b =>
      if limit ≤ opened.length then .error ⟨.nestingTooDeep limit, x.span⟩
      else (cut limit ((b, x.span) :: opened) xs).map fun (piece, more) => (x :: piece, more)
    | .closing b =>
      match opened with
      | (b', _) :: outer =>
        if b' = b then (cut limit outer xs).map fun (piece, more) => (x :: piece, more)
        else .error ⟨.unbalancedBracket b, x.span⟩
      | [] => .error ⟨.unbalancedBracket b, x.span⟩
    | .comma =>
      match opened with
      | [] => (cut limit [] xs).map fun (piece, more) => ([], piece :: more)
      | _ => (cut limit opened xs).map fun (piece, more) => (x :: piece, more)
    | _ => (cut limit opened xs).map fun (piece, more) => (x :: piece, more)

/-! ## Pieces -/

/-- The pieces between the commas outside brackets; a piece may be empty. No lexemes have no pieces. -/
def pieces (limit : Nat) (xs : List Lexeme) : Except ParseError (List (List Lexeme)) :=
  if xs.isEmpty then .ok []
  else (cut limit [] xs).map fun (piece, more) => piece :: more

/-- The texts of the pieces of a text. -/
def splitText (limit : Nat) (cs : List Char) : Except ParseError (List (List Char)) := do
  let xs ← ofText cs
  let found ← pieces limit xs
  return found.map runText

/-! ## Parentheses -/

/-- The lexemes before the round bracket that closes `depth` further open ones and one more, and those
after it. -/
def untilClose? (depth : Nat) : List Lexeme → Option (List Lexeme × List Lexeme)
  | [] => none
  | x :: xs =>
    if x.token = .closing .round ∧ depth = 0 then some ([], xs)
    else
      let depth :=
        if x.token = .opening .round then depth + 1
        else if x.token = .closing .round then depth - 1
        else depth
      (untilClose? depth xs).map fun (inner, rest) => (x :: inner, rest)

end CallSig.Lexeme
