import CallSig.Lexeme.Pieces

/-!
# `CallSig.Proofs.Lexeme.Cutting` — runs that are not cut

Cutting at commas and looking for the closing bracket both go through a list from its beginning. What they do at
some place does not depend on a run before it that has no commas outside brackets, or no round brackets.

## Contents
- **Commas.** `Passes`, `passes_plain`, `passes_bracketed`, `cut_passes_end`, `cut_passes_comma`.
- **Parentheses.** `untilClose?_append`.
-/

namespace CallSig
namespace Lexeme

/-! ## Commas -/

/-- Cutting goes through these lexemes and leaves them in one piece. -/
def Passes (limit : Nat) (opened : List (Bracket × Span)) (xs : List Lexeme) : Prop :=
  ∀ ys, cut limit opened (xs ++ ys) = (cut limit opened ys).map fun (piece, more) => (xs ++ piece, more)

/-- The token is no bracket and no comma. -/
def Plain : Token → Prop
  | .opening _ => False
  | .closing _ => False
  | .comma => False
  | _ => True

theorem cut_plain {limit : Nat} {opened : List (Bracket × Span)} {x : Lexeme} (h : Plain x.token) (ys : List Lexeme) :
    cut limit opened (x :: ys) = (cut limit opened ys).map fun (piece, more) => (x :: piece, more) := by
  rw [cut.eq_def]
  cases hx : x.token with
  | opening b | closing b | comma =>
    rw [hx] at h
    exact h.elim
  | _ =>
    -- the match on the open brackets comes first
    cases opened with
    | nil => simp only [hx]
    | cons outer more => simp only [hx]

theorem cut_opening {limit : Nat} {opened : List (Bracket × Span)} {x : Lexeme} {b : Bracket}
    (hx : x.token = .opening b) (hlimit : opened.length < limit) (ys : List Lexeme) :
    cut limit opened (x :: ys) =
      (cut limit ((b, x.span) :: opened) ys).map fun (piece, more) => (x :: piece, more) := by
  rw [cut.eq_def]
  cases opened with
  | nil => simp only [hx, if_neg (Nat.not_le_of_lt hlimit)]
  | cons outer more => simp only [hx, if_neg (Nat.not_le_of_lt hlimit)]

theorem cut_closing {limit : Nat} {opened : List (Bracket × Span)} {x : Lexeme} {b : Bracket} {span : Span}
    (hx : x.token = .closing b) (ys : List Lexeme) :
    cut limit ((b, span) :: opened) (x :: ys) =
      (cut limit opened ys).map fun (piece, more) => (x :: piece, more) := by
  rw [cut.eq_def]
  simp only [hx, if_true]

theorem cut_comma {limit : Nat} {x : Lexeme} (hx : x.token = .comma) (ys : List Lexeme) :
    cut limit [] (x :: ys) = (cut limit [] ys).map fun (piece, more) => ([], piece :: more) := by
  rw [cut.eq_def]
  simp only [hx]

theorem Passes.append {limit : Nat} {opened : List (Bracket × Span)} {xs ys : List Lexeme}
    (hx : Passes limit opened xs) (hy : Passes limit opened ys) : Passes limit opened (xs ++ ys) := by
  intro zs
  rw [List.append_assoc, hx, hy]
  cases cut limit opened zs with
  | error e => rfl
  | ok found => simp only [Except.map, List.append_assoc]

theorem passes_plain {limit : Nat} {opened : List (Bracket × Span)} {xs : List Lexeme}
    (h : ∀ x ∈ xs, Plain x.token) : Passes limit opened xs := by
  induction xs with
  | nil =>
    intro ys
    rw [List.nil_append]
    cases cut limit opened ys with
    | error e => rfl
    | ok found => rfl
  | cons x xs ih =>
    have hx : Passes limit opened [x] := cut_plain (h x List.mem_cons_self)
    exact hx.append (ih fun y hy => h y (List.mem_cons_of_mem _ hy))

/-- A pair of brackets around a run that passes, where one more bracket may be opened. -/
theorem passes_bracketed {limit : Nat} {opened : List (Bracket × Span)} {b : Bracket} {x y : Lexeme}
    {xs : List Lexeme} (hx : x.token = .opening b) (hy : y.token = .closing b) (hlimit : opened.length < limit)
    (h : Passes limit ((b, x.span) :: opened) xs) : Passes limit opened (x :: (xs ++ [y])) := by
  intro ys
  -- inside, the opened bracket is on the stack, and the closing one takes it off again
  rw [List.cons_append, List.append_assoc, List.singleton_append, cut_opening hx hlimit, h, cut_closing hy]
  cases cut limit opened ys with
  | error e => rfl
  | ok found => simp [Except.map]

theorem cut_passes_end {limit : Nat} {xs : List Lexeme} (h : Passes limit [] xs) :
    cut limit [] xs = .ok (xs, []) := by
  have hcut := h []
  rw [List.append_nil, cut] at hcut
  rw [hcut]
  simp [Except.map]

theorem cut_passes_comma {limit : Nat} {xs : List Lexeme} (h : Passes limit [] xs) {x : Lexeme}
    (hx : x.token = .comma) (ys : List Lexeme) :
    cut limit [] (xs ++ x :: ys) = (cut limit [] ys).map fun (piece, more) => (xs, piece :: more) := by
  rw [h, cut_comma hx]
  cases cut limit [] ys with
  | error e => rfl
  | ok found => simp [Except.map]

/-! ## Parentheses -/

/-- The token is no round bracket. -/
def NotRound (token : Token) : Prop := token ≠ .opening .round ∧ token ≠ .closing .round

/-- A run without round brackets ends at the closing bracket after it. -/
theorem untilClose?_append {xs : List Lexeme} (h : ∀ x ∈ xs, NotRound x.token) {y : Lexeme}
    (hy : y.token = .closing .round) (ys : List Lexeme) : untilClose? 0 (xs ++ y :: ys) = some (xs, ys) := by
  induction xs with
  | nil =>
    rw [List.nil_append, untilClose?, if_pos ⟨hy, rfl⟩]
  | cons x xs ih =>
    obtain ⟨ho, hc⟩ := h x List.mem_cons_self
    have htail := ih fun z hz => h z (List.mem_cons_of_mem _ hz)
    -- no round bracket in the run, so the depth stays zero
    rw [List.cons_append, untilClose?, if_neg fun hx => hc hx.1]
    simp only [if_neg ho, if_neg hc]
    rw [htail]
    rfl

end Lexeme
end CallSig
