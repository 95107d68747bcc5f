import CallSig.Proofs.Catalog.BracketDepth
import CallSig.Proofs.Lexeme.Literals
import CallSig.Proofs.Resolution.Defaults
import CallSig.Proofs.Text.Quoting

/-!
# `CallSig.Proofs.Resolution.Quoted` — printed strings as default tokens

A string is printed between single quotes, with a backslash before what would end the literal or could not be seen. The
scanner knows these escapes, and takes the printed string for one literal. The evaluator does not look for them: it takes
what stands between the quotes as it is. So a printed string that is resolved as a default is the string with its escapes
written out, and it is the same string only if it has none.

## Contents
- **Quoted expressions.** `quotedBy`, `integer?_quotedBy`, `float?_quotedBy`, `string?_quotedBy`, `evaluate_quotedBy`.
- **Default tokens.** `value?_ofToken_quotedBy`, `resolveValue_quotedBy`; `known?_baseline_quotedBy`.
- **Printed strings.** `resolveValue_str`, `printed_strings_reread`, `apostrophe_reread`.
-/

namespace CallSig

open Text

/-! ## Quoted expressions -/

namespace Expression

/-- A text between two equal quotes. -/
def quotedBy (quote : Char) (inner : List Char) : List Char := quote :: (inner ++ [quote])

/-- The quotes that a string literal may stand between. -/
def IsQuote (quote : Char) : Prop := quote = '"' ∨ quote = '\''

variable {quote : Char} {inner : List Char}

theorem reverse_quotedBy : (quotedBy quote inner).reverse = quote :: (inner.reverse ++ [quote]) := by
  simp [quotedBy]

theorem getLast?_quotedBy : (quotedBy quote inner).getLast? = some quote := by
  rw [← List.head?_reverse, reverse_quotedBy]
  rfl

theorem tight_quotedBy (h : IsQuote quote) : Tight (quotedBy quote inner) := by
  have hquote : isBlank quote = false := by rcases h with rfl | rfl <;> decide
  constructor
  · rintro _ ⟨⟩
    exact hquote
  · intro c hc
    rw [getLast?_quotedBy] at hc
    cases hc
    exact hquote

theorem integer?_quotedBy (h : IsQuote quote) : integer? (quotedBy quote inner) = none := by
  have hsuffix : isIntegerSuffix quote = false := by rcases h with rfl | rfl <;> decide
  have hbody : ((quotedBy quote inner).reverse.dropWhile isIntegerSuffix).reverse = quotedBy quote inner := by
    rw [reverse_quotedBy, List.dropWhile_cons_of_neg (by simp [hsuffix]), ← reverse_quotedBy, List.reverse_reverse]
  unfold integer?
  rw [hbody]
  rcases h with rfl | rfl <;> rfl

theorem float?_quotedBy (h : IsQuote quote) : float? (quotedBy quote inner) = none := by
  unfold float?
  rw [getLast?_quotedBy]
  rcases h with rfl | rfl <;> rfl

theorem string?_quotedBy (h : IsQuote quote) : string? (quotedBy quote inner) = some (String.ofList inner) := by
  unfold string? quotedBy
  dsimp only
  rw [if_pos ⟨h, List.getLast?_concat⟩, List.dropLast_concat]

/-- **A quoted text is what stands between its quotes**, with all its backslashes. -/
theorem evaluate_quotedBy (h : IsQuote quote) (definitions : Dict Value) :
    evaluate definitions (String.ofList (quotedBy quote inner)) = some (.literal (.str (String.ofList inner))) := by
  unfold evaluate
  dsimp only
  rw [String.toList_ofList, (tight_quotedBy h).trim_eq, integer?_quotedBy h, float?_quotedBy h, string?_quotedBy h]
  rfl

end Expression

/-! ## Default tokens -/

namespace Lexicon

open Expression

variable {l : Lexicon} {quote : Char} {inner : List Char}

theorem defaultConstructed?_quotedBy (h : IsQuote quote) :
    defaultConstructed? (String.ofList (quotedBy quote inner)) = none := by
  unfold defaultConstructed?
  rw [String.toList_ofList, reverse_quotedBy]
  rcases h with rfl | rfl <;> rfl

theorem value?_ofToken_quotedBy (h : IsQuote quote) (definitions : Dict Value) :
    (Search.ofToken none (String.ofList (quotedBy quote inner))).value? definitions =
      some (.literal (.str (String.ofList inner))) := by
  have hexpression : (Search.expression (String.ofList (quotedBy quote inner))).value? definitions =
      some (.literal (.str (String.ofList inner))) := by
    unfold Search.expression
    dsimp only
    rw [defaultConstructed?_quotedBy h]
    exact evaluate_quotedBy h definitions
  show ((Search.expression _).value? definitions).or none = _
  rw [hexpression]
  rfl

/-- A quoted token without an entry is resolved to what stands between its quotes. -/
theorem resolveValue_quotedBy (h : IsQuote quote) (hno : ∀ t, l.aliases.get? t = none)
    (hknown : l.known? (String.ofList (quotedBy quote inner)) = none) (depth : Nat) :
    (resolveValue depth none (String.ofList (quotedBy quote inner)) l).1 =
      .literal (.str (String.ofList inner)) := by
  have htight : Tight (quotedBy quote inner) := tight_quotedBy h
  have htrimmed := trimmed_of_tight htight
  rw [resolveValue_of_unknown hno (by rw [htrimmed]; exact hknown), settle_eq, htrimmed, value?_ofToken_quotedBy h]
  rfl

/-- No token of the baseline stands between single quotes. -/
theorem known?_baseline_quotedBy (inner : List Char) :
    baseline.known? (String.ofList (quotedBy '\'' inner)) = none := by
  have hnone : ∀ e ∈ Vocabulary.baseline.tokens, e.1.toList.head? ≠ some '\'' := by decide +kernel
  rw [known?_baseline, Option.eq_none_iff_forall_ne_some]
  intro v hv
  apply hnone _ (mem_of_lastOf? hv)
  rw [String.toList_ofList]
  rfl

/-! ## Printed strings -/

/-- A printed string is resolved to the string with its escapes written out. -/
theorem resolveValue_str (depth : Nat) (s : String) :
    (resolveValue depth none (Literal.str s).text baseline).1 =
      .literal (.str (String.ofList (s.toList.flatMap escape))) :=
  resolveValue_quotedBy (.inr rfl) get?_aliases_baseline (known?_baseline_quotedBy _) depth

/-- **Printed strings are read again with their escapes**: over the baseline, the printed form of a string is resolved to
the string in which every quote, backslash, line feed and tab is written as in the printed form. This is the same string
exactly if it has none of these characters. -/
theorem printed_strings_reread (depth : Nat) (s : String) :
    (resolveValue depth none (Literal.str s).text baseline).1 =
        .literal (.str (String.ofList (s.toList.flatMap escape))) ∧
      ((resolveValue depth none (Literal.str s).text baseline).1 = .literal (.str s) ↔
        ∀ c ∈ s.toList, c ∉ ['\'', '\\', '\n', '\t']) := by
  refine ⟨resolveValue_str depth s, ?_⟩
  have hsame : Value.literal (.str (String.ofList (s.toList.flatMap escape))) = .literal (.str s) ↔
      s.toList.flatMap escape = s.toList := by
    simp [← String.toList_inj]
  rw [resolveValue_str, hsame, flatMap_escape_eq_self_iff]
  simp [needsEscape, and_assoc]

/-- The printed form of `it's` is resolved to a string that has a backslash. -/
theorem apostrophe_reread :
    (Literal.str "it's").text = "'it\\'s'" ∧
      (resolveValue 3 none (Literal.str "it's").text baseline).1 = .literal (.str "it\\'s") ∧
      (resolveValue 3 none (Literal.str "it's").text baseline).1 ≠ .literal (.str "it's") := by
  have hvalue : (resolveValue 3 none (Literal.str "it's").text baseline).1 = .literal (.str "it\\'s") := by
    have hescaped : String.ofList ("it's".toList.flatMap escape) = "it\\'s" := by decide +kernel
    rw [resolveValue_str, hescaped]
  refine ⟨by decide +kernel, hvalue, ?_⟩
  rw [hvalue]
  simp

end Lexicon
end CallSig
