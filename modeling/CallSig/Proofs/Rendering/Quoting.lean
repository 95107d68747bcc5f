import CallSig.Lexicon.Modules
import CallSig.Proofs.Lexeme.Splitting
import CallSig.Proofs.Rendering.Pieces

/-!
# `CallSig.Proofs.Rendering.Quoting` — quoted values stay within their quotes

Strings, byte strings, sentinels and unmapped tokens carry a string that may hold any character. It is written between
single quotes with escapes. The literal is closed by the quote that was written last and by no earlier one, so whatever
stands behind a value is read on its own, and a comma there still separates. The escapes lose nothing, so values with
different strings are written differently. Values with the same string are told apart by the words around the quotes,
which a string and an unmapped token both have none of: these two are written alike, and no other two kinds are. None of
this holds of a type that stands for an unmapped token, which is written between quotes as it is.

## Contents
- **Quoted values.** `Quotation`, its words (`spelled_words`, `reads_words`, `words_inj`).
- **Reading.** `ofText_quoted`, `Quotation.scan_text`.
- **Splitting and comparing.** `Quotation.splitText_joined`, `Quotation.text_eq_iff`, `Quotation.closed_and_distinct`;
  `Quotation.unmapped_like_string`.
-/

namespace CallSig

open Text Word

/-! ## Quoted values -/

/-- The kinds of values that are written with a quoted string. -/
inductive Quotation
  | str
  | bytes
  | unmapped
  | sentinel (kind : SentinelKind)
  deriving Repr, DecidableEq

theorem SentinelKind.name_inj {kind kind' : SentinelKind} : kind.name = kind'.name ↔ kind = kind' := by
  cases kind <;> cases kind' <;> decide

namespace Quotation

/-- The value of this kind with a string. -/
def value (q : Quotation) (s : String) : Value :=
  match q with
  | str => .literal (.str s)
  | bytes => .literal (.bytes s)
  | unmapped => .unmapped s
  | sentinel kind => .sentinel ⟨kind, s⟩

/-- The words before the quotes. -/
def front : Quotation → List Word
  | str | unmapped => []
  | bytes => [.name ['b']]
  | sentinel kind => [.name kind.name.toList, .sign (.opening .round) '(']

/-- The words behind the quotes. -/
def back : Quotation → List Word
  | str | bytes | unmapped => []
  | sentinel _ => [.sign (.closing .round) ')']

/-- The words of a value: its string is one string literal. -/
def words (q : Quotation) (s : String) : List Word :=
  q.front ++ ⟨[], .stringLiteral, quote s.toList⟩ :: q.back

variable {q q' : Quotation} {s t : String}

theorem spelled_words (q : Quotation) (s : String) : spelled (q.words s) = (q.value s).text.toList := by
  cases q with
  | str | unmapped =>
    show quote s.toList ++ [] = (quoted s).toList
    rw [toList_quoted, List.append_nil]
  | bytes =>
    show 'b' :: (quote s.toList ++ []) = ("b" ++ quoted s).toList
    rw [String.toList_append, toList_quoted, List.append_nil]
    rfl
  | sentinel kind =>
    show kind.name.toList ++ '(' :: (quote s.toList ++ [')']) = (kind.name ++ "(" ++ quoted s ++ ")").toList
    rw [String.toList_append, String.toList_append, String.toList_append, toList_quoted, List.append_assoc,
      List.append_assoc]
    rfl

/-- **The words of a value are read as they are**, whatever follows: the last of them is a quote or a bracket. -/
theorem reads_words (q : Quotation) (s : String) (rest : List Char) : Reads (q.words s) rest := by
  cases q with
  | str | unmapped => exact ⟨reads_quote _ _, trivial⟩
  | bytes => exact ⟨reads_name (by decide) (endsName_cons (by decide) _), reads_quote _ _, trivial⟩
  | sentinel kind =>
    refine ⟨reads_name (isName_sentinel kind) (endsName_cons (by decide) _), reads_opener .round _, ?_⟩
    exact ⟨reads_quote _ _, reads_closer .round _, trivial⟩

/-- Values have the same words only if they have the same string; then they are of one kind, or one is a string and the
other one an unmapped token. -/
theorem words_inj :
    q.words s = q'.words t ↔ s = t ∧ (q = q' ∨ q = .str ∧ q' = .unmapped ∨ q = .unmapped ∧ q' = .str) := by
  cases q <;> cases q' <;>
    simp [words, front, back, name, sign, quote_inj, String.toList_inj, SentinelKind.name_inj, and_comm]

/-! ## Reading -/

/-- **A quoted string is one string literal**, which covers all of its text. -/
theorem ofText_quoted (s : String) :
    Lexeme.ofText (quoted s).toList = .ok [⟨.stringLiteral, [], (quoted s).toList, 0⟩] := by
  let x : Lexeme := ⟨.stringLiteral, [], quote s.toList, 0⟩
  have hx : x.word.ReadsBefore [] := reads_quote s.toList []
  have hscan : Lexeme.scan 0 (quote s.toList ++ []) = (Lexeme.scan x.span.stop []).map (x :: ·) :=
    Lexeme.scan_lexeme hx rfl
  rw [List.append_nil, Lexeme.scan_blanks (List.forall_mem_nil _)] at hscan
  rw [toList_quoted]
  exact hscan

/-- What follows a value is read on its own. -/
theorem scan_text (q : Quotation) (s : String) (start : Nat) (rest : List Char) :
    ∃ xs : List Lexeme, xs.map Lexeme.word = q.words s ∧
      Lexeme.scan start ((q.value s).text.toList ++ rest) =
        (Lexeme.scan (start + width (q.value s).text.toList) rest).map (xs ++ ·) := by
  rw [← spelled_words]
  exact Lexeme.scan_spelled (q.reads_words s rest) start

/-! ## Splitting and comparing -/

theorem isPiece_text (limit : Nat) (q : Quotation) (s : String) :
    Lexeme.IsPiece (limit + 1) (q.value s).text.toList := by
  have hpiece : Piece NoMark (q.value s).nesting (q.value s).text.toList := by
    refine piece_value ?_ ?_
    · cases q <;> trivial
    · cases q <;> exact List.forall_mem_nil _
  have hnesting : (q.value s).nesting ≤ limit + 1 := by
    cases q with
    | str | bytes | unmapped => exact Nat.zero_le _
    | sentinel kind => exact Nat.le_add_left 1 limit
  exact Lexeme.isPiece_of_splitText ((hpiece.standsAlone.single _).2 hnesting)

/-- Values with commas between them are split into these values, if one bracket may be open. -/
theorem splitText_joined (limit : Nat) (vs : List (Quotation × String)) :
    Lexeme.splitText (limit + 1) ([','].intercalate (vs.map fun v => (v.1.value v.2).text.toList)) =
      .ok (vs.map fun v => (v.1.value v.2).text.toList) := by
  refine Lexeme.splitText_intercalate ?_ ?_
  · intro hnil
    obtain ⟨v, rfl, hv⟩ := List.map_eq_singleton_iff.1 hnil
    rw [← spelled_words] at hv
    simp [words, quote] at hv
  · rintro _ htext
    obtain ⟨v, -, rfl⟩ := List.mem_map.1 htext
    exact isPiece_text limit v.1 v.2

/-- Values are written alike only if they have the same string; then they are of one kind, or one is a string and the
other one an unmapped token. -/
theorem text_eq_iff :
    (q.value s).text = (q'.value t).text ↔
      s = t ∧ (q = q' ∨ q = .str ∧ q' = .unmapped ∨ q = .unmapped ∧ q' = .str) := by
  rw [← words_inj, ← String.toList_inj, ← spelled_words, ← spelled_words]
  refine ⟨fun h => ?_, congrArg spelled⟩
  obtain ⟨xs, hxs, hwords⟩ := Lexeme.ofText_spelled (q.reads_words s [])
  obtain ⟨ys, hys, hwords'⟩ := Lexeme.ofText_spelled (q'.reads_words t [])
  rw [h, hys] at hxs
  rw [← hwords, ← hwords', Except.ok.inj hxs]

/-- **Quoting is safe and tells strings apart.** A quoted string is one string literal and no other string is quoted so.
Hence a value with a quoted string is read as its own words whatever follows it, and no comma beside it is lost. Two of
them are written alike only if they have the same string and are of one kind, but for a string and an unmapped token. -/
theorem closed_and_distinct :
    (∀ s, Lexeme.ofText (quoted s).toList = .ok [⟨.stringLiteral, [], (quoted s).toList, 0⟩]) ∧
    (∀ s t, quoted s = quoted t ↔ s = t) ∧
    (∀ (q : Quotation) s start rest, ∃ xs : List Lexeme, xs.map Lexeme.word = q.words s ∧
      Lexeme.scan start ((q.value s).text.toList ++ rest) =
        (Lexeme.scan (start + width (q.value s).text.toList) rest).map (xs ++ ·)) ∧
    (∀ limit (vs : List (Quotation × String)),
      Lexeme.splitText (limit + 1) ([','].intercalate (vs.map fun v => (v.1.value v.2).text.toList)) =
        .ok (vs.map fun v => (v.1.value v.2).text.toList)) ∧
    ∀ (q q' : Quotation) s t, (q.value s).text = (q'.value t).text ↔
      s = t ∧ (q = q' ∨ q = .str ∧ q' = .unmapped ∨ q = .unmapped ∧ q' = .str) :=
  ⟨ofText_quoted, fun _ _ => quoted_inj, scan_text, splitText_joined, fun _ _ _ _ => text_eq_iff⟩

/-- **A string and an unmapped token are written alike.** Both defaults of `f(a:int=Foo,b:str='Foo')` are shown as
`'Foo'`: the first one is a token that could not be mapped, and the second one is a string. -/
theorem unmapped_like_string :
    (¬∀ (q q' : Quotation) s t, (q.value s).text = (q'.value t).text → q.value s = q'.value t) ∧
      ((Descriptor.parse 3 "f(a:int=Foo,b:str='Foo')").toOption.bind fun d =>
        (Variant.assemble 3 [] none d Lexicon.baseline).1.toOption).map (fun v =>
          ((v.render .function .full).text, (v.defaultAt 0).map Value.isUnmapped,
            (v.defaultAt 1).map Value.isUnmapped)) =
        some ("(a: int = 'Foo', b: str = 'Foo')", some true, some false) := by
  refine ⟨fun h => ?_, by decide +kernel⟩
  have halike : Value.unmapped "Foo" = .literal (.str "Foo") := h .unmapped .str "Foo" "Foo" rfl
  cases halike

end Quotation
end CallSig
