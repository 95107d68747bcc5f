import CallSig.Text.Quoted

/-!
# `CallSig.Proofs.Text.Quoting` — escapes and what they stand for

Between quotes a character stands for itself or is written as a backslash and one more character. Which of the two it
is, and what the second character stands for, is said here once. A text without such characters is written as it is, any
other becomes longer; and since reading the escapes gives a text back, different texts are written differently.

## Contents
- **Reading escapes.** `unescape`, `escape_cases`, `unescape_flatMap_escape`.
- **Texts without escapes.** `needsEscape`, `length_le_flatMap_escape`, `flatMap_escape_eq_self_iff`.
- **Quoted texts.** `toList_quoted`, `quote_inj`, `quoted_inj`.
-/

namespace CallSig.Text

/-! ## Reading escapes -/

/-- What a character behind a backslash stands for. -/
def unescapeChar (c : Char) : Char :=
  if c = 'n' then '\n' else if c = 't' then '\t' else c

/-- The text that is written so between quotes. -/
def unescape : List Char → List Char
  | [] => []
  | '\\' :: c :: cs => unescapeChar c :: unescape cs
  | c :: cs => c :: unescape cs

/-- The written form of a character inside quotes is a backslash and a character that stands for it, or the plain
character. -/
theorem escape_cases (c : Char) :
    (∃ d, escape c = ['\\', d] ∧ d ≠ '\n' ∧ unescapeChar d = c) ∨ (escape c = [c] ∧ c ≠ '\'' ∧ c ≠ '\\') := by
  unfold escape
  by_cases hquote : c = '\''
  · exact .inl ⟨'\'', if_pos hquote, by decide, hquote.symm⟩
  by_cases hbackslash : c = '\\'
  · exact .inl ⟨'\\', by rw [if_neg hquote, if_pos hbackslash], by decide, hbackslash.symm⟩
  by_cases hfeed : c = '\n'
  · exact .inl ⟨'n', by rw [if_neg hquote, if_neg hbackslash, if_pos hfeed], by decide, hfeed.symm⟩
  by_cases htab : c = '\t'
  · exact .inl ⟨'t', by rw [if_neg hquote, if_neg hbackslash, if_neg hfeed, if_pos htab], by decide, htab.symm⟩
  · exact .inr ⟨by rw [if_neg hquote, if_neg hbackslash, if_neg hfeed, if_neg htab], hquote, hbackslash⟩

theorem unescape_plain {c : Char} (h : c ≠ '\\') (cs : List Char) : unescape (c :: cs) = c :: unescape cs := by
  rw [unescape]
  rintro d ds rfl
  exact absurd rfl h

/-- **Reading the escapes** of a text gives the text back. -/
theorem unescape_flatMap_escape (cs : List Char) : unescape (cs.flatMap escape) = cs := by
  induction cs with
  | nil => rfl
  | cons c cs ih =>
    rw [List.flatMap_cons]
    rcases escape_cases c with ⟨d, hescape, -, hd⟩ | ⟨hescape, -, hbackslash⟩
    · rw [hescape, List.cons_append, List.singleton_append, unescape, hd, ih]
    · rw [hescape, List.singleton_append, unescape_plain hbackslash, ih]

/-! ## Texts without escapes -/

/-- The characters that are printed with a backslash. -/
def needsEscape (c : Char) : Bool := c == '\'' || c == '\\' || c == '\n' || c == '\t'

theorem escape_of_not_needsEscape {c : Char} (h : needsEscape c = false) : escape c = [c] := by
  simp only [needsEscape, Bool.or_eq_false_iff, beq_eq_false_iff_ne] at h
  simp [escape, h]

theorem length_escape_of_needsEscape {c : Char} (h : needsEscape c = true) : (escape c).length = 2 := by
  simp only [needsEscape, Bool.or_eq_true, beq_iff_eq] at h
  rcases h with ((rfl | rfl) | rfl) | rfl <;> rfl

theorem length_le_flatMap_escape (cs : List Char) : cs.length ≤ (cs.flatMap escape).length := by
  induction cs with
  | nil => exact Nat.le_refl 0
  | cons c cs ih =>
    rw [List.flatMap_cons, List.length_append, List.length_cons]
    cases hc : needsEscape c with
    | true =>
      have hlength := length_escape_of_needsEscape hc
      omega
    | false =>
      rw [escape_of_not_needsEscape hc, List.length_singleton]
      omega

/-- **Escaping changes a text** exactly if some character needs it: it makes the text longer. -/
theorem flatMap_escape_eq_self_iff {cs : List Char} :
    cs.flatMap escape = cs ↔ ∀ c ∈ cs, needsEscape c = false := by
  induction cs with
  | nil => simp
  | cons c cs ih =>
    rw [List.flatMap_cons, List.forall_mem_cons, ← ih]
    cases hc : needsEscape c with
    | true =>
      have hlength := length_escape_of_needsEscape hc
      have hle := length_le_flatMap_escape cs
      constructor
      · intro h
        have hsame := congrArg List.length h
        simp only [List.length_append, List.length_cons] at hsame
        omega
      · rintro ⟨⟨⟩, -⟩
    | false =>
      rw [escape_of_not_needsEscape hc, List.singleton_append]
      constructor
      · intro h
        exact ⟨rfl, (List.cons.inj h).2⟩
      · rintro ⟨-, h⟩
        rw [h]

/-! ## Quoted texts -/

theorem toList_quoted (s : String) : (quoted s).toList = quote s.toList := String.toList_ofList

theorem quote_inj {cs ds : List Char} : quote cs = quote ds ↔ cs = ds := by
  refine ⟨fun h => ?_, congrArg quote⟩
  have hinner : cs.flatMap escape = ds.flatMap escape := List.append_cancel_right (List.cons.inj h).2
  rw [← unescape_flatMap_escape cs, hinner, unescape_flatMap_escape]

/-- **Different strings are quoted differently.** -/
theorem quoted_inj {s t : String} : quoted s = quoted t ↔ s = t := by
  rw [← String.toList_inj, toList_quoted, toList_quoted, quote_inj, String.toList_inj]

end CallSig.Text
