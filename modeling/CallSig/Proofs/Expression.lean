import CallSig.Expression
import CallSig.Proofs.Text.Trim

/-!
# `CallSig.Proofs.Expression` — texts that are no expressions

The last character of a text can already show that the text is no number, string, path, call or list of flags. The
brackets that end a composite type token are such characters, so what is a composite type is no default value.

## Contents
- **Texts.** `mem_dropWhile`, `mem_trim`.
- **Words.** `naturalFrom?_eq_none`, `signedWord?_eq_none`.
- **Foreign characters.** `Expression.IsForeign` with one lemma per kind of expression, `Expression.evaluate_eq_none`.
-/

namespace CallSig

open Text

/-! ## Texts -/

theorem mem_dropWhile {p : Char → Bool} {c : Char} {cs : List Char} (hc : c ∈ cs) (hp : p c = false) :
    c ∈ cs.dropWhile p := by
  rw [← List.takeWhile_append_dropWhile (p := p) (l := cs), List.mem_append] at hc
  refine hc.resolve_left fun htake => ?_
  rw [List.all_eq_true.1 List.all_takeWhile c htake] at hp
  cases hp

theorem mem_trim {c : Char} {cs : List Char} (hc : c ∈ cs) (hb : isBlank c = false) : c ∈ trim cs :=
  List.mem_reverse.2 (mem_dropWhile (List.mem_reverse.2 (mem_dropWhile hc hb)) hb)

/-! ## Words -/

theorem naturalFrom?_eq_none {radix : Nat} {c : Char} {cs : List Char} (hc : c ∈ cs)
    (hd : digitValue? radix c = none) (n : Nat) : naturalFrom? radix n cs = none := by
  induction cs generalizing n with
  | nil => cases hc
  | cons d cs ih =>
    rw [naturalFrom?]
    rcases List.mem_cons.1 hc with rfl | hc
    · rw [hd]
      rfl
    · cases digitValue? radix d with
      | none => rfl
      | some value => exact ih hc _

theorem signedWord?_eq_none {radix : Nat} {c : Char} {cs : List Char} (hc : c ∈ cs)
    (hd : digitValue? radix c = none) (hsign : c ≠ '-' ∧ c ≠ '+') : signedWord? radix cs = none := by
  have hnatural {digits : List Char} (hc : c ∈ digits) : natural? radix digits = none := by
    unfold natural?
    split
    · rfl
    · exact naturalFrom?_eq_none hc hd 0
  unfold signedWord?
  split
  · rw [hnatural ((List.mem_cons.1 hc).resolve_left hsign.1)]
    rfl
  · rw [hnatural ((List.mem_cons.1 hc).resolve_left hsign.2)]
    rfl
  · rw [hnatural hc]
    rfl

/-! ## Foreign characters -/

namespace Expression

variable {c : Char} {cs : List Char}

/-- The marks and letters that mean something in an expression. -/
def marks : List Char :=
  ['-', '+', '.', '_', '|', '0', 'x', 'X', 'e', 'E', 'f', 'F', 'u', 'U', 'l', 'L', '"', '\'', ')']

/-- A character that stands in no number, no path and no flag, and that ends no string and no call. -/
structure IsForeign (c : Char) : Prop where
  digit : c.isDigit = false
  hexDigit : digitValue? 16 c = none
  letter : isAlphanumeric c = false
  blank : isBlank c = false
  mark : c ∉ marks

namespace IsForeign

theorem ne (h : IsForeign c) {d : Char} (hd : d ∈ marks) : c ≠ d := by
  rintro rfl
  exact h.mark hd

theorem mem_tail (h : IsForeign c) {d : Char} (hd : d ∈ marks) (hc : c ∈ d :: cs) : c ∈ cs :=
  (List.mem_cons.1 hc).resolve_left (h.ne hd)

theorem magnitude?_eq_none (h : IsForeign c) (hc : c ∈ cs) : magnitude? cs = none := by
  have hword {digits : List Char} (hc : c ∈ digits) : signedWord? 16 digits = none :=
    signedWord?_eq_none hc h.hexDigit ⟨h.ne (by decide), h.ne (by decide)⟩
  unfold magnitude?
  split
  · exact hword (h.mem_tail (by decide) (h.mem_tail (by decide) hc))
  · exact hword (h.mem_tail (by decide) (h.mem_tail (by decide) hc))
  · rw [if_neg]
    intro hall
    have hdigit := List.all_eq_true.1 hall c hc
    rw [h.digit] at hdigit
    cases hdigit

theorem integer?_eq_none (h : IsForeign c) (hc : c ∈ cs) : integer? cs = none := by
  have hsuffix : isIntegerSuffix c = false := by
    have hne : c ≠ 'u' ∧ c ≠ 'U' ∧ c ≠ 'l' ∧ c ≠ 'L' :=
      ⟨h.ne (by decide), h.ne (by decide), h.ne (by decide), h.ne (by decide)⟩
    simp [isIntegerSuffix, hne]
  have hbody : c ∈ (cs.reverse.dropWhile isIntegerSuffix).reverse :=
    List.mem_reverse.2 (mem_dropWhile (List.mem_reverse.2 hc) hsuffix)
  unfold integer?
  dsimp only
  split
  · next rest heq =>
    rw [heq] at hbody
    rw [h.magnitude?_eq_none (h.mem_tail (by decide) hbody)]
    rfl
  · exact h.magnitude?_eq_none hbody

theorem isFloatChar_eq_false (h : IsForeign c) : isFloatChar c = false := by
  have hne : c ≠ '.' ∧ c ≠ 'e' ∧ c ≠ 'E' ∧ c ≠ '+' ∧ c ≠ '-' :=
    ⟨h.ne (by decide), h.ne (by decide), h.ne (by decide), h.ne (by decide), h.ne (by decide)⟩
  simp [isFloatChar, h.digit, hne]

theorem float?_eq_none (h : IsForeign c) (hlast : cs.getLast? = some c) : float? cs = none := by
  have hall : cs.all isFloatChar = false :=
    List.all_eq_false.2 ⟨c, List.mem_of_getLast? hlast, by rw [h.isFloatChar_eq_false]; exact Bool.false_ne_true⟩
  unfold float?
  dsimp only
  rw [hlast]
  split
  · rfl
  · -- the last character is no suffix, so all characters must be those of a number
    split
    · next he => exact absurd (Option.some.inj he) (h.ne (by decide))
    · next he => exact absurd (Option.some.inj he) (h.ne (by decide))
    · rw [hall, Bool.and_false, if_neg Bool.false_ne_true]

theorem isAlphabetic_eq_false (h : IsForeign c) : isAlphabetic c = false := by
  rw [← Bool.not_eq_true]
  intro halphabetic
  have hletter := isAlphanumeric_of_isAlphabetic halphabetic
  rw [h.letter] at hletter
  cases hletter

theorem isPathSegment_eq_false (h : IsForeign c) (hc : c ∈ cs) : isPathSegment cs = false := by
  have hmark : (c == '_') = false := beq_eq_false_iff_ne.2 (h.ne (by decide))
  cases cs with
  | nil => cases hc
  | cons d ds =>
    rw [isPathSegment, Bool.and_eq_false_iff]
    rcases List.mem_cons.1 hc with rfl | hc
    · left
      rw [h.isAlphabetic_eq_false, hmark]
      rfl
    · right
      refine List.all_eq_false.2 ⟨c, hc, ?_⟩
      rw [h.letter, hmark]
      exact Bool.false_ne_true

theorem isPath_eq_false (h : IsForeign c) (hc : c ∈ cs) : isPath cs = false := by
  have hdot : (c == '.') = false := beq_eq_false_iff_ne.2 (h.ne (by decide))
  obtain ⟨segment, hs, hmem⟩ : ∃ segment ∈ cutAt '.' cs, c ∈ segment := exists_mem_cutWhere hc hdot
  refine List.all_eq_false.2 ⟨segment, hs, ?_⟩
  rw [h.isPathSegment_eq_false hmem]
  exact Bool.false_ne_true

theorem isFlag_eq_false (h : IsForeign c) (hc : c ∈ cs) (definitions : Dict Value) : isFlag definitions cs = false := by
  unfold isFlag
  rw [h.integer?_eq_none hc, h.isPath_eq_false hc]
  rfl

end IsForeign

/-- **A text that ends with a foreign character has no value** as an expression. -/
theorem evaluate_eq_none (h : IsForeign c) {expr : String} (hlast : (trim expr.toList).getLast? = some c)
    (definitions : Dict Value) : evaluate definitions expr = none := by
  have hc := List.mem_of_getLast? hlast
  have hstring : string? (trim expr.toList) = none := by
    unfold string?
    split
    · rfl
    · next quote rest heq =>
      rw [if_neg]
      rintro ⟨hquote, hrest⟩
      rw [heq, List.getLast?_cons, hrest] at hlast
      obtain rfl := Option.some.inj hlast
      rcases hquote with rfl | rfl <;> exact h.mark (by decide)
  have hcallee : callee? (trim expr.toList) = none := by
    unfold callee?
    dsimp only
    rw [if_neg]
    rintro ⟨hparen, -⟩
    rw [hlast] at hparen
    exact h.ne (by decide) (Option.some.inj hparen)
  have hflags : (cutAt '|' (trim expr.toList)).all (fun part => isFlag definitions (trim part)) = false := by
    have hbar : (c == '|') = false := beq_eq_false_iff_ne.2 (h.ne (by decide))
    obtain ⟨part, hp, hmem⟩ : ∃ part ∈ cutAt '|' (trim expr.toList), c ∈ part := exists_mem_cutWhere hc hbar
    refine List.all_eq_false.2 ⟨part, hp, ?_⟩
    rw [h.isFlag_eq_false (mem_trim hmem h.blank)]
    exact Bool.false_ne_true
  unfold evaluate
  dsimp only
  split
  · rfl
  · rw [h.integer?_eq_none hc, h.float?_eq_none hlast, hstring]
    dsimp only
    rw [evaluateName, h.isPath_eq_false hc, if_neg Bool.false_ne_true, hcallee]
    dsimp only
    rw [hflags, if_neg fun hand => Bool.false_ne_true hand.2]

end Expression
end CallSig
