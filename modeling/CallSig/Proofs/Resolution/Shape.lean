import CallSig.Proofs.Lexeme.Spelling
import CallSig.TypeShape

/-!
# `CallSig.Proofs.Resolution.Shape` — the parts of a type token

Resolution takes a token apart and resolves the parts. A part has no blanks around it and is shorter than the
token, and an atom is the whole token; these are the only facts about shapes that later proofs use.

## Contents
- **Brackets.** `splitAtOpener_eq_some`.
- **Cuts.** `TypeShape.cut?`, `ofToken_eq_cut`, `ofToken_eq_atom`, `cut?_of_bracketed`, `trim_of_cut?`.
- **Parts.** `TypeShape.parts`, `TypeShape.Fits`, `ofToken_fits`, `mem_parts_ofToken`, `text_of_ofToken_atom`.
- **Shapes of parts.** `stem?`, `stem?_ofParts`, `ofParts_generic`.
-/

namespace CallSig

open Text

/-! ## Brackets -/

theorem splitAtOpener_eq_some {opener closer : Char} {depth : Nat} {cs inner before : List Char}
    (h : splitAtOpener opener closer depth cs = some (inner, before)) : cs = inner ++ opener :: before := by
  induction cs generalizing depth inner with
  | nil => simp [splitAtOpener] at h
  | cons c cs ih =>
    rw [splitAtOpener] at h
    split at h
    · next hc =>
      simp only [Option.some.injEq, Prod.mk.injEq] at h
      rw [← h.1, ← h.2, hc.1]
      rfl
    · simp only [Option.map_eq_some_iff, Prod.mk.injEq, Prod.exists] at h
      obtain ⟨i, _, hs, rfl, rfl⟩ := h
      rw [ih hs]
      rfl

/-! ## Cuts -/

namespace TypeShape

theorem finalBracket?_closer {b : Bracket} (hb : b ≠ .round) : finalBracket? b.closer = some b := by
  cases b with
  | round => exact absurd rfl hb
  | square | angle => rfl

theorem of_finalBracket? {c : Char} {b : Bracket} (h : finalBracket? c = some b) : b ≠ .round ∧ c = b.closer := by
  unfold finalBracket? at h
  split at h
  · next hc =>
    cases h
    exact ⟨nofun, hc⟩
  · split at h
    · next hc =>
      cases h
      exact ⟨nofun, hc⟩
    · cases h

/-- Where the analysis cuts a token: what stands before the bracket that it takes for the partner of the last one, the
kind of the two, and what stands between them. -/
def cut? (token : String) : Option (List Char × Bracket × List Char) :=
  match (trim token.toList).reverse with
  | [] => none
  | last :: before =>
    (finalBracket? last).bind fun bracket =>
      (splitAtOpener bracket.opener bracket.closer 0 before).map fun (inner, head) =>
        (head.reverse, bracket, inner.reverse)

/-- **The analysis cuts the token** and looks at the two parts. -/
theorem ofToken_eq_cut (depth : Nat) (token : String) :
    ofToken depth token =
      match cut? token with
      | none => atom (trimmed token)
      | some (head, bracket, inner) => ofParts depth (trim token.toList) (trimEnd head) (trim inner) bracket := by
  unfold ofToken cut? trimmed
  dsimp only
  cases (trim token.toList).reverse with
  | nil => rfl
  | cons last before =>
    dsimp only
    cases finalBracket? last with
    | none => rfl
    | some bracket =>
      dsimp only [Option.bind_some]
      cases splitAtOpener bracket.opener bracket.closer 0 before with
      | none => rfl
      | some found => rfl

/-- A token that ends with no closing bracket of a type is taken as a whole. -/
theorem ofToken_eq_atom {token : String} (h : (trim token.toList).reverse.head?.bind finalBracket? = none)
    (depth : Nat) : ofToken depth token = atom (trimmed token) := by
  have hcut : cut? token = none := by
    unfold cut?
    cases hw : (trim token.toList).reverse with
    | nil => rfl
    | cons last before =>
      have hlast : finalBracket? last = none := by rwa [hw] at h
      dsimp only
      rw [hlast]
      rfl
  rw [ofToken_eq_cut, hcut]

/-- The cut of a token that ends with a closing bracket, where an opening one stands before it. -/
theorem cut?_of_bracketed {token : String} {head inner : List Char} {bracket : Bracket} (hb : bracket ≠ .round)
    (h : trim token.toList = head ++ bracket.opener :: (inner ++ [bracket.closer])) :
    cut? token = (splitAtOpener bracket.opener bracket.closer 0 (inner.reverse ++ bracket.opener :: head.reverse)).map
      fun (inner, head) => (head.reverse, bracket, inner.reverse) := by
  have hreverse : (trim token.toList).reverse =
      bracket.closer :: (inner.reverse ++ bracket.opener :: head.reverse) := by
    rw [h]
    simp
  unfold cut?
  rw [hreverse]
  dsimp only
  rw [finalBracket?_closer hb, Option.bind_some]

/-- A token is what it is cut into, with the brackets. -/
theorem trim_of_cut? {token : String} {head inner : List Char} {bracket : Bracket}
    (h : cut? token = some (head, bracket, inner)) :
    bracket ≠ .round ∧ trim token.toList = head ++ bracket.opener :: (inner ++ [bracket.closer]) := by
  unfold cut? at h
  split at h
  · cases h
  · next last before hw =>
    obtain ⟨b, hb, hcut⟩ := Option.bind_eq_some_iff.1 h
    obtain ⟨⟨inner', head'⟩, hs, he⟩ := Option.map_eq_some_iff.1 hcut
    cases he
    obtain ⟨hround, rfl⟩ := of_finalBracket? hb
    refine ⟨hround, ?_⟩
    -- the opener was looked for from the end, in the reversed text
    rw [← List.reverse_reverse (trim token.toList), hw, splitAtOpener_eq_some hs]
    simp

end TypeShape

/-! ## Parts -/

namespace TypeShape

/-- The tokens that are resolved for a shape. -/
def parts : TypeShape → List String
  | atom _ => []
  | array element _ => [element]
  | generic container args => container :: args.map trimmed

/-- A shape fits a text: an atom is the text itself, and a part has no blanks around it and is shorter. -/
structure Fits (whole : List Char) (shape : TypeShape) : Prop where
  atom : ∀ text, shape = .atom text → text = String.ofList whole
  part : ∀ p ∈ shape.parts, trimmed p = p ∧ p.length < whole.length

theorem fits_atom (whole : List Char) : Fits whole (atom (String.ofList whole)) where
  atom := by
    intro text h
    exact (TypeShape.atom.inj h).symm
  part := by
    intro p hp
    cases hp

theorem fits_array {whole head : List Char} (ht : Tight head) (hl : head.length < whole.length)
    (length? : Option Nat) : Fits whole (array (String.ofList head) length?) where
  atom := by
    intro text h
    cases h
  part := by
    intro p hp
    rw [List.mem_singleton.1 hp, String.length_ofList]
    exact ⟨trimmed_of_tight ht, hl⟩

theorem fits_generic {whole head : List Char} {args : List (List Char)} (ht : Tight head)
    (hl : head.length < whole.length) (ha : ∀ a ∈ args, a.length < whole.length) :
    Fits whole (generic (String.ofList head) (args.map String.ofList)) where
  atom := by
    intro text h
    cases h
  part := by
    intro p hp
    rcases List.mem_cons.1 hp with rfl | hp
    · rw [String.length_ofList]
      exact ⟨trimmed_of_tight ht, hl⟩
    · obtain ⟨_, hm, rfl⟩ := List.mem_map.1 hp
      obtain ⟨a, ha', rfl⟩ := List.mem_map.1 hm
      refine ⟨trimmed_trimmed _, Nat.lt_of_le_of_lt (length_trimmed_le _) ?_⟩
      rw [String.length_ofList]
      exact ha a ha'

theorem ofParts_fits {depth : Nat} {whole head inner : List Char} {bracket : Bracket} (ht : Tight head)
    (hl : head.length + inner.length < whole.length) : Fits whole (ofParts depth whole head inner bracket) := by
  have hhead : head.length < whole.length := by omega
  unfold ofParts
  dsimp only
  split
  · exact fits_atom whole
  · split
    · split
      · exact fits_array ht hhead none
      · cases word? inner with
        | some n => exact fits_array ht hhead (some n)
        | none => exact fits_atom whole
    · cases hs : Lexeme.splitText depth inner with
      | error e => exact fits_atom whole
      | ok args =>
        dsimp only
        split
        · exact fits_atom whole
        · refine fits_generic ht hhead fun a ha => ?_
          have := Lexeme.length_le_of_splitText hs a ha
          omega

/-- **A token's shape fits the token** once blanks around it are dropped. -/
theorem ofToken_fits (depth : Nat) (token : String) : Fits (trim token.toList) (ofToken depth token) := by
  rw [ofToken_eq_cut]
  cases hcut : cut? token with
  | none => exact fits_atom _
  | some found =>
    obtain ⟨head, bracket, inner⟩ := found
    have hwhole := (trim_of_cut? hcut).2
    dsimp only
    -- the head begins where the whole text does, which begins with no blank
    refine ofParts_fits (tight_trimEnd fun c hc => (tight_trim token.toList).1 c ?_) ?_
    · rw [hwhole]
      exact head?_of_isPrefix (List.prefix_append _ _) hc
    · have hh := (trimEnd_isPrefix head).length_le
      have hi := length_trim_le inner
      rw [hwhole]
      simp only [List.length_append, List.length_cons, List.length_nil]
      omega

theorem mem_parts_ofToken {depth : Nat} {token p : String} (h : p ∈ (ofToken depth token).parts) :
    trimmed p = p ∧ p.length < token.length := by
  obtain ⟨ht, hl⟩ := (ofToken_fits depth token).part p h
  refine ⟨ht, Nat.lt_of_lt_of_le hl ?_⟩
  rw [← String.length_toList]
  exact length_trim_le token.toList

theorem text_of_ofToken_atom {depth : Nat} {token text : String} (h : ofToken depth token = .atom text)
    (ht : trimmed token = token) : text = token :=
  ((ofToken_fits depth token).atom text h).trans ht

/-! ## Shapes of parts -/

/-- The element of an array, the container of a generic type. -/
def stem? : TypeShape → Option String
  | atom _ => none
  | array element _ => some element
  | generic container _ => some container

theorem stem?_ofParts {depth : Nat} {whole head inner : List Char} {bracket : Bracket} {stem : String}
    (h : (ofParts depth whole head inner bracket).stem? = some stem) : stem = String.ofList head := by
  unfold ofParts at h
  dsimp only at h
  split at h
  · cases h
  · split at h
    · split at h
      · cases h
        rfl
      · split at h
        · cases h
          rfl
        · cases h
    · split at h
      · split at h
        · cases h
        · cases h
          rfl
      · cases h

/-- A head with pieces in brackets that are no array suffix. -/
theorem ofParts_generic {depth : Nat} {whole head inner : List Char} {bracket : Bracket} {args : List (List Char)}
    (hhead : head ≠ []) (hnumber : ¬(bracket = .square ∧ inner.all Char.isDigit = true))
    (hargs : Lexeme.splitText depth inner = .ok args) (hne : args ≠ []) (hmem : [] ∉ args) :
    ofParts depth whole head inner bracket = generic (String.ofList head) (args.map String.ofList) := by
  unfold ofParts
  dsimp only
  rw [if_neg (by simpa using hhead), if_neg hnumber, hargs]
  dsimp only
  rw [if_neg]
  rintro (hempty | hempty)
  · exact hne (List.isEmpty_iff.1 hempty)
  · obtain ⟨arg, harg, hnil⟩ := List.any_eq_true.1 hempty
    exact hmem (List.isEmpty_iff.1 hnil ▸ harg)

end TypeShape

end CallSig
