import CallSig.Proofs.Lexeme.Nesting
import CallSig.Proofs.Lexeme.Scanning
import CallSig.Proofs.Resolution.Shape

/-!
# `CallSig.Proofs.Resolution.Mentions` — the words that a type token mentions

Resolution cuts a token at brackets and commas and drops blanks, and none of these is a character of names. So a part
stands in its token as words stand in a text, and a part mentions no word that the token does not mention.

## Contents
- **Standing in a text.** `StandsIn`, with `StandsIn.trans`; `standsIn_trim`, `standsIn_trimEnd`.
- **Pieces.** `standsIn_of_separated`, `standsIn_of_splitText`.
- **Parts.** `standsIn_of_mem_parts`; `Mentions`, `mentions_of_mem_parts`.
-/

namespace CallSig

open Text

/-! ## Standing in a text -/

/-- The first text is a part of the second one, and no character of names stands next to it. -/
def StandsIn (part whole : List Char) : Prop :=
  ∃ before after, whole = before ++ part ++ after ∧ EndsName before.reverse ∧ EndsName after

theorem endsName_append {xs ys : List Char} (hx : EndsName xs) (hy : EndsName ys) : EndsName (xs ++ ys) := by
  cases xs with
  | nil => exact hy
  | cons x xs => exact hx

theorem endsName_append_of_ne_nil {xs : List Char} (hx : EndsName xs) (hne : xs ≠ []) (ys : List Char) :
    EndsName (xs ++ ys) := by
  cases xs with
  | nil => exact absurd rfl hne
  | cons x xs => exact hx

theorem endsName_of_forall {xs : List Char} (h : ∀ c ∈ xs, isNamePart c = false) : EndsName xs :=
  fun c hc => h c (List.mem_of_head? hc)

theorem StandsIn.trans {part middle whole : List Char} (h : StandsIn part middle) (h' : StandsIn middle whole) :
    StandsIn part whole := by
  obtain ⟨before, after, rfl, hbefore, hafter⟩ := h
  obtain ⟨front, back, rfl, hfront, hback⟩ := h'
  refine ⟨front ++ before, after ++ back, by simp, ?_, endsName_append hafter hback⟩
  rw [List.reverse_append]
  exact endsName_append hbefore hfront

theorem not_isNamePart_of_isBlank {c : Char} (h : isBlank c = true) : isNamePart c = false := by
  rw [← Bool.not_eq_true]
  intro hname
  rw [Word.not_isBlank_of_isNamePart hname] at h
  cases h

theorem standsIn_trimStart (cs : List Char) : StandsIn (trimStart cs) cs := by
  refine ⟨cs.takeWhile isBlank, [], ?_, endsName_of_forall fun c hc => ?_, endsName_nil⟩
  · rw [List.append_nil]
    exact List.takeWhile_append_dropWhile.symm
  · exact not_isNamePart_of_isBlank (List.all_eq_true.1 List.all_takeWhile c (List.mem_reverse.1 hc))

theorem StandsIn.reverse {part whole : List Char} (h : StandsIn part whole) : StandsIn part.reverse whole.reverse := by
  obtain ⟨before, after, rfl, hbefore, hafter⟩ := h
  exact ⟨after.reverse, before.reverse, by simp, by rwa [List.reverse_reverse], hbefore⟩

theorem standsIn_trimEnd (cs : List Char) : StandsIn (trimEnd cs) cs := by
  have h := (standsIn_trimStart cs.reverse).reverse
  rwa [List.reverse_reverse] at h

theorem standsIn_trim (cs : List Char) : StandsIn (trim cs) cs := (standsIn_trimEnd _).trans (standsIn_trimStart cs)

/-! ## Pieces -/

namespace Lexeme

theorem not_isNamePart_of_isGap {c : Char} (h : isGap c = true) : isNamePart c = false :=
  not_isNamePart_of_isBlank (Word.isBlank_of_isGap h)

/-- A run stands in what it spells with the blanks around it. -/
theorem standsIn_spelled {xs : List Lexeme} {rest : List Char} (h : Word.Reads (xs.map word) rest)
    {after : List Char} (hafter : EndsName after) : StandsIn (runText xs) (spelled xs ++ after) := by
  cases xs with
  | nil => exact ⟨[], after, rfl, endsName_nil, hafter⟩
  | cons x xs =>
    refine ⟨x.gap, after, by simp [runText, spelled], endsName_of_forall fun c hc => ?_, hafter⟩
    exact not_isNamePart_of_isGap (h.1.blank c (List.mem_reverse.1 hc))

/-- The parts of a run between commas stand in the text of the run. -/
theorem standsIn_of_separated {P : List Lexeme → Prop} {xs : List Lexeme} {parts : List (List Lexeme)}
    (hs : Separated P xs parts) {rest : List Char} (h : Word.Reads (xs.map word) rest) {after : List Char}
    (hafter : EndsName after) : ∀ part ∈ parts, StandsIn (runText part) (spelled xs ++ after) := by
  induction hs with
  | last =>
    intro part hpart
    obtain rfl := List.mem_singleton.1 hpart
    exact standsIn_spelled h hafter
  | @comma xs ys comma parts _ hc _ ih =>
    rw [List.map_append] at h
    obtain ⟨hreads, hmark⟩ := Word.of_reads_append h
    rw [spelled_map_word] at hreads
    have htext : comma.text = [','] := hmark.1.text_of_comma hc
    have hgap : EndsName (comma.gap ++ comma.text) := by
      refine endsName_of_forall fun c hmem => ?_
      rw [htext] at hmem
      rcases List.mem_append.1 hmem with hmem | hmem
      · exact not_isNamePart_of_isGap (hmark.1.blank c hmem)
      · rw [List.mem_singleton.1 hmem]
        decide
    have hspelled : spelled (xs ++ comma :: ys) ++ after =
        spelled xs ++ (comma.gap ++ comma.text ++ (spelled ys ++ after)) := by
      simp [spelled]
    intro part hpart
    rw [hspelled]
    rcases List.mem_cons.1 hpart with rfl | hpart
    · exact standsIn_spelled hreads (endsName_append_of_ne_nil hgap (by simp [htext]) _)
    · refine (ih hmark.2 part hpart).trans ⟨spelled xs ++ (comma.gap ++ comma.text), [], by simp, ?_, endsName_nil⟩
      rw [htext]
      simp only [List.reverse_append, List.append_assoc]
      exact fun c hc => by cases hc; decide

theorem standsIn_of_splitText {depth : Nat} {cs : List Char} {texts : List (List Char)}
    (h : splitText depth cs = .ok texts) : ∀ text ∈ texts, StandsIn text cs := by
  unfold splitText at h
  cases hx : ofText cs with
  | error e =>
    rw [hx] at h
    cases h
  | ok xs =>
    rw [hx] at h
    obtain ⟨parts, hparts, rfl⟩ := eq_ok_of_map_eq_ok (show (pieces depth xs).map (·.map runText) = .ok texts from h)
    obtain ⟨tail, hcs, hgaps⟩ := spelled_scan hx
    obtain ⟨rest, hreads⟩ := fromText_of_ofText hx
    intro text htext
    obtain ⟨part, hpart, rfl⟩ := List.mem_map.1 htext
    rcases pieces_eq_ok_iff.1 hparts with ⟨-, rfl⟩ | ⟨-, hs⟩
    · cases hpart
    · rw [hcs]
      exact standsIn_of_separated hs hreads (endsName_of_forall fun c hc => not_isNamePart_of_isGap (hgaps c hc)) part
        hpart

end Lexeme

/-! ## Parts -/

namespace TypeShape

theorem not_isNamePart_bracket (b : Bracket) : isNamePart b.opener = false ∧ isNamePart b.closer = false := by
  cases b <;> decide

theorem standsIn_of_mem_parts_ofParts {depth : Nat} {whole head inner : List Char} {bracket : Bracket} {p : String}
    (hp : p ∈ (ofParts depth whole head inner bracket).parts) : p.toList = head ∨ StandsIn p.toList inner := by
  unfold ofParts at hp
  dsimp only at hp
  split at hp
  · cases hp
  · split at hp
    · have harray (n? : Option Nat) (hp : p ∈ (array (String.ofList head) n?).parts) : p.toList = head := by
        rw [List.mem_singleton.1 hp, String.toList_ofList]
      split at hp
      · exact .inl (harray _ hp)
      · cases hn : word? inner with
        | none =>
          rw [hn] at hp
          cases hp
        | some n =>
          rw [hn] at hp
          exact .inl (harray _ hp)
    · cases hs : Lexeme.splitText depth inner with
      | error e =>
        rw [hs] at hp
        cases hp
      | ok args =>
        rw [hs] at hp
        dsimp only at hp
        split at hp
        · cases hp
        · rcases List.mem_cons.1 hp with rfl | hp
          · exact .inl String.toList_ofList
          · obtain ⟨_, hmem, rfl⟩ := List.mem_map.1 hp
            obtain ⟨arg, harg, rfl⟩ := List.mem_map.1 hmem
            refine .inr (StandsIn.trans ?_ (Lexeme.standsIn_of_splitText hs arg harg))
            unfold trimmed
            rw [String.toList_ofList, String.toList_ofList]
            exact standsIn_trim arg

/-- **A part stands in its token.** -/
theorem standsIn_of_mem_parts {depth : Nat} {token p : String} (hp : p ∈ (ofToken depth token).parts) :
    StandsIn p.toList token.toList := by
  refine StandsIn.trans ?_ (standsIn_trim token.toList)
  rw [ofToken_eq_cut] at hp
  cases hcut : cut? token with
  | none =>
    rw [hcut] at hp
    cases hp
  | some found =>
    obtain ⟨head, bracket, inner⟩ := found
    rw [hcut] at hp
    have hwhole := (trim_of_cut? hcut).2
    obtain ⟨hopener, hcloser⟩ := not_isNamePart_bracket bracket
    rcases standsIn_of_mem_parts_ofParts hp with heq | hinner
    · rw [heq]
      refine (standsIn_trimEnd _).trans ⟨[], bracket.opener :: (inner ++ [bracket.closer]), hwhole, endsName_nil, ?_⟩
      rintro c ⟨⟩
      exact hopener
    · refine (hinner.trans (standsIn_trim _)).trans ⟨head ++ [bracket.opener], [bracket.closer], by simp [hwhole],
        ?_, ?_⟩
      · rw [List.reverse_append]
        rintro c ⟨⟩
        exact hopener
      · rintro c ⟨⟩
        exact hcloser

end TypeShape

/-- The text has the word in it, with no character of names next to it. -/
def Mentions (word text : String) : Prop := StandsIn word.toList text.toList

theorem mentions_of_mem_parts {word token p : String} {depth : Nat} (hp : p ∈ (TypeShape.ofToken depth token).parts)
    (h : Mentions word p) : Mentions word token := h.trans (TypeShape.standsIn_of_mem_parts hp)

/-- A text that does not have the letters of a word in it at all does not mention the word. -/
theorem not_mentions_of_not_infix {word text : String} (h : ¬word.toList <:+: text.toList) : ¬Mentions word text := by
  rintro ⟨before, after, htext, -⟩
  exact h ⟨before, after, htext.symm⟩

end CallSig
