import CallSig.Proofs.Lexeme.Reading
import CallSig.Proofs.Lexeme.Spelling

/-!
# `CallSig.Proofs.Lexeme.Scanning` — what the scanner returns

`ofText_spelled` says that words which do not run into one another are read as they are. This file has the
converse: the lexemes that the scanner returns are words that do not run into one another, with the rest of the
text after them. What is known of a word from its token alone follows from this: an integer has digits only, and
what is spelled with three dots is one token.

## Contents
- **Scanning.** `length_le_of_read?`, `reads_scan`.
- **Words by their tokens.** `not_isBlank_of_read?`; `ReadsBefore.isDigit`, `ReadsBefore.text_of_ellipsis`; `IsSign`,
  `ReadsBefore.text_of_comma`, `text_of_opening`, `text_of_closing`.
- **Runs of a text.** `FromText`, `collapse_runText_eq_dots_iff`.
-/

namespace CallSig

/-! ## Scanning -/

theorem length_le_of_stringTail? {quote : Char} {cs : List Char} :
    ∀ {n : Nat}, stringTail? quote cs = some n → n ≤ cs.length := by
  fun_induction stringTail? quote cs with
  | case1 | case2 | case3 => exact nofun
  | case4 c cs _ ih =>
    intro n h
    obtain ⟨m, hm, rfl⟩ := Option.map_eq_some_iff.1 h
    exact Nat.add_le_add_right (ih hm) 2
  | case5 =>
    intro n h
    cases h
    exact Nat.succ_le_succ (Nat.zero_le _)
  | case6 =>
    rename_i c cs _ _ _ ih
    intro n h
    obtain ⟨m, hm, rfl⟩ := Option.map_eq_some_iff.1 h
    exact Nat.add_le_add_right (ih hm) 1

/-- No token is longer than the text it is read from. -/
theorem length_le_of_read? {c : Char} {rest : List Char} {token : Token} {n : Nat}
    (h : Token.read? c rest = some (token, n)) : n ≤ rest.length := by
  unfold Token.read? at h
  split at h
  · cases h
    exact (List.takeWhile_prefix _).length_le
  split at h
  · cases h
    exact (List.takeWhile_prefix _).length_le
  split at h
  · obtain ⟨m, hm, he⟩ := Option.map_eq_some_iff.1 h
    cases he
    exact length_le_of_stringTail? hm
  split at h
  · next hc =>
    cases h
    cases rest with
    | nil => simp at hc
    | cons => simp
  split at h
  · next hc =>
    cases h
    have := congrArg List.length hc.2
    simp only [List.length_take, List.length_cons, List.length_nil] at this
    omega
  split at h
  · next hc =>
    cases h
    cases rest with
    | nil => simp at hc
    | cons => simp
  · obtain ⟨m, -, he⟩ := Option.map_eq_some_iff.1 h
    cases he
    exact Nat.zero_le _

namespace Lexeme

theorem spelled_map_word (xs : List Lexeme) : Word.spelled (xs.map word) = spelled xs := by
  unfold Word.spelled spelled
  rw [List.flatMap_map]
  rfl

/-- **The scanner reads words**: each lexeme is read as it is where the further ones and the rest of the text
follow it. -/
theorem reads_scan {start : Nat} {cs : List Char} :
    ∀ {xs : List Lexeme}, scan start cs = .ok xs → ∃ tail, cs = spelled xs ++ tail ∧ Word.Reads (xs.map word) tail := by
  fun_induction scan start cs with
  | case1 start cs =>
    intro xs h
    cases h
    exact ⟨cs, rfl, trivial⟩
  | case2 =>
    intro xs h
    cases h
  | case3 start cs gap c rest hd here token n hr text =>
    rename_i ih
    intro xs h
    obtain ⟨ys, hys, rfl⟩ := eq_ok_of_map_eq_ok h
    obtain ⟨tail, ht, hreads⟩ := ih hys
    have hcs : cs = gap ++ (c :: (rest.take n ++ rest.drop n)) := by
      rw [List.take_append_drop, ← hd]
      exact List.takeWhile_append_dropWhile.symm
    have hn : (rest.take n).length = n := by
      rw [List.length_take]
      exact Nat.min_eq_left (length_le_of_read? hr)
    refine ⟨tail, ?_, ?_, hreads⟩
    · rw [hcs, ht, spelled_cons]
      simp [text]
    · refine ⟨fun d hmem => List.all_eq_true.1 List.all_takeWhile d hmem, c, rest.take n, rfl, ?_, ?_⟩
      · have hhead := List.head?_dropWhile_not isGap cs
        rw [hd] at hhead
        simpa using hhead
      · show Token.read? c (rest.take n ++ (Word.spelled (ys.map word) ++ tail)) = some (token, (rest.take n).length)
        rw [spelled_map_word, ← ht, List.take_append_drop, hn]
        exact hr

end Lexeme

/-! ## Words by their tokens -/

namespace Word

/-- Words that are read one after the other: the front ones are read where the others follow. -/
theorem of_reads_append {ws ws' : List Word} {rest : List Char} (h : Reads (ws ++ ws') rest) :
    Reads ws (spelled ws' ++ rest) ∧ Reads ws' rest := by
  induction ws with
  | nil => exact ⟨trivial, h⟩
  | cons w ws ih =>
    obtain ⟨hws, hws'⟩ := ih h.2
    have hw : w.ReadsBefore (spelled (ws ++ ws') ++ rest) := h.1
    rw [spelled_append, List.append_assoc] at hw
    exact ⟨⟨hw, hws⟩, hws'⟩

/-- A run of words inside others is read as it is where what comes after it follows. -/
theorem reads_infix {before ws after : List Word} {rest : List Char} (h : Reads (before ++ ws ++ after) rest) :
    Reads ws (spelled after ++ rest) :=
  (of_reads_append (of_reads_append h).1).2

theorem isNamePart_of_isNameStart {c : Char} (h : isNameStart c = true) : isNamePart c = true := by
  simp only [isNameStart, isNamePart, Char.isAlphanum, Bool.or_eq_true] at *
  rcases h with h | h
  · exact .inl (.inl h)
  · exact .inr h

theorem not_isBlank_of_isNamePart {c : Char} (h : isNamePart c = true) : Text.isBlank c = false := by
  -- all blanks lie outside the range from the digits to the small letters
  have hrange : 48 ≤ c.toNat ∧ c.toNat ≤ 122 := by
    unfold isNamePart Char.isAlphanum Char.isAlpha Char.isUpper Char.isLower Char.isDigit at h
    simp only [Bool.or_eq_true, Bool.and_eq_true, decide_eq_true_eq, ge_iff_le, UInt32.le_iff_toNat_le, Char.toNat_val,
      Char.reduceToNat, beq_iff_eq] at h
    rcases h with ((h | h) | h) | rfl
    · omega
    · omega
    · omega
    · decide
  simp only [Text.isBlank, Bool.or_eq_false_iff, Bool.and_eq_false_iff, decide_eq_false_iff_not, beq_eq_false_iff_ne]
  omega

theorem not_isBlank_of_ofChar? {c : Char} {token : Token} (h : Token.ofChar? c = some token) :
    Text.isBlank c = false := by
  unfold Token.ofChar? at h
  split at h
  all_goals try decide
  split at h
  · next hc =>
    have hall : punctuation.all fun c => !Text.isBlank c := by decide
    simpa using List.all_eq_true.1 hall c (by simpa using hc)
  · cases h

theorem isBlank_of_isGap {c : Char} (h : isGap c = true) : Text.isBlank c = true := by
  rcases isGap_cases h with rfl | rfl | rfl | rfl <;> decide

/-- No token begins with a blank. -/
theorem not_isBlank_of_read? {c : Char} {rest : List Char} {token : Token} {n : Nat}
    (h : Token.read? c rest = some (token, n)) : Text.isBlank c = false := by
  unfold Token.read? at h
  split at h
  · next hc => exact not_isBlank_of_isNamePart (isNamePart_of_isNameStart hc)
  split at h
  · next hc =>
    apply not_isBlank_of_isNamePart
    simp [isNamePart, Char.isAlphanum, hc]
  split at h
  · next hc => rcases hc with rfl | rfl <;> decide
  split at h
  · next hc =>
    obtain ⟨rfl, -⟩ := hc
    decide
  split at h
  · next hc =>
    obtain ⟨rfl, -⟩ := hc
    decide
  split at h
  · next hc =>
    obtain ⟨rfl, -⟩ := hc
    decide
  · obtain ⟨token, htoken, -⟩ := Option.map_eq_some_iff.1 h
    exact not_isBlank_of_ofChar? htoken

theorem ofChar?_sign {c : Char} {token : Token} (h : Token.ofChar? c = some token) :
    token ≠ .integer ∧ token ≠ .ellipsis := by
  unfold Token.ofChar? at h
  split at h
  all_goals try (cases h; exact ⟨nofun, nofun⟩)
  split at h
  · cases h
    exact ⟨nofun, nofun⟩
  · cases h

theorem of_read?_integer {c : Char} {rest : List Char} {n : Nat}
    (h : Token.read? c rest = some (.integer, n)) : c.isDigit = true ∧ n = (rest.takeWhile Char.isDigit).length := by
  unfold Token.read? at h
  split at h
  · cases h
  split at h
  · next hc =>
    cases h
    exact ⟨hc, rfl⟩
  · -- every other token is no integer
    iterate 4
      split at h
      · first | cases h | (obtain ⟨m, -, hm⟩ := Option.map_eq_some_iff.1 h; cases hm)
    obtain ⟨token, htoken, he⟩ := Option.map_eq_some_iff.1 h
    cases he
    exact absurd rfl (ofChar?_sign htoken).1

theorem of_read?_ellipsis {c : Char} {rest : List Char} {n : Nat}
    (h : Token.read? c rest = some (.ellipsis, n)) : c = '.' ∧ rest.take 2 = ['.', '.'] ∧ n = 2 := by
  unfold Token.read? at h
  split at h
  · cases h
  split at h
  · cases h
  split at h
  · obtain ⟨m, -, hm⟩ := Option.map_eq_some_iff.1 h
    cases hm
  split at h
  · cases h
  split at h
  · next hc =>
    cases h
    exact ⟨hc.1, hc.2, rfl⟩
  split at h
  · cases h
  · obtain ⟨token, htoken, he⟩ := Option.map_eq_some_iff.1 h
    cases he
    exact absurd rfl (ofChar?_sign htoken).2

/-- The token is spelled by one character only. -/
def IsSign : Token → Prop
  | .identifier | .integer | .stringLiteral | .doubleColon | .ellipsis | .arrow => False
  | _ => True

theorem of_read?_sign {c : Char} {rest : List Char} {token : Token} {n : Nat}
    (h : Token.read? c rest = some (token, n)) (hs : IsSign token) : Token.ofChar? c = some token ∧ n = 0 := by
  unfold Token.read? at h
  iterate 6
    split at h
    · first
        | (cases h; exact hs.elim)
        | (obtain ⟨m, -, hm⟩ := Option.map_eq_some_iff.1 h; cases hm; exact hs.elim)
  obtain ⟨found, hfound, he⟩ := Option.map_eq_some_iff.1 h
  cases he
  exact ⟨hfound, rfl⟩

theorem ofChar?_mark {c : Char} {token : Token} (h : Token.ofChar? c = some token) :
    (token = .comma → c = ',') ∧ ∀ b, (token = .opening b → c = b.opener) ∧ (token = .closing b → c = b.closer) := by
  unfold Token.ofChar? at h
  split at h
  case h_15 =>
    split at h
    · cases h
      exact ⟨nofun, fun b => ⟨nofun, nofun⟩⟩
    · cases h
  all_goals
    cases h
    refine ⟨?_, fun b => ⟨?_, ?_⟩⟩ <;> rintro ⟨⟩ <;> rfl

namespace ReadsBefore

variable {w : Word} {rest : List Char}

theorem head_not_isBlank (h : w.ReadsBefore rest) : ∃ c cs, w.text = c :: cs ∧ Text.isBlank c = false := by
  obtain ⟨c, cs, htext, -, hread⟩ := h.read
  exact ⟨c, cs, htext, not_isBlank_of_read? hread⟩

/-- What is read as an integer has digits only. -/
theorem isDigit (h : w.ReadsBefore rest) (htoken : w.token = .integer) :
    w.text ≠ [] ∧ ∀ c ∈ w.text, c.isDigit = true := by
  obtain ⟨c, cs, htext, -, hread⟩ := h.read
  rw [htoken] at hread
  obtain ⟨hc, hlength⟩ := of_read?_integer hread
  -- the digits that the scanner takes are as many as the word has, so they are those of the word
  have hcs : cs = (cs ++ rest).takeWhile Char.isDigit := by
    rw [List.prefix_iff_eq_take.1 (List.takeWhile_prefix Char.isDigit), ← hlength, List.take_left]
  rw [htext]
  refine ⟨List.cons_ne_nil _ _, List.forall_mem_cons.2 ⟨hc, fun d hd => ?_⟩⟩
  rw [hcs] at hd
  exact List.all_eq_true.1 List.all_takeWhile d hd

/-- Three dots are read as an ellipsis, and nothing else is. -/
theorem text_of_ellipsis (h : w.ReadsBefore rest) (htoken : w.token = .ellipsis) : w.text = ['.', '.', '.'] := by
  obtain ⟨c, cs, htext, -, hread⟩ := h.read
  rw [htoken] at hread
  obtain ⟨rfl, htake, hlength⟩ := of_read?_ellipsis hread
  rw [← hlength, List.take_left] at htake
  rw [htext, htake]

/-- A sign is spelled by its character. -/
theorem text_of_sign (h : w.ReadsBefore rest) (hs : IsSign w.token) :
    ∃ c, w.text = [c] ∧ Token.ofChar? c = some w.token := by
  obtain ⟨c, cs, htext, -, hread⟩ := h.read
  obtain ⟨hc, hlength⟩ := of_read?_sign hread hs
  rw [List.eq_nil_of_length_eq_zero hlength] at htext
  exact ⟨c, htext, hc⟩

theorem text_of_comma (h : w.ReadsBefore rest) (htoken : w.token = .comma) : w.text = [','] := by
  obtain ⟨c, htext, hc⟩ := h.text_of_sign (by rw [htoken]; trivial)
  rw [htext, (ofChar?_mark hc).1 htoken]

theorem text_of_opening (h : w.ReadsBefore rest) {b : Bracket} (htoken : w.token = .opening b) :
    w.text = [b.opener] := by
  obtain ⟨c, htext, hc⟩ := h.text_of_sign (by rw [htoken]; trivial)
  rw [htext, ((ofChar?_mark hc).2 b).1 htoken]

theorem text_of_closing (h : w.ReadsBefore rest) {b : Bracket} (htoken : w.token = .closing b) :
    w.text = [b.closer] := by
  obtain ⟨c, htext, hc⟩ := h.text_of_sign (by rw [htoken]; trivial)
  rw [htext, ((ofChar?_mark hc).2 b).2 htoken]

theorem of_dots (h : w.ReadsBefore rest) {back : List Char} (hdots : w.text ++ rest = '.' :: '.' :: '.' :: back) :
    w.token = .ellipsis ∧ rest = back := by
  obtain ⟨c, cs, htext, -, hread⟩ := h.read
  rw [htext, List.cons_append] at hdots
  obtain ⟨rfl, hcs⟩ := List.cons.inj hdots
  have hread' : Token.read? '.' ('.' :: '.' :: back) = some (.ellipsis, 2) := rfl
  rw [hcs, hread'] at hread
  obtain ⟨htoken, hlength⟩ := Prod.mk.inj (Option.some.inj hread)
  refine ⟨htoken.symm, ?_⟩
  calc rest = (cs ++ rest).drop cs.length := List.drop_left.symm
    _ = ('.' :: '.' :: back).drop 2 := by rw [hcs, ← hlength]
    _ = back := rfl

end ReadsBefore
end Word

/-! ## Runs of a text -/

namespace Lexeme

/-- The lexemes stand one after the other in some text. -/
def FromText (xs : List Lexeme) : Prop := ∃ tail, Word.Reads (xs.map word) tail

theorem fromText_of_ofText {cs : List Char} {xs : List Lexeme} (h : ofText cs = .ok xs) : FromText xs := by
  obtain ⟨tail, -, hreads⟩ := reads_scan h
  exact ⟨tail, hreads⟩

theorem FromText.infix {xs ys : List Lexeme} (h : FromText ys) (hx : xs <:+: ys) : FromText xs := by
  obtain ⟨before, after, rfl⟩ := hx
  obtain ⟨tail, hreads⟩ := h
  rw [List.map_append, List.map_append] at hreads
  exact ⟨_, Word.reads_infix hreads⟩

theorem FromText.exists_readsBefore {xs : List Lexeme} (h : FromText xs) {x : Lexeme} (hx : x ∈ xs) :
    ∃ rest, x.word.ReadsBefore rest := by
  obtain ⟨front, back, rfl⟩ := List.append_of_mem hx
  obtain ⟨rest, hreads⟩ : FromText [x] := h.infix ⟨front, back, by simp⟩
  exact ⟨_, hreads.1⟩

/-- **A type spelled with three dots** is the single token of three dots. -/
theorem collapse_runText_eq_dots_iff {x : Lexeme} {xs : List Lexeme} (h : FromText (x :: xs)) :
    String.ofList (Text.collapse (runText (x :: xs))) = "..." ↔ x.token = .ellipsis ∧ xs = [] := by
  obtain ⟨rest, h⟩ := h
  have hdots : "...".toList = ['.', '.', '.'] := by decide
  rw [← String.toList_inj, String.toList_ofList, hdots]
  have hx : x.word.ReadsBefore (Word.spelled (xs.map word) ++ rest) := h.1
  constructor
  · intro hcollapse
    obtain ⟨c, cs, htext, hc⟩ := hx.head_not_isBlank
    have htext : x.text = c :: cs := htext
    have hspace : ' ' ∉ Text.collapse (runText (x :: xs)) := by
      rw [hcollapse]
      decide
    have hhead : ∀ d, (runText (x :: xs)).head? = some d → Text.isBlank d = false := by
      intro d hd
      rw [runText, htext] at hd
      cases hd
      exact hc
    obtain ⟨back, hrun, hback⟩ := Text.takeWhile_of_collapse hspace hhead
    -- the whole run begins with the three dots and goes on with blanks, so no second word follows
    rw [hcollapse] at hrun
    have hrun : x.text ++ Word.spelled (xs.map word) = '.' :: '.' :: '.' :: back := by
      rw [spelled_map_word]
      exact hrun
    have hline : x.text ++ (Word.spelled (xs.map word) ++ rest) = '.' :: '.' :: '.' :: (back ++ rest) := by
      rw [← List.append_assoc, hrun]
      rfl
    obtain ⟨htoken, hrest⟩ := hx.of_dots hline
    refine ⟨htoken, ?_⟩
    cases xs with
    | nil => rfl
    | cons y ys =>
      obtain ⟨d, ds, hd, hblank⟩ := (show y.word.ReadsBefore _ from h.2.1).head_not_isBlank
      have hspelled := List.append_cancel_right hrest
      have hmem : d ∈ back := by
        rw [← hspelled]
        simp [hd]
      rw [hback d hmem] at hblank
      cases hblank
  · rintro ⟨htoken, rfl⟩
    have htext : x.text = ['.', '.', '.'] := hx.text_of_ellipsis htoken
    simp only [runText, htext]
    decide

end Lexeme
end CallSig
