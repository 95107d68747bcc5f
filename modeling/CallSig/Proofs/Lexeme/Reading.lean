import CallSig.Lexeme

/-!
# `CallSig.Proofs.Lexeme.Reading` — texts made of words read back

A word is a token with its spelling and the blanks before it, wherever it stands. Written one after the other,
words are read back as they are if none of them goes on into the next: an identifier must not be followed by a
character of names, a colon not by another colon. This is stated word by word, with the text that follows, so
that it can be proved for the parts of a line and put together.

## Contents
- **Words.** `Word`, `Lexeme.word`, `Word.spelled`, `Word.Reads`, `Word.reads_append`.
- **Scanning.** `scan_lexeme`, `scan_word`, `scan_spelled`, `ofText_spelled`.
- **Kinds of words.** `IsName`, `reads_name`, `reads_digits`, `reads_sign`, `reads_colon`, `reads_minus`,
  `reads_dots`, `reads_arrow`.
-/

namespace CallSig

/-! ## Words -/

/-- A token with its spelling and the blanks before it. -/
structure Word where
  gap : List Char
  token : Token
  text : List Char
  deriving Repr, DecidableEq

/-- A lexeme without its place. -/
def Lexeme.word (x : Lexeme) : Word := ⟨x.gap, x.token, x.text⟩

namespace Word

/-- What words spell. -/
def spelled (ws : List Word) : List Char := ws.flatMap fun w => w.gap ++ w.text

@[simp] theorem spelled_nil : spelled [] = [] := rfl

@[simp] theorem spelled_cons (w : Word) (ws : List Word) : spelled (w :: ws) = w.gap ++ w.text ++ spelled ws := rfl

@[simp] theorem spelled_append (ws ws' : List Word) : spelled (ws ++ ws') = spelled ws ++ spelled ws' :=
  List.flatMap_append

/-- The word is read as it is where this text follows it. -/
structure ReadsBefore (w : Word) (rest : List Char) : Prop where
  blank : ∀ c ∈ w.gap, isGap c = true
  read : ∃ c cs, w.text = c :: cs ∧ isGap c = false ∧ Token.read? c (cs ++ rest) = some (w.token, cs.length)

/-- The words are read as they are where this text follows them. -/
def Reads : List Word → List Char → Prop
  | [], _ => True
  | w :: ws, rest => w.ReadsBefore (spelled ws ++ rest) ∧ Reads ws rest

theorem reads_append {ws ws' : List Word} {rest : List Char} (h : Reads ws (spelled ws' ++ rest))
    (h' : Reads ws' rest) : Reads (ws ++ ws') rest := by
  induction ws with
  | nil => exact h'
  | cons w ws ih =>
    refine ⟨?_, ih h.2⟩
    show w.ReadsBefore (spelled (ws ++ ws') ++ rest)
    rw [spelled_append, List.append_assoc]
    exact h.1

end Word

/-! ## Scanning -/

namespace Lexeme

/-- The scanner reads a lexeme that is in its place and goes on after it. -/
theorem scan_lexeme {x : Lexeme} {rest : List Char} (h : x.word.ReadsBefore rest) {start : Nat}
    (hstart : x.start = start + Text.width x.gap) :
    scan start (x.gap ++ x.text ++ rest) = (scan x.span.stop rest).map (x :: ·) := by
  obtain ⟨token, gap, text, place⟩ := x
  obtain ⟨c, cs, rfl, hc, hread⟩ : ∃ c cs, text = c :: cs ∧ isGap c = false ∧
      Token.read? c (cs ++ rest) = some (token, cs.length) := h.read
  have hblank : ∀ d ∈ gap, isGap d = true := h.blank
  obtain rfl : place = start + Text.width gap := hstart
  have hgap : (gap ++ c :: cs ++ rest).takeWhile isGap = gap := by
    rw [List.append_assoc, List.takeWhile_append_of_pos hblank, List.cons_append,
      List.takeWhile_cons_of_neg (by rw [hc]; exact Bool.false_ne_true), List.append_nil]
  have hdrop : (gap ++ c :: cs ++ rest).dropWhile isGap = c :: (cs ++ rest) := by
    rw [List.append_assoc, List.dropWhile_append_of_pos hblank, List.cons_append,
      List.dropWhile_cons_of_neg (by rw [hc]; exact Bool.false_ne_true)]
  rw [scan]
  split
  · next hnil =>
    rw [hdrop] at hnil
    cases hnil
  · next c' rest' hcons =>
    rw [hdrop] at hcons
    cases hcons
    rw [hread]
    dsimp only
    rw [hgap, List.take_left, List.drop_left]
    rfl

/-- The scanner reads a word and goes on after it. -/
theorem scan_word {w : Word} {rest : List Char} (h : w.ReadsBefore rest) (start : Nat) :
    ∃ x : Lexeme, x.word = w ∧
      scan start (w.gap ++ w.text ++ rest) = (scan (x.start + Text.width w.text) rest).map (x :: ·) := by
  let x : Lexeme := ⟨w.token, w.gap, w.text, start + Text.width w.gap⟩
  have hx : x.word.ReadsBefore rest := h
  exact ⟨x, rfl, scan_lexeme hx rfl⟩

/-- The scanner reads words and goes on after them. -/
theorem scan_spelled {ws : List Word} {rest : List Char} (h : Word.Reads ws rest) (start : Nat) :
    ∃ xs : List Lexeme, xs.map word = ws ∧
      scan start (Word.spelled ws ++ rest) = (scan (start + Text.width (Word.spelled ws)) rest).map (xs ++ ·) := by
  -- the places depend on where the scanner starts, the words do not
  induction ws generalizing start with
  | nil =>
    refine ⟨[], rfl, ?_⟩
    show scan start rest = (scan start rest).map id
    cases scan start rest <;> rfl
  | cons w ws ih =>
    obtain ⟨hw, hws⟩ := h
    let x : Lexeme := ⟨w.token, w.gap, w.text, start + Text.width w.gap⟩
    have hx : x.word.ReadsBefore (Word.spelled ws ++ rest) := hw
    obtain ⟨xs, hmap, hscan⟩ := ih hws x.span.stop
    have hstop : x.span.stop + Text.width (Word.spelled ws) = start + Text.width (Word.spelled (w :: ws)) := by
      simp only [x, span, Word.spelled_cons, Text.width_append, Nat.add_assoc]
    have htext : Word.spelled (w :: ws) ++ rest = x.gap ++ x.text ++ (Word.spelled ws ++ rest) := by
      rw [Word.spelled_cons, List.append_assoc]
    refine ⟨x :: xs, by rw [List.map_cons, hmap]; rfl, ?_⟩
    rw [htext, scan_lexeme hx rfl, hscan, hstop]
    cases scan (start + Text.width (Word.spelled (w :: ws))) rest <;> rfl

/-- **A text made of words is read as these words.** -/
theorem ofText_spelled {ws : List Word} (h : Word.Reads ws []) :
    ∃ xs, ofText (Word.spelled ws) = .ok xs ∧ xs.map word = ws := by
  obtain ⟨xs, hmap, hscan⟩ := scan_spelled h 0
  have hend (stop : Nat) : scan stop [] = .ok [] := by
    rw [scan]
    rfl
  rw [List.append_nil, hend] at hscan
  refine ⟨xs, ?_, hmap⟩
  rw [ofText, hscan]
  exact congrArg Except.ok (List.append_nil xs)

end Lexeme

/-! ## Kinds of words -/

/-- The text of an identifier. -/
def IsName (cs : List Char) : Prop :=
  ∃ c more, cs = c :: more ∧ isNameStart c = true ∧ ∀ x ∈ more, isNamePart x = true

theorem isName_cons {c : Char} {more : List Char} :
    IsName (c :: more) ↔ isNameStart c = true ∧ more.all isNamePart = true := by
  rw [List.all_eq_true]
  constructor
  · rintro ⟨_, _, h, hc, hmore⟩
    cases h
    exact ⟨hc, hmore⟩
  · rintro ⟨hc, hmore⟩
    exact ⟨c, more, rfl, hc, hmore⟩

instance (cs : List Char) : Decidable (IsName cs) :=
  match cs with
  | [] => .isFalse nofun
  | _ :: _ => decidable_of_iff _ isName_cons.symm

/-- The text does not go on with a character of names. -/
def EndsName (rest : List Char) : Prop := ∀ c, rest.head? = some c → isNamePart c = false

theorem endsName_nil : EndsName [] := by
  intro c hc
  cases hc

theorem endsName_cons {c : Char} (h : isNamePart c = false) (rest : List Char) : EndsName (c :: rest) := by
  intro d hd
  cases hd
  exact h

namespace Word

/-- An identifier. -/
def name (cs : List Char) : Word := ⟨[], .identifier, cs⟩

/-- Decimal digits. -/
def digits (cs : List Char) : Word := ⟨[], .integer, cs⟩

/-- One character that is a token. -/
def sign (token : Token) (c : Char) : Word := ⟨[], token, [c]⟩

/-- Three dots. -/
def dots : Word := ⟨[], .ellipsis, ['.', '.', '.']⟩

/-- An arrow. -/
def arrow : Word := ⟨[], .arrow, ['-', '>']⟩

theorem length_takeWhile_append {p : Char → Bool} {cs rest : List Char} (h : ∀ x ∈ cs, p x = true)
    (hr : ∀ c, rest.head? = some c → p c = false) : ((cs ++ rest).takeWhile p).length = cs.length := by
  rw [List.takeWhile_append_of_pos h]
  cases rest with
  | nil => simp
  | cons c rest =>
    rw [List.takeWhile_cons_of_neg (by rw [hr c rfl]; exact Bool.false_ne_true), List.append_nil]

theorem isGap_cases {c : Char} (h : isGap c = true) : c = ' ' ∨ c = '\t' ∨ c = '\r' ∨ c = '\n' := by
  simpa [isGap, or_assoc] using h

theorem not_isGap_of_isNameStart {c : Char} (h : isNameStart c = true) : isGap c = false := by
  rw [← Bool.not_eq_true]
  intro hg
  rcases isGap_cases hg with rfl | rfl | rfl | rfl <;> revert h <;> decide

theorem not_isGap_of_isDigit {c : Char} (h : c.isDigit = true) : isGap c = false := by
  rw [← Bool.not_eq_true]
  intro hg
  rcases isGap_cases hg with rfl | rfl | rfl | rfl <;> revert h <;> decide

theorem not_isNameStart_of_isDigit {c : Char} (h : c.isDigit = true) : isNameStart c = false := by
  have hd : 48 ≤ c.toNat ∧ c.toNat ≤ 57 := by simpa [Char.isDigit, UInt32.le_iff_toNat_le] using h
  have hne : c ≠ '_' := by
    rintro rfl
    revert h
    decide
  -- the classes are ranges of code points, and the digits lie outside them
  unfold isNameStart Char.isAlpha Char.isUpper Char.isLower
  simp only [Bool.or_eq_false_iff, decide_eq_false_iff_not, Bool.and_eq_false_iff, beq_eq_false_iff_ne, ge_iff_le,
    UInt32.le_iff_toNat_le]
  refine ⟨⟨?_, ?_⟩, hne⟩
  · simp only [Char.toNat_val, Char.reduceToNat]
    omega
  · simp only [Char.toNat_val, Char.reduceToNat]
    omega

theorem not_isDigit_of_not_isNamePart {c : Char} (h : isNamePart c = false) : c.isDigit = false := by
  unfold isNamePart Char.isAlphanum at h
  simp only [Bool.or_eq_false_iff] at h
  exact h.1.2

theorem reads_name {cs rest : List Char} (h : IsName cs) (hr : EndsName rest) : (name cs).ReadsBefore rest := by
  obtain ⟨c, more, rfl, hc, hmore⟩ := h
  refine ⟨List.forall_mem_nil _, c, more, rfl, not_isGap_of_isNameStart hc, ?_⟩
  unfold Token.read?
  rw [if_pos hc, length_takeWhile_append hmore hr]
  rfl

theorem reads_digits {cs rest : List Char} (hne : cs ≠ []) (h : ∀ x ∈ cs, x.isDigit = true) (hr : EndsName rest) :
    (digits cs).ReadsBefore rest := by
  obtain ⟨c, more, rfl⟩ := List.exists_cons_of_ne_nil hne
  have hc := h c List.mem_cons_self
  refine ⟨List.forall_mem_nil _, c, more, rfl, not_isGap_of_isDigit hc, ?_⟩
  have hmore : ((more ++ rest).takeWhile Char.isDigit).length = more.length := by
    refine length_takeWhile_append (fun x hx => h x (List.mem_cons_of_mem _ hx)) fun d hd => ?_
    exact not_isDigit_of_not_isNamePart (hr d hd)
  unfold Token.read?
  rw [if_neg (by rw [not_isNameStart_of_isDigit hc]; exact Bool.false_ne_true), if_pos hc, hmore]
  rfl

/-- A character that is a token wherever it stands. -/
theorem reads_sign {c : Char} {token : Token} (rest : List Char) (hg : isGap c = false)
    (h : ∀ rest, Token.read? c rest = some (token, 0)) : (sign token c).ReadsBefore rest :=
  ⟨List.forall_mem_nil _, c, [], rfl, hg, h _⟩

theorem reads_colon {rest : List Char} (h : rest.head? ≠ some ':') : (sign .colon ':').ReadsBefore rest := by
  refine ⟨List.forall_mem_nil _, ':', [], rfl, by decide, ?_⟩
  unfold Token.read?
  rw [if_neg (by decide), if_neg (by decide), if_neg (by decide), if_neg (by simp [h]), if_neg (by simp),
    if_neg (by simp)]
  rfl

theorem read?_minus {rest : List Char} (h : rest.head? ≠ some '>') : Token.read? '-' rest = some (.minus, 0) := by
  unfold Token.read?
  rw [if_neg (by decide), if_neg (by decide), if_neg (by decide), if_neg (by simp), if_neg (by simp),
    if_neg (by simp [h])]
  rfl

theorem reads_minus {rest : List Char} (h : rest.head? ≠ some '>') : (sign .minus '-').ReadsBefore rest :=
  ⟨List.forall_mem_nil _, '-', [], rfl, by decide, read?_minus h⟩

theorem reads_dots (rest : List Char) : dots.ReadsBefore rest :=
  ⟨List.forall_mem_nil _, '.', ['.', '.'], rfl, by decide, rfl⟩

theorem reads_arrow (rest : List Char) : arrow.ReadsBefore rest :=
  ⟨List.forall_mem_nil _, '-', ['>'], rfl, by decide, rfl⟩

end Word
end CallSig
