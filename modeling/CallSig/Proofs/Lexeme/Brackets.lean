import CallSig.Proofs.Descriptor.Acceptance
import CallSig.Proofs.Lexeme.Collapsing
import CallSig.Proofs.Lexeme.Depth

/-!
# `CallSig.Proofs.Lexeme.Brackets` — the brackets of a text and of its lexemes

The parser counts brackets among lexemes, and hands types on as texts. In a text without quotes and hyphens every
bracket character is a lexeme of its own, and collapsing blanks leaves it where it is. So the type of an argument that
is accepted nests no deeper as a text than the parser allows.

## Contents
- **Brackets.** `Token.isBracket`, `bracket?`, `brackets`; `brackets_words`, `brackets_collapse`; `peak_filter`.
- **Words.** `Sober`, `ReadsBefore.brackets_text`, `brackets_spelled`.
- **Accepted arguments.** `exists_type_of_parse`, `nesting_le_of_parse`.
-/

namespace CallSig

/-! ## Brackets -/

/-- Whether the token is a bracket. -/
def Token.isBracket : Token → Bool
  | .opening _ | .closing _ => true
  | _ => false

theorem Lexeme.NoBracket.isBracket_eq_false {t : Token} (h : NoBracket t) : t.isBracket = false := by
  cases t with
  | opening b => exact absurd rfl (h b).1
  | closing b => exact absurd rfl (h b).2
  | _ => rfl

/-- The bracket that a character is. -/
def bracket? (c : Char) : Option Token := (Token.ofChar? c).filter Token.isBracket

/-- The brackets in a text, from left to right. -/
def brackets (cs : List Char) : List Token := cs.filterMap bracket?

@[simp] theorem brackets_append (cs ds : List Char) : brackets (cs ++ ds) = brackets cs ++ brackets ds :=
  List.filterMap_append

theorem bracket?_cases (c : Char) : bracket? c = none ∨ ∃ b : Bracket, c = b.opener ∨ c = b.closer := by
  unfold bracket? Token.ofChar?
  split
  · exact .inr ⟨.round, .inl rfl⟩
  · exact .inr ⟨.round, .inr rfl⟩
  · exact .inr ⟨.square, .inl rfl⟩
  · exact .inr ⟨.square, .inr rfl⟩
  · exact .inr ⟨.angle, .inl rfl⟩
  · exact .inr ⟨.angle, .inr rfl⟩
  case h_15 =>
    split
    · exact .inl rfl
    · exact .inl rfl
  all_goals exact .inl rfl

/-- Characters of a class without brackets have no brackets. -/
theorem brackets_eq_nil {p : Char → Bool} {cs : List Char} (h : ∀ c ∈ cs, p c = true)
    (hp : ∀ b : Bracket, p b.opener = false ∧ p b.closer = false) : brackets cs = [] := by
  refine List.filterMap_eq_nil_iff.2 fun c hc => (bracket?_cases c).resolve_right ?_
  have hclass : p c = true := h c hc
  rintro ⟨b, rfl | rfl⟩
  · rw [(hp b).1] at hclass
    cases hclass
  · rw [(hp b).2] at hclass
    cases hclass

/-- The words of a text have its brackets: what is dropped are blanks and empty pieces. -/
theorem brackets_words (cs : List Char) : (Text.words cs).flatMap brackets = brackets cs := by
  have hfilter : ∀ pieces : List (List Char),
      (pieces.filter fun piece => !piece.isEmpty).flatMap brackets = pieces.flatMap brackets := by
    intro pieces
    induction pieces with
    | nil => rfl
    | cons piece pieces ih =>
      cases piece with
      | nil => exact ih
      | cons c piece => simp [ih]
  unfold Text.words
  rw [hfilter]
  induction cs with
  | nil => rfl
  | cons c cs ih =>
    rw [show c :: cs = [c] ++ cs from rfl, brackets_append, ← ih, List.singleton_append, Text.cutWhere]
    split
    · next hc =>
      have hnone : brackets [c] = [] := brackets_eq_nil (List.forall_mem_singleton.2 hc) fun b => by cases b <;> decide
      rw [hnone]
      rfl
    · cases hcut : Text.cutWhere Text.isBlank cs with
      | nil => exact absurd hcut (Text.cutWhere_ne_nil _ _)
      | cons piece pieces =>
        rw [List.flatMap_cons, List.flatMap_cons, ← List.append_assoc, ← brackets_append]
        rfl

/-- Collapsing blanks leaves the brackets as they are. -/
theorem brackets_collapse (cs : List Char) : brackets (Text.collapse cs) = brackets cs := by
  rw [← brackets_words cs, Text.collapse]
  induction Text.words cs with
  | nil => rfl
  | cons word more ih =>
    cases more with
    | nil => simp [List.intercalate_singleton]
    | cons word' more =>
      have hspace : brackets [' '] = [] := rfl
      rw [List.intercalate_cons_cons, brackets_append, brackets_append, hspace, ih, List.append_nil]
      rfl

theorem mem_collapse {c : Char} {cs : List Char} (hc : c ∈ cs) (hb : Text.isBlank c = false) :
    c ∈ Text.collapse cs := by
  obtain ⟨piece, hp, hmem⟩ := Text.exists_mem_cutWhere hc hb
  have hword : piece ∈ Text.words cs := List.mem_filter.2 ⟨hp, by cases piece <;> simp_all⟩
  unfold Text.collapse
  generalize Text.words cs = words at hword ⊢
  induction words with
  | nil => cases hword
  | cons word more ih =>
    cases more with
    | nil =>
      rw [List.intercalate_singleton]
      exact List.mem_singleton.1 hword ▸ hmem
    | cons word' more =>
      rw [List.intercalate_cons_cons, List.mem_append]
      rcases List.mem_cons.1 hword with rfl | hword
      · exact .inl (List.mem_append_left _ hmem)
      · exact .inr (ih hword)

/-- Tokens that are no brackets open none. -/
theorem Lexeme.peak_filter (opened : Nat) (ts : List Token) :
    peak opened (ts.filter Token.isBracket) = peak opened ts := by
  induction ts generalizing opened with
  | nil => rfl
  | cons t ts ih =>
    cases t with
    | opening b => exact ih (opened + 1)
    | closing b => exact congrArg (max opened) (ih (opened - 1))
    | _ => exact ih opened

/-! ## Words -/

/-- The character begins no string literal and no arrow. -/
def Sober (c : Char) : Prop := c ≠ '"' ∧ c ≠ '\'' ∧ c ≠ '-'

/-- **A bracket character is a token of its own**, unless it stands in a string literal or an arrow. -/
theorem brackets_of_read? {c : Char} {rest : List Char} {token : Token} {n : Nat} (hs : Sober c)
    (h : Token.read? c rest = some (token, n)) : brackets (c :: rest.take n) = [token].filter Token.isBracket := by
  obtain ⟨hdouble, hsingle, hhyphen⟩ := hs
  unfold Token.read? at h
  split at h
  · next hc =>
    cases h
    rw [← List.prefix_iff_eq_take.1 (List.takeWhile_prefix isNamePart)]
    have hname : ∀ d ∈ c :: rest.takeWhile isNamePart, isNamePart d = true :=
      List.forall_mem_cons.2 ⟨Word.isNamePart_of_isNameStart hc, List.all_eq_true.1 List.all_takeWhile⟩
    exact brackets_eq_nil hname fun b => by cases b <;> decide
  split at h
  · next hc =>
    cases h
    rw [← List.prefix_iff_eq_take.1 (List.takeWhile_prefix Char.isDigit)]
    have hdigits : ∀ d ∈ c :: rest.takeWhile Char.isDigit, d.isDigit = true :=
      List.forall_mem_cons.2 ⟨hc, List.all_eq_true.1 List.all_takeWhile⟩
    exact brackets_eq_nil hdigits fun b => by cases b <;> decide
  split at h
  · next hc => exact absurd hc (not_or.2 ⟨hdouble, hsingle⟩)
  split at h
  · next hc =>
    obtain ⟨rfl, hhead⟩ := hc
    cases h
    obtain ⟨back, rfl⟩ := List.head?_eq_some_iff.1 hhead
    rfl
  split at h
  · next hc =>
    obtain ⟨rfl, htake⟩ := hc
    cases h
    rw [htake]
    rfl
  split at h
  · next hc => exact absurd hc.1 hhyphen
  · obtain ⟨token, htoken, he⟩ := Option.map_eq_some_iff.1 h
    cases he
    unfold brackets bracket?
    rw [List.take_zero, List.filterMap_cons, htoken, Option.filter_some, List.filterMap_nil]
    cases htb : token.isBracket with
    | false => simp [htb]
    | true => simp [htb]

namespace Word

theorem ReadsBefore.brackets_gap {w : Word} {rest : List Char} (h : w.ReadsBefore rest) : brackets w.gap = [] :=
  brackets_eq_nil h.blank fun b => by cases b <;> decide

theorem ReadsBefore.brackets_text {w : Word} {rest : List Char} (h : w.ReadsBefore rest) (hs : ∀ c ∈ w.text, Sober c) :
    brackets w.text = [w.token].filter Token.isBracket := by
  obtain ⟨c, cs, htext, -, hread⟩ := h.read
  rw [← brackets_of_read? (hs c (by simp [htext])) hread, List.take_left, htext]

/-- The brackets in what words spell are their bracket tokens. -/
theorem brackets_spelled {ws : List Word} {rest : List Char} (h : Reads ws rest) (hs : ∀ c ∈ spelled ws, Sober c) :
    brackets (spelled ws) = (ws.map Word.token).filter Token.isBracket := by
  induction ws with
  | nil => rfl
  | cons w ws ih =>
    obtain ⟨hw, hws⟩ := h
    rw [spelled_cons] at hs ⊢
    obtain ⟨hfirst, hmore⟩ := List.forall_mem_append.1 hs
    rw [brackets_append, brackets_append, hw.brackets_gap, hw.brackets_text (List.forall_mem_append.1 hfirst).2,
      ih hws hmore, List.nil_append, ← List.filter_append]
    rfl

end Word

/-! ## Accepted arguments -/

namespace Grammar

open Lexeme

theorem exists_form_of_mem {star : Bool} {items : List Item} {arg : Argument} (h : arg ∈ argumentsFrom star items) :
    ∃ form kind, .argument form ∈ items ∧ arg = form.argument kind := by
  induction items generalizing star with
  | nil => cases h
  | cons item items ih =>
    have hback {star : Bool} (h : arg ∈ argumentsFrom star items) :
        ∃ form kind, .argument form ∈ item :: items ∧ arg = form.argument kind := by
      obtain ⟨form, kind, hmem, harg⟩ := ih h
      exact ⟨form, kind, List.mem_cons_of_mem _ hmem, harg⟩
    cases item with
    | slash | star => exact hback h
    | argument form =>
      rcases List.mem_cons.1 h with rfl | h
      · exact ⟨form, _, List.mem_cons_self, rfl⟩
      · exact hback h

/-- The type of an accepted argument is spelled by lexemes of the line that nest within the limit. -/
theorem exists_type_of_parse {depth : Nat} {line : String} {d : Descriptor} (h : Descriptor.parse depth line = .ok d)
    {arg : Argument} (ha : arg ∈ d.arguments) :
    ∃ xs, FromText xs ∧ Nested NoEqual (Descriptor.parserDepth depth) xs ∧
      arg.typeToken = String.ofList (Text.collapse (runText xs)) := by
  obtain ⟨g, hline, hg, rfl⟩ := parse_eq_ok_iff.1 h
  obtain ⟨form, kind, hmem, rfl⟩ := exists_form_of_mem ha
  have hform : form.lexemes <:+: g.inner := by
    rcases hg.list with ⟨-, hnil⟩ | hparts
    · rw [hnil] at hmem
      cases hmem
    · exact (hparts.forall_mem _ (List.mem_map.2 ⟨_, hmem, rfl⟩)).2
  have hinner : g.inner <:+: g.lexemes :=
    ⟨indexed g.index? ++ g.first :: (dotted g.more ++ [g.opened]), g.closed :: marked g.result?, by simp [Line.lexemes]⟩
  have htext : FromText form.lexemes := FromText.infix (fromText_of_ofText hline) (hform.trans hinner)
  have hwell : form.WellFormed _ := hg.items _ hmem
  exact ⟨form.type, ArgumentForm.fromText_type htext, hwell.type_nested, typeToken_argument kind form⟩

/-- The brackets in the text of a run are its bracket tokens. -/
theorem brackets_runText {xs : List Lexeme} (h : FromText xs) (hs : ∀ c ∈ runText xs, Sober c) :
    brackets (runText xs) = (xs.map Lexeme.token).filter Token.isBracket := by
  rw [← spelled_bare] at hs ⊢
  rw [Word.brackets_spelled h.reads_bare hs, token_bare]

/-- **The type of an accepted argument nests within the limit**, also where it is read again as a text. -/
theorem nesting_le_of_parse {depth : Nat} {line : String} {d : Descriptor} (h : Descriptor.parse depth line = .ok d)
    {arg : Argument} (ha : arg ∈ d.arguments) {ws : List Word} (htoken : arg.typeToken.toList = Word.spelled ws)
    {rest : List Char} (hreads : Word.Reads ws rest) (hs : ∀ c ∈ Word.spelled ws, Sober c) {outer : Token → Prop}
    {n : Nat} (hn : Nests outer n (ws.map Word.token)) : n ≤ Descriptor.parserDepth depth := by
  obtain ⟨xs, hxs, hnested, htype⟩ := exists_type_of_parse h ha
  rw [htype, String.toList_ofList] at htoken
  have hsober : ∀ c ∈ runText xs, Sober c := by
    intro c hc
    by_cases hb : Text.isBlank c = true
    · refine ⟨?_, ?_, ?_⟩ <;>
      · rintro rfl
        exact absurd hb (by decide)
    · apply hs
      rw [← htoken]
      exact mem_collapse hc (by simpa using hb)
  have hpeak : peak 0 (ws.map Word.token) = peak 0 (xs.map Lexeme.token) := by
    rw [← peak_filter, ← Word.brackets_spelled hreads hs, ← htoken, brackets_collapse, brackets_runText hxs hsober,
      peak_filter]
  have hlower := hn.peak_eq 0 []
  have hupper := hnested.peak_le 0 []
  rw [List.append_nil] at hlower hupper
  simp only [peak] at hlower hupper
  omega

end Grammar
end CallSig
