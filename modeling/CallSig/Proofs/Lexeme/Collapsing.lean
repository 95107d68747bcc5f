import CallSig.Proofs.Lexeme.Literals
import CallSig.Proofs.Text.Collapse
import Mathlib.Data.List.Forall2

/-!
# `CallSig.Proofs.Lexeme.Collapsing` — a run is read again after its blanks are collapsed

The parser hands types and defaults on as texts, in which every run of blanks has become one space, and these texts are
read again later. Between words a blank is as good as another, and a string literal only loses blanks that are not its
first after a backslash, so the same tokens are read again, and all words but the string literals are spelled as before.

## Contents
- **Less to read.** `read?_of_append`, `Reads.cut`: words are read alike where less text follows them.
- **Words.** `not_isBlank_of_mem_text`, `read?_squeezed`, `stringTail?_squeezed`.
- **Runs.** `Word.Squeezes`, `reads_squeezed`; `bare`, `exists_ofText_runText`;
  `exists_ofText_squeezes`, `exists_ofText_collapse`.
- **Ends.** `getLast?_of_stringTail?`, `runText_ne_nil`, `tight_runText`.
- **Pieces.** `Nested.congr`, `Separated.congr`, `splitText_runText`.
-/

namespace CallSig

open Text

/-! ## Less to read -/

theorem length_takeWhile_of_append {p : Char → Bool} {cs rest : List Char}
    (h : ((cs ++ rest).takeWhile p).length ≤ cs.length) : (cs ++ rest).takeWhile p = cs.takeWhile p := by
  induction cs with
  | nil => exact List.eq_nil_of_length_eq_zero (Nat.le_zero.1 h)
  | cons c cs ih =>
    simp only [List.cons_append, List.takeWhile_cons] at h ⊢
    cases hc : p c with
    | false => rfl
    | true =>
      rw [hc] at h
      exact congrArg (c :: ·) (ih (Nat.le_of_succ_le_succ h))

theorem stringTail?_pos {quote : Char} {cs : List Char} {n : Nat} (h : stringTail? quote cs = some n) : 0 < n := by
  fun_cases stringTail? quote cs with
  | case1 | case2 | case3 => simp_all [stringTail?]
  | case4 c cs hc =>
    rw [stringTail?_escaped hc] at h
    obtain ⟨m, -, rfl⟩ := Option.map_eq_some_iff.1 h
    exact Nat.succ_pos _
  | case5 cs hlone hescaped =>
    rw [stringTail?_close (not_backslash hlone hescaped)] at h
    exact Option.some.inj h ▸ Nat.succ_pos _
  | case6 c cs hlone hescaped hc =>
    rw [stringTail?_plain (not_backslash hlone hescaped) hc] at h
    obtain ⟨m, -, rfl⟩ := Option.map_eq_some_iff.1 h
    exact Nat.succ_pos _

/-- A string literal that is closed in a text is closed in every part of it that reaches the closing quote. -/
theorem stringTail?_of_append {quote : Char} {cs rest : List Char} {n : Nat}
    (h : stringTail? quote (cs ++ rest) = some n) (hn : n ≤ cs.length) : stringTail? quote cs = some n := by
  fun_induction stringTail? quote cs generalizing n with
  | case1 => exact absurd (stringTail?_pos h) (Nat.not_lt.2 hn)
  | case2 =>
    -- the backslash takes a character that is cut off
    cases rest with
    | nil => exact h
    | cons d rest =>
      rw [List.singleton_append, stringTail?] at h
      split at h
      · cases h
      · obtain ⟨m, -, rfl⟩ := Option.map_eq_some_iff.1 h
        exact absurd hn (by simp)
  | case3 =>
    rw [List.cons_append, List.cons_append, stringTail?, if_pos rfl] at h
    cases h
  | case4 c cs hc ih =>
    rw [List.cons_append, List.cons_append, stringTail?_escaped hc] at h
    obtain ⟨m, hm, rfl⟩ := Option.map_eq_some_iff.1 h
    rw [ih hm (by simpa using hn)]
    rfl
  | case5 cs hlone hescaped =>
    rw [List.cons_append, stringTail?_close (not_backslash hlone hescaped)] at h
    exact h
  | case6 c cs hlone hescaped hc ih =>
    rw [List.cons_append, stringTail?_plain (not_backslash hlone hescaped) hc] at h
    obtain ⟨m, hm, rfl⟩ := Option.map_eq_some_iff.1 h
    rw [ih hm (by simpa using hn)]
    rfl

theorem head?_append_of_le {cs rest : List Char} {d : Char} (h : (cs ++ rest).head? = some d) (hn : 1 ≤ cs.length) :
    cs.head? = some d := by
  cases cs with
  | nil => cases hn
  | cons c cs => exact h

/-- A token is read alike where less text follows it. -/
theorem read?_of_append {c : Char} {cs rest : List Char} {token : Token} {n : Nat}
    (h : Token.read? c (cs ++ rest) = some (token, n)) (hn : n ≤ cs.length) : Token.read? c cs = some (token, n) := by
  have hhead {d : Char} (hne : (cs ++ rest).head? ≠ some d) : cs.head? ≠ some d := by
    intro hd
    obtain ⟨ds, rfl⟩ := List.head?_eq_some_iff.1 hd
    exact hne rfl
  have htake : ¬(c = '.' ∧ (cs ++ rest).take 2 = ['.', '.']) → ¬(c = '.' ∧ cs.take 2 = ['.', '.']) := by
    rintro hne ⟨hc, hdots⟩
    refine hne ⟨hc, ?_⟩
    match cs, hdots with
    | d :: e :: cs, hdots => exact hdots
  unfold Token.read? at h ⊢
  by_cases hname : isNameStart c = true
  · rw [if_pos hname] at h ⊢
    obtain ⟨rfl, rfl⟩ := Prod.mk.inj (Option.some.inj h)
    rw [length_takeWhile_of_append hn]
  rw [if_neg hname] at h ⊢
  by_cases hdigit : c.isDigit = true
  · rw [if_pos hdigit] at h ⊢
    obtain ⟨rfl, rfl⟩ := Prod.mk.inj (Option.some.inj h)
    rw [length_takeWhile_of_append hn]
  rw [if_neg hdigit] at h ⊢
  by_cases hquote : c = '"' ∨ c = '\''
  · rw [if_pos hquote] at h ⊢
    obtain ⟨m, hm, he⟩ := Option.map_eq_some_iff.1 h
    obtain ⟨rfl, rfl⟩ := Prod.mk.inj he
    rw [stringTail?_of_append hm hn]
    rfl
  rw [if_neg hquote] at h ⊢
  by_cases hcolon : c = ':' ∧ (cs ++ rest).head? = some ':'
  · rw [if_pos hcolon] at h
    obtain ⟨rfl, rfl⟩ := Prod.mk.inj (Option.some.inj h)
    rw [if_pos ⟨hcolon.1, head?_append_of_le hcolon.2 hn⟩]
  rw [if_neg hcolon] at h
  rw [if_neg fun hc => hhead (fun hd => hcolon ⟨hc.1, hd⟩) hc.2]
  by_cases hdots : c = '.' ∧ (cs ++ rest).take 2 = ['.', '.']
  · rw [if_pos hdots] at h
    obtain ⟨rfl, rfl⟩ := Prod.mk.inj (Option.some.inj h)
    rw [if_pos ⟨hdots.1, by rw [← hdots.2, List.take_append_of_le_length hn]⟩]
  rw [if_neg hdots] at h
  rw [if_neg (htake hdots)]
  by_cases harrow : c = '-' ∧ (cs ++ rest).head? = some '>'
  · rw [if_pos harrow] at h
    obtain ⟨rfl, rfl⟩ := Prod.mk.inj (Option.some.inj h)
    rw [if_pos ⟨harrow.1, head?_append_of_le harrow.2 hn⟩]
  rw [if_neg harrow] at h
  rw [if_neg fun hc => hhead (fun hd => harrow ⟨hc.1, hd⟩) hc.2]
  exact h

namespace Word

theorem ReadsBefore.cut {w : Word} {rest more : List Char} (h : w.ReadsBefore (rest ++ more)) : w.ReadsBefore rest := by
  obtain ⟨c, cs, htext, hc, hread⟩ := h.read
  rw [← List.append_assoc] at hread
  exact ⟨h.blank, c, cs, htext, hc, read?_of_append hread (by simp)⟩

/-- Words are read alike where less text follows them. -/
theorem Reads.cut {ws : List Word} {rest more : List Char} (h : Reads ws (rest ++ more)) : Reads ws rest := by
  induction ws with
  | nil => trivial
  | cons w ws ih =>
    obtain ⟨hw, hws⟩ := h
    rw [← List.append_assoc] at hw
    exact ⟨hw.cut, ih hws⟩

end Word

/-! ## Words -/

theorem ofChar?_ne_string (c : Char) : Token.ofChar? c ≠ some .stringLiteral := by
  intro h
  unfold Token.ofChar? at h
  split at h
  case h_15 =>
    split at h
    · cases h
    · cases h
  all_goals cases h

/-- What is read as a string literal is closed by the quote that it begins with. -/
theorem of_read?_string {c : Char} {rest : List Char} {n : Nat}
    (h : Token.read? c rest = some (.stringLiteral, n)) : (c = '"' ∨ c = '\'') ∧ stringTail? c rest = some n := by
  unfold Token.read? at h
  split at h
  · cases h
  split at h
  · cases h
  split at h
  · next hc =>
    obtain ⟨m, hm, he⟩ := Option.map_eq_some_iff.1 h
    cases he
    exact ⟨hc, hm⟩
  · -- every other token is no string literal
    iterate 3
      split at h
      · cases h
    obtain ⟨token, htoken, he⟩ := Option.map_eq_some_iff.1 h
    cases he
    exact absurd htoken (ofChar?_ne_string c)

/-- What begins with a quote is read as a string literal. -/
theorem read?_quote {c : Char} (hc : c = '"' ∨ c = '\'') (rest : List Char) :
    Token.read? c rest = (stringTail? c rest).map fun n => (.stringLiteral, n) := by
  have hplain : isNameStart c ≠ true ∧ c.isDigit ≠ true := by rcases hc with rfl | rfl <;> decide
  unfold Token.read?
  rw [if_neg hplain.1, if_neg hplain.2, if_pos hc]

/-- Only string literals have blanks in them. -/
theorem not_isBlank_of_mem_text {c : Char} {rest : List Char} {token : Token} {n : Nat}
    (h : Token.read? c rest = some (token, n)) (ht : token ≠ .stringLiteral) : ∀ d ∈ rest.take n, isBlank d = false := by
  have hclass {p : Char → Bool} (hp : ∀ d, p d = true → isNamePart d = true) :
      ∀ d ∈ rest.take (rest.takeWhile p).length, isBlank d = false := by
    rw [← List.prefix_iff_eq_take.1 (List.takeWhile_prefix p)]
    exact fun d hd => Word.not_isBlank_of_isNamePart (hp d (List.all_eq_true.1 List.all_takeWhile d hd))
  unfold Token.read? at h
  split at h
  · cases h
    exact hclass fun d hd => hd
  split at h
  · cases h
    exact hclass fun d => isNamePart_of_isDigit
  split at h
  · obtain ⟨m, -, he⟩ := Option.map_eq_some_iff.1 h
    cases he
    exact absurd rfl ht
  split at h
  · next hc =>
    cases h
    obtain ⟨back, rfl⟩ := List.head?_eq_some_iff.1 hc.2
    exact List.forall_mem_singleton.2 (by decide)
  split at h
  · next hc =>
    cases h
    rw [hc.2]
    exact List.forall_mem_cons.2 ⟨by decide, List.forall_mem_singleton.2 (by decide)⟩
  split at h
  · next hc =>
    cases h
    obtain ⟨back, rfl⟩ := List.head?_eq_some_iff.1 hc.2
    exact List.forall_mem_singleton.2 (by decide)
  · obtain ⟨_, -, he⟩ := Option.map_eq_some_iff.1 h
    cases he
    exact List.forall_mem_nil _

/-- What begins with no quote is read alike in front of collapsed blanks. -/
theorem read?_squeezed {c : Char} (hc : ¬(c = '"' ∨ c = '\'')) (rest : List Char) :
    Token.read? c (squeezed rest) = Token.read? c rest := by
  have hname (d : Char) (hd : isBlank d = true) : isNamePart d = false := by
    rw [← Bool.not_eq_true]
    intro hpart
    rw [Word.not_isBlank_of_isNamePart hpart] at hd
    cases hd
  have hdigit (d : Char) (hd : isBlank d = true) : d.isDigit = false := by
    rw [← Bool.not_eq_true]
    intro hdigit
    have hpart := isNamePart_of_isDigit hdigit
    rw [hname d hd] at hpart
    cases hpart
  unfold Token.read?
  simp only [takeWhile_squeezed hname, takeWhile_squeezed hdigit, if_neg hc,
    head?_squeezed (show isBlank ':' = false by decide), head?_squeezed (show isBlank '>' = false by decide),
    take_two_squeezed (show isBlank '.' = false by decide) (show isBlank '.' = false by decide)]

/-- A string literal is closed by a quote that nothing after it undoes. -/
def Closes (quote : Char) (body : List Char) : Prop := ∀ rest, stringTail? quote (body ++ rest) = some body.length

theorem Closes.ne_nil {quote : Char} {body : List Char} (h : Closes quote body) : body ≠ [] := by
  rintro rfl
  exact absurd (stringTail?_pos (h [])) (Nat.lt_irrefl 0)

theorem Closes.plain {quote c : Char} {body : List Char} (h : Closes quote body) (hbackslash : c ≠ '\\')
    (hquote : c ≠ quote) : Closes quote (c :: body) := by
  intro rest
  rw [List.cons_append, stringTail?_plain hbackslash hquote, h rest]
  rfl

theorem Closes.escaped {quote c : Char} {body : List Char} (h : Closes quote body) (hc : c ≠ '\n') :
    Closes quote ('\\' :: c :: body) := by
  intro rest
  rw [List.cons_append, List.cons_append, stringTail?_escaped hc, h rest]
  rfl

/-- **A string literal stays one** when its blanks are collapsed, whether a blank stands before this part of it or
not. -/
theorem stringTail?_squeezed {quote : Char} (hq : isBlank quote = false) {cs : List Char} {n : Nat}
    (h : stringTail? quote cs = some n) :
    (∃ body, squeezed cs = body ++ squeezed (cs.drop n) ∧ Closes quote body) ∧
      ∃ body, collapse cs = body ++ squeezed (cs.drop n) ∧ Closes quote body := by
  have hspace : ' ' ≠ quote := by
    rintro rfl
    exact absurd hq (by decide)
  fun_induction stringTail? quote cs generalizing n with
  | case1 | case2 | case3 => cases h
  | case4 c cs hc ih =>
    obtain ⟨m, hm, rfl⟩ := Option.map_eq_some_iff.1 h
    obtain ⟨⟨body, hsqueezed, hbody⟩, body', hcollapse, hbody'⟩ := ih hm
    -- a backslash is no blank, so both forms are the same
    have hboth : ∃ body, squeezed ('\\' :: c :: cs) = body ++ squeezed (cs.drop m) ∧ Closes quote body := by
      rw [squeezed_cons_solid (by decide)]
      cases hblank : isBlank c with
      | false =>
        rw [squeezed_cons_solid hblank, hsqueezed]
        exact ⟨'\\' :: c :: body, rfl, hbody.escaped hc⟩
      | true =>
        rw [squeezed_cons_blank hblank (by rw [hcollapse]; simp [hbody'.ne_nil]), hcollapse]
        exact ⟨'\\' :: ' ' :: body', rfl, hbody'.escaped (by decide)⟩
    exact ⟨hboth, by rw [collapse_eq_squeezed (by decide)]; exact hboth⟩
  | case5 cs hlone hescaped =>
    cases h
    have hclose : Closes quote [quote] := fun rest => stringTail?_close (not_backslash hlone hescaped) rest
    refine ⟨⟨[quote], squeezed_cons_solid hq cs, hclose⟩, [quote], collapse_cons_solid hq cs, hclose⟩
  | case6 c cs hlone hescaped hc ih =>
    obtain ⟨m, hm, rfl⟩ := Option.map_eq_some_iff.1 h
    obtain ⟨⟨body, hsqueezed, hbody⟩, body', hcollapse, hbody'⟩ := ih hm
    have hplain := not_backslash hlone hescaped
    cases hblank : isBlank c with
    | false =>
      have hboth : ∃ body, squeezed (c :: cs) = body ++ squeezed (cs.drop m) ∧ Closes quote body := by
        rw [squeezed_cons_solid hblank, hsqueezed]
        exact ⟨c :: body, rfl, hbody.plain hplain hc⟩
      exact ⟨hboth, by rw [collapse_eq_squeezed hblank]; exact hboth⟩
    | true =>
      have hne : collapse cs ≠ [] := by
        rw [hcollapse]
        simp [hbody'.ne_nil]
      refine ⟨⟨' ' :: body', ?_, hbody'.plain (by decide) hspace⟩, body', ?_, hbody'⟩
      · rw [squeezed_cons_blank hblank hne, hcollapse]
        rfl
      · rw [collapse_cons_blank hblank, hcollapse]
        rfl

/-! ## Runs -/

namespace Word

/-- The second word is what the first one is read as when blanks are collapsed. -/
structure Squeezes (w w' : Word) : Prop where
  gap : w'.gap = oneSpace w.gap
  token : w'.token = w.token
  text : w.token ≠ .stringLiteral → w'.text = w.text

theorem isGap_of_mem_oneSpace (gap : List Char) : ∀ c ∈ oneSpace gap, isGap c = true := by
  unfold oneSpace
  split
  · exact List.forall_mem_nil _
  · exact List.forall_mem_singleton.2 (by decide)

/-- **One word** in front of collapsed blanks. -/
theorem ReadsBefore.squeezed {w : Word} {rest : List Char} (h : w.ReadsBefore rest) :
    ∃ w', Squeezes w w' ∧ Text.squeezed (w.gap ++ w.text ++ rest) = w'.gap ++ w'.text ++ Text.squeezed rest ∧
      w'.ReadsBefore (Text.squeezed rest) := by
  obtain ⟨c, cs, htext, hgap, hread⟩ := h.read
  have hblank := fun d hd => isBlank_of_isGap (h.blank d hd)
  have hc := not_isBlank_of_read? hread
  have hspelled : Text.squeezed (w.gap ++ w.text ++ rest) =
      oneSpace w.gap ++ c :: Text.squeezed (cs ++ rest) := by
    rw [htext, List.append_assoc, List.cons_append, squeezed_gap hblank hc]
  by_cases htoken : w.token = .stringLiteral
  · rw [htoken] at hread
    obtain ⟨hquote, hn⟩ := of_read?_string hread
    obtain ⟨⟨body, hbody, hcloses⟩, -⟩ := stringTail?_squeezed hc hn
    rw [List.drop_left] at hbody
    refine ⟨⟨oneSpace w.gap, w.token, c :: body⟩, ⟨rfl, rfl, fun hne => absurd htoken hne⟩, ?_, ?_⟩
    · rw [hspelled, hbody]
      simp
    · refine ⟨isGap_of_mem_oneSpace _, c, body, rfl, hgap, ?_⟩
      rw [read?_quote hquote, hcloses, htoken]
      rfl
  · have hquote : ¬(c = '"' ∨ c = '\'') := by
      intro hquote
      rw [read?_quote hquote] at hread
      obtain ⟨m, -, he⟩ := Option.map_eq_some_iff.1 hread
      exact htoken (Prod.mk.inj he).1.symm
    have hcs := not_isBlank_of_mem_text hread htoken
    rw [List.take_left] at hcs
    refine ⟨⟨oneSpace w.gap, w.token, w.text⟩, ⟨rfl, rfl, fun _ => rfl⟩, ?_, ?_⟩
    · rw [hspelled, squeezed_append_solid hcs, htext]
      simp
    · refine ⟨isGap_of_mem_oneSpace _, c, cs, htext, hgap, ?_⟩
      rw [← squeezed_append_solid hcs, read?_squeezed hquote]
      exact hread

/-- **Words in front of collapsed blanks.** -/
theorem reads_squeezed {ws : List Word} (h : Reads ws []) :
    ∃ ws', List.Forall₂ Squeezes ws ws' ∧ Text.squeezed (spelled ws) = spelled ws' ∧ Reads ws' [] := by
  induction ws with
  | nil => exact ⟨[], .nil, rfl, trivial⟩
  | cons w ws ih =>
    obtain ⟨hw, hws⟩ := h
    obtain ⟨ws', hsqueezes, hspelled, hreads⟩ := ih hws
    rw [List.append_nil] at hw
    obtain ⟨w', hsqueeze, hword, hread⟩ := hw.squeezed
    refine ⟨w' :: ws', .cons hsqueeze hsqueezes, ?_, ?_, hreads⟩
    · rw [spelled_cons, hword, hspelled, spelled_cons]
    · rwa [hspelled, ← List.append_nil (spelled ws')] at hread

theorem map_token_of_squeezes {ws ws' : List Word} (h : List.Forall₂ Squeezes ws ws') :
    ws'.map token = ws.map token := by
  induction h with
  | nil => rfl
  | cons hsqueeze _ ih => rw [List.map_cons, List.map_cons, hsqueeze.token, ih]

end Word

namespace Lexeme

/-- The words of a run, without the blanks before the first. -/
def bare : List Lexeme → List Word
  | [] => []
  | x :: xs => { x.word with gap := [] } :: xs.map word

theorem spelled_bare (xs : List Lexeme) : Word.spelled (bare xs) = runText xs := by
  cases xs with
  | nil => rfl
  | cons x xs =>
    rw [bare, Word.spelled_cons, spelled_map_word]
    rfl

theorem token_bare (xs : List Lexeme) : (bare xs).map Word.token = xs.map token := by
  cases xs with
  | nil => rfl
  | cons x xs =>
    rw [bare, List.map_cons, List.map_map]
    rfl

/-- No blanks stand before the first word. -/
def Flush (ws : List Word) : Prop := ∀ w, ws.head? = some w → w.gap = []

theorem flush_bare (xs : List Lexeme) : Flush (bare xs) := by
  cases xs with
  | nil => nofun
  | cons x xs =>
    rintro w ⟨⟩
    rfl

theorem bare_of_map_word {xs : List Lexeme} {ws : List Word} (h : xs.map word = ws) (hflush : Flush ws) :
    bare xs = ws := by
  subst h
  cases xs with
  | nil => rfl
  | cons x xs =>
    have hgap : x.gap = [] := hflush x.word rfl
    rw [bare, List.map_cons, ← hgap]
    rfl

theorem flush_of_squeezes {ws ws' : List Word} (h : List.Forall₂ Word.Squeezes ws ws') (hflush : Flush ws) :
    Flush ws' := by
  cases h with
  | nil => exact hflush
  | @cons w w' _ _ hsqueeze =>
    rintro v ⟨⟩
    rw [hsqueeze.gap, hflush w rfl]
    rfl

/-- A run is read as its words, whatever it was taken from. -/
theorem FromText.reads_bare {xs : List Lexeme} (h : FromText xs) : Word.Reads (bare xs) [] := by
  cases xs with
  | nil => trivial
  | cons x xs =>
    obtain ⟨tail, hx, hxs⟩ := h
    have hreads : Word.Reads (bare (x :: xs)) ([] ++ tail) := ⟨⟨List.forall_mem_nil _, hx.read⟩, hxs⟩
    exact hreads.cut

/-- **A run is read again from its text.** -/
theorem exists_ofText_runText {xs : List Lexeme} (h : FromText xs) :
    ∃ ys, ofText (runText xs) = .ok ys ∧ ys.map word = bare xs := by
  rw [← spelled_bare]
  exact ofText_spelled h.reads_bare

/-- **A run is read again from its text with the blanks collapsed**, word by word, and the words spell this text. -/
theorem exists_ofText_squeezes {xs : List Lexeme} (h : FromText xs) :
    ∃ ys, ofText (collapse (runText xs)) = .ok ys ∧ runText ys = collapse (runText xs) ∧
      List.Forall₂ Word.Squeezes (bare xs) (ys.map word) := by
  have hcollapse : collapse (runText xs) = squeezed (Word.spelled (bare xs)) := by
    rw [spelled_bare]
    cases xs with
    | nil => rfl
    | cons x xs =>
      obtain ⟨c, cs, htext, -, hread⟩ := h.reads_bare.1.read
      have htext : x.text = c :: cs := htext
      rw [runText, htext, List.cons_append, collapse_eq_squeezed (Word.not_isBlank_of_read? hread)]
  obtain ⟨ws, hsqueezes, hspelled, hreads⟩ := Word.reads_squeezed h.reads_bare
  obtain ⟨ys, hys, hwords⟩ := ofText_spelled hreads
  have hbare : bare ys = ws := bare_of_map_word hwords (flush_of_squeezes hsqueezes (flush_bare xs))
  rw [hcollapse, hspelled]
  refine ⟨ys, hys, ?_, ?_⟩
  · rw [← spelled_bare, hbare]
  · rw [hwords]
    exact hsqueezes

/-- The tokens are the same. -/
theorem exists_ofText_collapse {xs : List Lexeme} (h : FromText xs) :
    ∃ ys, ofText (collapse (runText xs)) = .ok ys ∧ runText ys = collapse (runText xs) ∧
      ys.map token = xs.map token := by
  obtain ⟨ys, hys, htext, hsqueezes⟩ := exists_ofText_squeezes h
  refine ⟨ys, hys, htext, ?_⟩
  rw [← token_bare xs, ← Word.map_token_of_squeezes hsqueezes, List.map_map]
  rfl

end Lexeme

/-! ## Ends -/

theorem getLast?_of_stringTail? {quote : Char} {cs : List Char} {n : Nat} (h : stringTail? quote cs = some n)
    (hn : n = cs.length) : cs.getLast? = some quote := by
  fun_induction stringTail? quote cs generalizing n with
  | case1 | case2 | case3 => cases h
  | case4 c cs hc ih =>
    obtain ⟨m, hm, rfl⟩ := Option.map_eq_some_iff.1 h
    have hlast := ih hm (by simpa using hn)
    simp [List.getLast?_cons, hlast]
  | case5 cs =>
    cases h
    rw [List.eq_nil_of_length_eq_zero (Nat.succ.inj hn).symm]
    rfl
  | case6 c cs _ _ _ ih =>
    obtain ⟨m, hm, rfl⟩ := Option.map_eq_some_iff.1 h
    have hlast := ih hm (by simpa using hn)
    simp [List.getLast?_cons, hlast]

namespace Word

theorem ReadsBefore.last_not_isBlank {w : Word} {rest : List Char} (h : w.ReadsBefore rest) :
    ∀ c, w.text.getLast? = some c → isBlank c = false := by
  obtain ⟨d, cs, htext, -, hread⟩ := h.read
  have hd := not_isBlank_of_read? hread
  intro c hc
  rw [htext] at hc
  by_cases htoken : w.token = .stringLiteral
  · rw [htoken] at hread
    obtain ⟨-, hn⟩ := of_read?_string hread
    have hlast := getLast?_of_stringTail? (stringTail?_of_append hn (Nat.le_refl _)) rfl
    rw [List.getLast?_cons, hlast] at hc
    exact Option.some.inj hc ▸ hd
  · have hcs := not_isBlank_of_mem_text hread htoken
    rw [List.take_left] at hcs
    rcases List.mem_cons.1 (List.mem_of_getLast? hc) with rfl | hmem
    · exact hd
    · exact hcs c hmem

theorem Reads.last_not_isBlank {ws : List Word} {rest : List Char} (h : Reads ws rest) :
    ∀ c, (spelled ws).getLast? = some c → isBlank c = false := by
  induction ws with
  | nil => nofun
  | cons w ws ih =>
    intro c hc
    obtain ⟨hw, hws⟩ := h
    cases hs : spelled ws with
    | nil =>
      obtain ⟨d, ds, htext, -⟩ := hw.read
      rw [spelled_cons, hs, List.append_nil, List.getLast?_append_of_ne_nil _ (by simp [htext])] at hc
      exact hw.last_not_isBlank c hc
    | cons d ds =>
      rw [spelled_cons, List.getLast?_append_of_ne_nil _ (by simp [hs])] at hc
      exact ih hws c hc

end Word

namespace Lexeme

theorem runText_ne_nil {xs : List Lexeme} (hf : FromText xs) (hne : xs ≠ []) : runText xs ≠ [] := by
  obtain ⟨x, xs, rfl⟩ := List.exists_cons_of_ne_nil hne
  obtain ⟨_, hread⟩ := hf.exists_readsBefore List.mem_cons_self
  obtain ⟨c, cs, htext, -⟩ := hread.read
  have htext : x.text = c :: cs := htext
  simp [runText, htext]

/-- A run begins and ends with its own characters. -/
theorem tight_runText {xs : List Lexeme} (h : FromText xs) : Tight (runText xs) := by
  refine ⟨fun c hc => ?_, fun c hc => ?_⟩
  · cases xs with
    | nil => cases hc
    | cons x xs =>
      obtain ⟨d, cs, htext, -, hread⟩ := h.reads_bare.1.read
      have htext : x.text = d :: cs := htext
      rw [runText, htext] at hc
      cases hc
      exact Word.not_isBlank_of_read? hread
  · rw [← spelled_bare] at hc
    exact h.reads_bare.last_not_isBlank c hc

/-! ## Pieces -/

theorem Nested.congr {outer : Token → Prop} {depth : Nat} {xs ys : List Lexeme} (h : Nested outer depth xs)
    (ht : ys.map token = xs.map token) : Nested outer depth ys := by
  induction h generalizing ys with
  | nil =>
    rw [List.map_eq_nil_iff.1 ht]
    exact .nil
  | plain hx ho _ ih =>
    obtain ⟨y, ys, rfl, hy, hys⟩ := List.map_eq_cons_iff.1 ht
    exact .plain (hy ▸ hx) (hy ▸ ho) (ih hys)
  | bracketed hx hy _ _ ihi ih =>
    rw [List.map_cons, List.map_append, List.map_cons] at ht
    obtain ⟨x', back, rfl, hx', hback⟩ := List.map_eq_cons_iff.1 ht
    obtain ⟨inner', back, rfl, hinner, hback⟩ := List.map_eq_append_iff.1 hback
    obtain ⟨y', xs', rfl, hy', hxs⟩ := List.map_eq_cons_iff.1 hback
    exact .bracketed (hx'.trans hx) (hy'.trans hy) (ihi hinner) (ih hxs)

theorem bare_cons_inj {x y : Lexeme} {xs ys : List Lexeme} (h : bare (y :: ys) = bare (x :: xs)) :
    y.token = x.token ∧ y.text = x.text ∧ ys.map word = xs.map word := by
  obtain ⟨hfirst, hrest⟩ := List.cons.inj h
  exact ⟨congrArg Word.token hfirst, congrArg Word.text hfirst, hrest⟩

theorem bare_eq_of_map_word {xs ys : List Lexeme} (h : ys.map word = xs.map word) : bare ys = bare xs := by
  cases xs with
  | nil => rw [List.map_eq_nil_iff.1 h]
  | cons x xs =>
    obtain ⟨y, ys, rfl, hy, hys⟩ := List.map_eq_cons_iff.1 h
    rw [bare, bare, hy, hys]

/-- Runs with the same words have the same parts. -/
theorem Separated.congr {outer : Token → Prop} {depth : Nat} {xs : List Lexeme} {parts : List (List Lexeme)}
    (h : Separated (Nested outer depth) xs parts) {ys : List Lexeme} (hys : bare ys = bare xs) :
    ∃ parts', Separated (Nested outer depth) ys parts' ∧ parts'.map runText = parts.map runText := by
  induction h generalizing ys with
  | @last xs hn =>
    have htokens : ys.map token = xs.map token := by rw [← token_bare ys, hys, token_bare]
    refine ⟨[ys], .last (hn.congr htokens), ?_⟩
    rw [List.map_singleton, List.map_singleton, ← spelled_bare ys, hys, spelled_bare]
  | @comma xs zs comma parts hn hc _ ih =>
    obtain ⟨xs', comma', zs', rfl, hxs, hcomma, hzs⟩ : ∃ xs' comma' zs', ys = xs' ++ comma' :: zs' ∧
        bare xs' = bare xs ∧ comma'.token = comma.token ∧ zs'.map word = zs.map word := by
      cases xs with
      | nil =>
        cases ys with
        | nil => cases hys
        | cons y ys =>
          obtain ⟨ht, -, hrest⟩ := bare_cons_inj hys
          exact ⟨[], y, ys, rfl, rfl, ht, hrest⟩
      | cons x xs =>
        cases ys with
        | nil => cases hys
        | cons y ys =>
          obtain ⟨ht, htext, hrest⟩ := bare_cons_inj hys
          obtain ⟨xs', back, rfl, hxs, hback⟩ := List.map_eq_append_iff.1 (hrest.trans List.map_append)
          obtain ⟨comma', zs', rfl, hcomma, hzs⟩ := List.map_eq_cons_iff.1 hback
          refine ⟨y :: xs', comma', zs', rfl, ?_, congrArg Word.token hcomma, hzs⟩
          rw [bare, bare, hxs]
          simp [word, ht, htext]
    obtain ⟨parts', hparts, htexts⟩ := ih (bare_eq_of_map_word hzs)
    have htokens : xs'.map token = xs.map token := by rw [← token_bare xs', hxs, token_bare]
    refine ⟨xs' :: parts', .comma (hn.congr htokens) (hcomma.trans hc) hparts, ?_⟩
    rw [List.map_cons, List.map_cons, htexts, ← spelled_bare xs', hxs, spelled_bare]

/-- **The text of a run is cut where the run is.** -/
theorem splitText_runText {xs : List Lexeme} (h : FromText xs) {depth : Nat} {parts : List (List Lexeme)}
    (hparts : pieces depth xs = .ok parts) : splitText depth (runText xs) = .ok (parts.map runText) := by
  obtain ⟨ys, hys, hwords⟩ := exists_ofText_runText h
  have hbare : bare ys = bare xs := bare_of_map_word hwords (flush_bare xs)
  unfold splitText
  rw [hys]
  show (pieces depth ys).map (fun found => found.map runText) = _
  rcases pieces_eq_ok_iff.1 hparts with ⟨rfl, rfl⟩ | ⟨hne, hs⟩
  · rw [List.map_eq_nil_iff.1 hwords]
    rfl
  · obtain ⟨parts', hs', htexts⟩ := hs.congr hbare
    have hne' : ys ≠ [] := by
      rintro rfl
      cases xs with
      | nil => exact hne rfl
      | cons x xs => cases hbare
    rw [pieces_eq_ok_iff.2 (.inr ⟨hne', hs'⟩), ← htexts]
    rfl

/-- A piece is empty if its text is. -/
theorem nil_not_mem_map_runText {depth : Nat} {xs : List Lexeme} (hf : FromText xs) {parts : List (List Lexeme)}
    (hparts : pieces depth xs = .ok parts) (hmem : [] ∉ parts) : [] ∉ parts.map runText := by
  intro hnil
  obtain ⟨part, hpart, htext⟩ := List.mem_map.1 hnil
  rcases pieces_eq_ok_iff.1 hparts with ⟨-, rfl⟩ | ⟨-, hs⟩
  · cases hpart
  · have hpiece : FromText part := hf.infix (hs.forall_mem part hpart).2
    refine runText_ne_nil hpiece ?_ htext
    rintro rfl
    exact hmem hpart

end Lexeme
end CallSig
