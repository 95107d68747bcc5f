import CallSig.Proofs.Lexeme.Collapsing

/-!
# `CallSig.Proofs.Lexeme.Longest` — the token language and its longest match

`Token.read?` looks at a character and at what follows it, and decides in one pass which token begins there. Which texts
are tokens at all is said here without it, as a language: names, digits, quoted texts, and signs of one to three
characters. Then the one pass is what it is meant to be: it finds the longest member of the language that the text
begins with, and it finds none only where no member begins.

## Contents
- **The language.** `EndsQuote`, `Spells`.
- **Reading spells a token.** `endsQuote_of_stringTail?`, `spells_of_read?`.
- **Tokens are read.** `EndsQuote.closes`, `read?_of_spells`: no token that begins here is longer than what is read.
- **Longest match.** `IsLongest`, `read?_eq_some_iff`, `read?_eq_none_iff`.
-/

namespace CallSig

/-! ## The language -/

/-- A string literal after its opening quote: characters that are no quote and no backslash, pairs of a backslash and
any character but a line feed, and the closing quote. -/
inductive EndsQuote (quote : Char) : List Char → Prop
  | close : EndsQuote quote [quote]
  | plain {c : Char} {cs : List Char} (hq : c ≠ quote) (hb : c ≠ '\\') (h : EndsQuote quote cs) :
      EndsQuote quote (c :: cs)
  | escaped {c : Char} {cs : List Char} (hc : c ≠ '\n') (h : EndsQuote quote cs) : EndsQuote quote ('\\' :: c :: cs)

/-- The text spells the token. -/
inductive Spells : Token → List Char → Prop
  | identifier {cs : List Char} (h : IsName cs) : Spells .identifier cs
  | integer {cs : List Char} (hne : cs ≠ []) (h : ∀ c ∈ cs, c.isDigit = true) : Spells .integer cs
  | stringLiteral {quote : Char} {cs : List Char} (hq : quote = '"' ∨ quote = '\'') (h : EndsQuote quote cs) :
      Spells .stringLiteral (quote :: cs)
  | doubleColon : Spells .doubleColon [':', ':']
  | ellipsis : Spells .ellipsis ['.', '.', '.']
  | arrow : Spells .arrow ['-', '>']
  | sign {c : Char} {token : Token} (h : Token.ofChar? c = some token) : Spells token [c]

/-! ## Reading spells a token -/

theorem endsQuote_of_stringTail? {quote : Char} {cs : List Char} :
    ∀ {n : Nat}, stringTail? quote cs = some n → EndsQuote quote (cs.take n) := by
  fun_induction stringTail? quote cs with
  | case1 | case2 | case3 =>
    intro n h
    cases h
  | case4 c cs hc ih =>
    intro n h
    obtain ⟨m, hm, rfl⟩ := Option.map_eq_some_iff.1 h
    exact .escaped hc (ih hm)
  | case5 cs hlone hescaped =>
    intro n h
    cases h
    exact .close
  | case6 c cs hlone hescaped hc ih =>
    intro n h
    obtain ⟨m, hm, rfl⟩ := Option.map_eq_some_iff.1 h
    exact .plain hc (not_backslash hlone hescaped) (ih hm)

/-- **What is read is a token** of the language. -/
theorem spells_of_read? {c : Char} {rest : List Char} {token : Token} {n : Nat}
    (h : Token.read? c rest = some (token, n)) : Spells token (c :: rest.take n) := by
  have hclass {p : Char → Bool} : ∀ d ∈ rest.take (rest.takeWhile p).length, p d = true := by
    rw [← List.prefix_iff_eq_take.1 (List.takeWhile_prefix p)]
    intro d hd
    exact List.all_eq_true.1 List.all_takeWhile d hd
  unfold Token.read? at h
  split at h
  · next hname =>
    cases h
    exact .identifier ⟨c, _, rfl, hname, hclass⟩
  split at h
  · next hdigit =>
    cases h
    refine .integer (List.cons_ne_nil _ _) ?_
    intro d hd
    rcases List.mem_cons.1 hd with rfl | hd
    · exact hdigit
    · exact hclass d hd
  split at h
  · next hquote =>
    obtain ⟨m, hm, he⟩ := Option.map_eq_some_iff.1 h
    cases he
    exact .stringLiteral hquote (endsQuote_of_stringTail? hm)
  split at h
  · next hcolon =>
    cases h
    obtain ⟨rfl, hhead⟩ := hcolon
    obtain ⟨back, rfl⟩ := List.head?_eq_some_iff.1 hhead
    exact .doubleColon
  split at h
  · next hdots =>
    cases h
    obtain ⟨rfl, htake⟩ := hdots
    rw [htake]
    exact .ellipsis
  split at h
  · next harrow =>
    cases h
    obtain ⟨rfl, hhead⟩ := harrow
    obtain ⟨back, rfl⟩ := List.head?_eq_some_iff.1 hhead
    exact .arrow
  · obtain ⟨found, hfound, he⟩ := Option.map_eq_some_iff.1 h
    cases he
    exact .sign hfound

/-! ## Tokens are read -/

theorem EndsQuote.closes {quote : Char} (hb : quote ≠ '\\') {cs : List Char} (h : EndsQuote quote cs) :
    Closes quote cs := by
  induction h with
  | close => exact fun rest => stringTail?_close hb rest
  | plain hq hb _ ih => exact ih.plain hb hq
  | escaped hc _ ih => exact ih.escaped hc

/-- A character that is a token of its own begins no name, no number and no string literal. -/
theorem of_ofChar? {c : Char} {token : Token} (h : Token.ofChar? c = some token) :
    isNameStart c = false ∧ c.isDigit = false ∧ ¬(c = '"' ∨ c = '\'') := by
  unfold Token.ofChar? at h
  split at h
  case h_15 =>
    split at h
    · next hmem =>
      have hall : punctuation.all fun c => !isNameStart c && !c.isDigit && c != '"' && c != '\'' := by decide
      have hc := List.all_eq_true.1 hall c (by simpa using hmem)
      simp only [Bool.and_eq_true, Bool.not_eq_true', bne_iff_ne] at hc
      exact ⟨hc.1.1.1, hc.1.1.2, not_or.2 ⟨hc.1.2, hc.2⟩⟩
    · cases h
  all_goals exact ⟨by decide, by decide, by decide⟩

/-- **Every token that a text begins with is reached**: what is read is at least as long, and it is this token if it is
no longer. -/
theorem read?_of_spells {token : Token} {c : Char} {cs : List Char} (h : Spells token (c :: cs)) (rest : List Char) :
    ∃ found n, Token.read? c (cs ++ rest) = some (found, n) ∧ cs.length ≤ n ∧ (n = cs.length → found = token) := by
  -- a class that the characters are of is taken to the end of them, or beyond
  have hclass {p : Char → Bool} (hp : ∀ d ∈ cs, p d = true) :
      cs.length ≤ ((cs ++ rest).takeWhile p).length := by
    rw [List.takeWhile_append_of_pos hp, List.length_append]
    exact Nat.le_add_right _ _
  cases h with
  | identifier h =>
    obtain ⟨hc, hcs⟩ := isName_cons.1 h
    refine ⟨.identifier, _, by rw [Token.read?, if_pos hc], ?_, fun _ => rfl⟩
    exact hclass (List.all_eq_true.1 hcs)
  | integer _ h =>
    obtain ⟨hc, hcs⟩ := List.forall_mem_cons.1 h
    have hname : ¬isNameStart c = true := by
      rw [Word.not_isNameStart_of_isDigit hc]
      exact Bool.false_ne_true
    exact ⟨.integer, _, by rw [Token.read?, if_neg hname, if_pos hc], hclass hcs, fun _ => rfl⟩
  | stringLiteral hq h =>
    have hb : c ≠ '\\' := by rcases hq with rfl | rfl <;> decide
    refine ⟨.stringLiteral, cs.length, ?_, Nat.le_refl _, fun _ => rfl⟩
    rw [read?_quote hq, h.closes hb rest]
    rfl
  | doubleColon => exact ⟨.doubleColon, 1, rfl, Nat.le_refl _, fun _ => rfl⟩
  | ellipsis => exact ⟨.ellipsis, 2, rfl, Nat.le_refl _, fun _ => rfl⟩
  | arrow => exact ⟨.arrow, 1, rfl, Nat.le_refl _, fun _ => rfl⟩
  | sign h =>
    obtain ⟨hname, hdigit, hquote⟩ := of_ofChar? h
    unfold Token.read?
    simp only [hname, hdigit, if_neg hquote, Bool.false_eq_true, if_false]
    -- the sign may begin a longer one, and otherwise it stands for itself
    split
    · exact ⟨.doubleColon, 1, rfl, Nat.zero_le _, fun hlength => absurd hlength (by decide)⟩
    split
    · exact ⟨.ellipsis, 2, rfl, Nat.zero_le _, fun hlength => absurd hlength (by decide)⟩
    split
    · exact ⟨.arrow, 1, rfl, Nat.zero_le _, fun hlength => absurd hlength (by decide)⟩
    · exact ⟨token, 0, by rw [h]; rfl, Nat.zero_le _, fun _ => rfl⟩

theorem Spells.exists_cons {token : Token} {text : List Char} (h : Spells token text) : ∃ c cs, text = c :: cs := by
  cases h with
  | identifier h =>
    obtain ⟨c, cs, rfl, -⟩ := h
    exact ⟨c, cs, rfl⟩
  | integer hne _ => exact List.exists_cons_of_ne_nil hne
  | _ => exact ⟨_, _, rfl⟩

/-! ## Longest match -/

/-- The text spells the token, and no longer beginning of it and what comes after it is a token. -/
def IsLongest (token : Token) (text after : List Char) : Prop :=
  Spells token text ∧
    ∀ token' text', Spells token' text' → text' <+: text ++ after → text'.length ≤ text.length

/-- A token that is the longest one where more text follows is so where less follows. -/
theorem IsLongest.cut {token : Token} {text rest after : List Char} (h : IsLongest token text (rest ++ after)) :
    IsLongest token text rest := by
  refine ⟨h.1, fun token' text' hspells hprefix => h.2 token' text' hspells ?_⟩
  rw [← List.append_assoc]
  exact hprefix.trans (List.prefix_append _ _)

/-- **The token that is read is the longest one** that the text begins with. -/
theorem read?_eq_some_iff {token : Token} {c : Char} {cs rest : List Char} :
    Token.read? c (cs ++ rest) = some (token, cs.length) ↔ IsLongest token (c :: cs) rest := by
  constructor
  · intro h
    refine ⟨by simpa using spells_of_read? h, ?_⟩
    intro token' text' hspells hprefix
    obtain ⟨d, ds, rfl⟩ := hspells.exists_cons
    obtain ⟨back, hback⟩ := hprefix
    obtain ⟨rfl, hds⟩ := List.cons.inj hback
    obtain ⟨found, n, hread, hn, -⟩ := read?_of_spells hspells back
    have hds : ds ++ back = cs ++ rest := hds
    rw [hds, h] at hread
    cases hread
    simpa using hn
  · rintro ⟨hspells, hlongest⟩
    obtain ⟨found, n, hread, hn, htoken⟩ := read?_of_spells hspells rest
    -- what is read is a token too, so it is no longer
    have hle := hlongest found _ (spells_of_read? hread) (List.cons_prefix_cons.2 ⟨rfl, List.take_prefix n _⟩)
    have hmax : n ≤ (cs ++ rest).length := length_le_of_read? hread
    simp only [List.length_cons, List.length_take, Nat.min_eq_left hmax] at hle
    obtain rfl : n = cs.length := by omega
    rw [hread, htoken rfl]

/-- **Nothing is read** only where no token begins. -/
theorem read?_eq_none_iff {c : Char} {rest : List Char} :
    Token.read? c rest = none ↔ ∀ token text, Spells token text → ¬text <+: c :: rest := by
  constructor
  · rintro h token text hspells ⟨back, hback⟩
    obtain ⟨d, ds, rfl⟩ := hspells.exists_cons
    obtain ⟨rfl, hds⟩ := List.cons.inj hback
    obtain ⟨found, n, hread, -⟩ := read?_of_spells hspells back
    have hds : ds ++ back = rest := hds
    rw [hds, h] at hread
    cases hread
  · intro h
    cases hread : Token.read? c rest with
    | none => rfl
    | some found =>
      have hspells := spells_of_read? hread
      exact absurd (List.cons_prefix_cons.2 ⟨rfl, List.take_prefix found.2 rest⟩) (h _ _ hspells)

end CallSig
