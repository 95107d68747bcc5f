import CallSig.Proofs.Lexeme.Nesting
import CallSig.Proofs.Lexeme.Scanning
import CallSig.Proofs.Text.Quoting

/-!
# `CallSig.Proofs.Lexeme.Literals` — words that literals and names are made of

What a rendering writes without brackets and commas of its own is of three kinds: names and numbers, quoted texts, and
tokens that could not be mapped, which types put between single quotes as they are. A text of the first two kinds is
always made of words without brackets, commas and equals signs. A text of the third kind is not: a quote or a backslash
inside it ends the string literal too early, or not at all.

## Contents
- **Inert tokens.** `Token.isInert`, `Stops`.
- **Names and numbers.** `IsInk`, `read?_ink`, `exists_reads_ink`.
- **Quoted texts.** `stringTail?_flatMap_escape`, `reads_quote`.
- **Unmapped tokens.** `read?_append`, `reads_append_of_quote`; `Quotable`, `exists_reads_quotable`,
  `quotable_of_notMem`.
-/

namespace CallSig

open Word

/-! ## Inert tokens -/

/-- Whether the token is no bracket, no comma and no equals sign. -/
def Token.isInert : Token → Bool
  | .opening _ | .closing _ | .comma | .equal => false
  | _ => true

/-- The characters that stand behind a name or a number in a rendering. -/
def stops : List Char := ['(', ')', '[', ']', ',', '=', '\'']

/-- No name and no number goes on into this text. -/
def Stops (rest : List Char) : Prop := ∀ c, rest.head? = some c → c ∈ stops

theorem stops_nil : Stops [] := nofun

theorem stops_cons {c : Char} (h : c ∈ stops) (rest : List Char) : Stops (c :: rest) := by
  rintro d ⟨⟩
  exact h

theorem Stops.endsName {rest : List Char} (h : Stops rest) : EndsName rest := by
  have hall : stops.all (fun c => !isNamePart c) = true := by decide
  exact fun c hc => by simpa using List.all_eq_true.1 hall c (h c hc)

/-! ## Names and numbers -/

/-- A character of names and numbers. -/
def IsInk (c : Char) : Prop := isNamePart c = true ∨ c ∈ ['.', '-', '+']

theorem takeWhile_append_of_stops {p : Char → Bool} (hp : ∀ c, p c = true → isNamePart c = true) (more : List Char)
    {rest : List Char} (hr : Stops rest) : (more ++ rest).takeWhile p = more.takeWhile p := by
  induction more with
  | nil =>
    cases rest with
    | nil => rfl
    | cons c rest =>
      rw [List.nil_append, List.takeWhile_cons_of_neg]
      · rfl
      · intro hc
        have hname := hr.endsName _ rfl
        rw [hp c hc] at hname
        cases hname
  | cons d more ih => simp only [List.cons_append, List.takeWhile_cons, ih]

theorem isNamePart_of_isDigit {c : Char} (h : c.isDigit = true) : isNamePart c = true := by
  simp [isNamePart, Char.isAlphanum, h]

theorem read?_dot {rest : List Char} (h : rest.take 2 ≠ ['.', '.']) : Token.read? '.' rest = some (.dot, 0) := by
  unfold Token.read?
  rw [if_neg (by decide), if_neg (by decide), if_neg (by decide), if_neg (by simp), if_neg (by simp [h]),
    if_neg (by simp)]
  rfl

/-- A dot that is followed by no two dots among the characters of names and numbers stands alone. -/
theorem take_two_ne_dots {more rest : List Char} (hdots : ∀ back, more ≠ '.' :: '.' :: back) (hr : Stops rest) :
    (more ++ rest).take 2 ≠ ['.', '.'] := by
  have hdot : '.' ∉ stops := by decide
  intro h
  match more, hdots with
  | [], _ =>
    cases rest with
    | nil => cases h
    | cons c rest =>
      obtain ⟨rfl, -⟩ := List.cons.inj h
      exact hdot (hr _ rfl)
  | [d], _ =>
    cases rest with
    | nil => cases h
    | cons c rest =>
      obtain ⟨-, htail⟩ := List.cons.inj h
      obtain ⟨rfl, -⟩ := List.cons.inj htail
      exact hdot (hr _ rfl)
  | d :: e :: back, hdots =>
    obtain ⟨rfl, htail⟩ := List.cons.inj h
    obtain ⟨rfl, -⟩ := List.cons.inj htail
    exact hdots back rfl

/-- Any character of names and numbers begins a token, which does not depend on what stops it. -/
theorem read?_ink {c : Char} {more : List Char} (hc : IsInk c) (hmore : ∀ d ∈ more, IsInk d) :
    ∃ token n, n ≤ more.length ∧ token.isInert = true ∧
      ∀ rest, Stops rest → Token.read? c (more ++ rest) = some (token, n) := by
  by_cases hstart : isNameStart c = true
  · refine ⟨.identifier, _, (List.takeWhile_prefix isNamePart).length_le, rfl, fun rest hr => ?_⟩
    rw [Token.read?, if_pos hstart, takeWhile_append_of_stops (fun _ h => h) more hr]
  by_cases hdigit : c.isDigit = true
  · refine ⟨.integer, _, (List.takeWhile_prefix Char.isDigit).length_le, rfl, fun rest hr => ?_⟩
    rw [Token.read?, if_neg hstart, if_pos hdigit, takeWhile_append_of_stops (fun _ => isNamePart_of_isDigit) more hr]
  have hmark : c = '.' ∨ c = '-' ∨ c = '+' := by
    rcases hc with hname | hmark
    · simp only [isNamePart, isNameStart, Char.isAlphanum, Bool.or_eq_true] at hname hstart
      rcases hname with (hname | hname) | hname
      · exact absurd (Or.inl hname) hstart
      · exact absurd hname hdigit
      · exact absurd (Or.inr hname) hstart
    · simpa using hmark
  rcases hmark with rfl | rfl | rfl
  · by_cases hdots : ∃ back, more = '.' :: '.' :: back
    · obtain ⟨back, rfl⟩ := hdots
      exact ⟨.ellipsis, 2, by simp, rfl, fun rest _ => rfl⟩
    · exact ⟨.dot, 0, Nat.zero_le _, rfl, fun rest hr => read?_dot (take_two_ne_dots (not_exists.1 hdots) hr)⟩
  · refine ⟨.minus, 0, Nat.zero_le _, rfl, fun rest hr => read?_minus fun hhead => ?_⟩
    cases more with
    | nil => exact absurd (hr _ hhead) (by decide)
    | cons d more =>
      obtain rfl := Option.some.inj hhead
      rcases hmore _ List.mem_cons_self with hname | hmark
      · exact absurd hname (by decide)
      · exact absurd hmark (by decide)
  · exact ⟨.punct '+', 0, Nat.zero_le _, rfl, fun rest _ => rfl⟩

/-- **A text of names and numbers** is made of words without brackets, commas and equals signs. -/
theorem exists_reads_ink {cs : List Char} (h : ∀ c ∈ cs, IsInk c) :
    ∃ ws, spelled ws = cs ∧ (∀ w ∈ ws, w.gap = [] ∧ w.token.isInert = true) ∧ ∀ rest, Stops rest → Reads ws rest := by
  match cs with
  | [] => exact ⟨[], rfl, List.forall_mem_nil _, fun _ _ => trivial⟩
  | c :: more =>
    obtain ⟨hc, hmore⟩ := List.forall_mem_cons.1 h
    obtain ⟨token, n, hn, hinert, hread⟩ := read?_ink hc hmore
    obtain ⟨ws, hspelled, hws, hreads⟩ := exists_reads_ink fun d hd => hmore d (List.mem_of_mem_drop (i := n) hd)
    have hgap : isGap c = false := by
      rw [← Bool.not_eq_true]
      intro hgap
      rcases isGap_cases hgap with rfl | rfl | rfl | rfl <;> rcases hc with hc | hc <;> revert hc <;> decide
    refine ⟨⟨[], token, c :: more.take n⟩ :: ws, ?_, List.forall_mem_cons.2 ⟨⟨rfl, hinert⟩, hws⟩, fun rest hr => ?_⟩
    · rw [spelled_cons, hspelled]
      simp
    · refine ⟨⟨List.forall_mem_nil _, c, more.take n, rfl, hgap, ?_⟩, hreads rest hr⟩
      rw [hspelled, ← List.append_assoc, List.take_append_drop, hread rest hr, List.length_take, Nat.min_eq_left hn]
termination_by cs.length
decreasing_by
  simp only [List.length_drop, List.length_cons]
  omega

/-! ## Quoted texts -/

theorem stringTail?_escaped {c : Char} (hc : c ≠ '\n') (quote : Char) (cs : List Char) :
    stringTail? quote ('\\' :: c :: cs) = (stringTail? quote cs).map (· + 2) := by
  rw [stringTail?, if_neg hc]

theorem stringTail?_plain {quote c : Char} (hbackslash : c ≠ '\\') (hquote : c ≠ quote) (cs : List Char) :
    stringTail? quote (c :: cs) = (stringTail? quote cs).map (· + 1) := by
  rw [stringTail?, if_neg hquote]
  · rintro rfl
    exact absurd rfl hbackslash
  · rintro d ds rfl
    exact absurd rfl hbackslash

/-- A quoted text is closed by its last quote, whatever follows. -/
theorem stringTail?_flatMap_escape (cs rest : List Char) :
    stringTail? '\'' (cs.flatMap Text.escape ++ '\'' :: rest) = some ((cs.flatMap Text.escape).length + 1) := by
  induction cs with
  | nil => rfl
  | cons c cs ih =>
    rw [List.flatMap_cons, List.append_assoc, List.length_append]
    rcases Text.escape_cases c with ⟨d, hescape, hd, -⟩ | ⟨hescape, hquote, hbackslash⟩
    · rw [hescape, List.cons_append, List.cons_append, List.nil_append, stringTail?_escaped hd, ih]
      simp only [Option.map_some, List.length_cons, List.length_nil, Option.some.injEq]
      omega
    · rw [hescape, List.cons_append, List.nil_append, stringTail?_plain hbackslash hquote, ih]
      simp only [Option.map_some, List.length_cons, List.length_nil, Option.some.injEq]
      omega

/-- **A quoted text is one word**, whatever follows. -/
theorem reads_quote (cs rest : List Char) : (⟨[], .stringLiteral, Text.quote cs⟩ : Word).ReadsBefore rest := by
  refine ⟨List.forall_mem_nil _, '\'', cs.flatMap Text.escape ++ ['\''], rfl, by decide, ?_⟩
  have htail := stringTail?_flatMap_escape cs rest
  unfold Token.read?
  rw [if_neg (by decide), if_neg (by decide), if_pos (Or.inr rfl), List.append_assoc, List.singleton_append, htail]
  simp

/-! ## Unmapped tokens -/

theorem stringTail?_close {quote : Char} (h : quote ≠ '\\') (cs : List Char) :
    stringTail? quote (quote :: cs) = some 1 := by
  rw [stringTail?, if_pos rfl]
  · rintro rfl
    exact absurd rfl h
  · rintro d ds rfl
    exact absurd rfl h

/-- A character that neither ends the text nor takes another one with it is no backslash. -/
theorem not_backslash {c : Char} {cs : List Char} (hlone : c = '\\' → cs = [] → False)
    (hescaped : ∀ d ds, c = '\\' → cs = d :: ds → False) : c ≠ '\\' := by
  rintro rfl
  cases cs with
  | nil => exact hlone rfl rfl
  | cons d ds => exact hescaped d ds rfl rfl

/-- A string literal that is closed stays closed in front of more characters. -/
theorem stringTail?_append {quote : Char} {cs : List Char} {n : Nat} (h : stringTail? quote cs = some n)
    (rest : List Char) : stringTail? quote (cs ++ rest) = some n := by
  fun_induction stringTail? quote cs generalizing n with
  | case1 | case2 | case3 => cases h
  | case4 c cs hc ih =>
    obtain ⟨m, hm, rfl⟩ := Option.map_eq_some_iff.1 h
    rw [List.cons_append, List.cons_append, stringTail?_escaped hc, ih hm]
    rfl
  | case5 cs hlone hescaped =>
    cases h
    exact stringTail?_close (not_backslash hlone hescaped) _
  | case6 c cs hlone hescaped hc ih =>
    obtain ⟨m, hm, rfl⟩ := Option.map_eq_some_iff.1 h
    rw [List.cons_append, stringTail?_plain (not_backslash hlone hescaped) hc, ih hm]
    rfl

theorem takeWhile_append_of_mem {p : Char → Bool} {c : Char} (hp : p c = false) {cs : List Char} (hc : c ∈ cs)
    (rest : List Char) : (cs ++ rest).takeWhile p = cs.takeWhile p := by
  induction cs with
  | nil => cases hc
  | cons d cs ih =>
    simp only [List.cons_append, List.takeWhile_cons]
    cases hd : p d with
    | false => rfl
    | true =>
      rcases List.mem_cons.1 hc with rfl | hc
      · rw [hp] at hd
        cases hd
      · simp only [ih hc]

/-- A token that is read from a text with a quote at its end is read from a longer text too. -/
theorem read?_append {c : Char} {cs : List Char} (hlast : (c :: cs).getLast? = some '\'') {token : Token} {n : Nat}
    (h : Token.read? c cs = some (token, n)) (rest : List Char) : Token.read? c (cs ++ rest) = some (token, n) := by
  cases cs with
  | nil =>
    obtain rfl : c = '\'' := by simpa using hlast
    cases h
  | cons d more =>
    have hmem : '\'' ∈ d :: more := List.mem_of_getLast? (by simpa using hlast)
    have hdots : ((d :: more) ++ rest).take 2 = ['.', '.'] ↔ (d :: more).take 2 = ['.', '.'] := by
      cases more with
      | nil =>
        obtain rfl := List.mem_singleton.1 hmem
        simp
      | cons e more => rfl
    have hname : isNamePart '\'' = false := by decide
    have hdigit : Char.isDigit '\'' = false := by decide
    unfold Token.read? at h ⊢
    rw [takeWhile_append_of_mem hname hmem, takeWhile_append_of_mem hdigit hmem]
    simp only [hdots]
    -- only a string literal looks further than two characters
    by_cases hquote : c = '"' ∨ c = '\''
    · have hplain : isNameStart c ≠ true ∧ c.isDigit ≠ true := by rcases hquote with rfl | rfl <;> decide
      rw [if_neg hplain.1, if_neg hplain.2, if_pos hquote] at h ⊢
      obtain ⟨m, hm, he⟩ := Option.map_eq_some_iff.1 h
      rw [stringTail?_append hm]
      exact he ▸ rfl
    · rw [if_neg hquote] at h ⊢
      exact h

/-- Words of a text with a quote at its end do not run into what follows. -/
theorem reads_append_of_quote {ws : List Word} (h : Reads ws []) (hlast : (spelled ws).getLast? = some '\'')
    (rest : List Char) : Reads ws rest := by
  induction ws with
  | nil => trivial
  | cons w ws ih =>
    obtain ⟨hw, hws⟩ := h
    obtain ⟨c, cs, htext, hc, hread⟩ := hw.read
    have htail : spelled ws = [] ∨ (spelled ws).getLast? = some '\'' := by
      rw [spelled_cons, List.getLast?_append] at hlast
      cases hs : spelled ws with
      | nil => exact .inl rfl
      | cons d ds =>
        rw [hs] at hlast
        simpa [List.getLast?_cons] using hlast
    have hall : (c :: (cs ++ spelled ws)).getLast? = some '\'' := by
      rw [spelled_cons, htext] at hlast
      simpa [List.getLast?_append, List.getLast?_cons] using hlast
    refine ⟨⟨hw.blank, c, cs, htext, hc, ?_⟩, ?_⟩
    · rw [List.append_nil] at hread
      rw [← List.append_assoc]
      exact read?_append hall hread rest
    · rcases htail with hnil | hlast
      · cases ws with
        | nil => trivial
        | cons w' ws =>
          obtain ⟨d, ds, htext', -⟩ := hws.1.read
          rw [spelled_cons, htext'] at hnil
          simp at hnil
      · exact ih hws hlast

/-- An unmapped token between single quotes, as types show it, has no bracket, comma or equals sign outside string
literals. -/
def Quotable (token : String) : Bool :=
  match Lexeme.ofText ('\'' :: (token.toList ++ ['\''])) with
  | .ok xs => xs.all fun x => x.token.isInert
  | .error _ => false

/-- **A quotable token is made of inert words**, whatever follows. -/
theorem exists_reads_quotable {token : String} (h : Quotable token = true) :
    ∃ ws, spelled ws = '\'' :: (token.toList ++ ['\'']) ∧ (∀ w ∈ ws, w.token.isInert = true) ∧
      ∀ rest, Reads ws rest := by
  unfold Quotable at h
  cases hxs : Lexeme.ofText ('\'' :: (token.toList ++ ['\''])) with
  | error e =>
    rw [hxs] at h
    cases h
  | ok xs =>
    rw [hxs] at h
    obtain ⟨tail, hcs, hreads⟩ := Lexeme.reads_scan hxs
    obtain ⟨tail', hcs', hgaps⟩ := Lexeme.spelled_scan hxs
    obtain rfl : tail = tail' := List.append_cancel_left (hcs.symm.trans hcs')
    -- the text ends with a quote, so the lexemes spell all of it
    have hlast : (Lexeme.spelled xs ++ tail).getLast? = some '\'' := by
      rw [← hcs, ← List.cons_append, List.getLast?_append]
      rfl
    obtain rfl : tail = [] := by
      cases tail with
      | nil => rfl
      | cons c cs =>
        have hlast : (c :: cs).getLast? = some '\'' := by
          simpa [List.getLast?_append, List.getLast?_cons] using hlast
        exact absurd (hgaps _ (List.mem_of_getLast? hlast)) (by decide)
    rw [List.append_nil] at hcs hlast
    rw [← Lexeme.spelled_map_word] at hcs hlast
    refine ⟨xs.map Lexeme.word, hcs.symm, fun w hw => ?_, reads_append_of_quote hreads hlast⟩
    obtain ⟨x, hx, rfl⟩ := List.mem_map.1 hw
    exact List.all_eq_true.1 h x hx

/-- A token without quotes and backslashes is quotable. -/
theorem quotable_of_notMem {token : String} (hquote : '\'' ∉ token.toList) (hbackslash : '\\' ∉ token.toList) :
    Quotable token = true := by
  have htail : stringTail? '\'' (token.toList ++ ['\'']) = some (token.toList.length + 1) := by
    generalize token.toList = cs at hquote hbackslash
    induction cs with
    | nil => rfl
    | cons c cs ih =>
      obtain ⟨hc, hcs⟩ := not_or.1 (mt List.mem_cons.2 hquote)
      obtain ⟨hc', hcs'⟩ := not_or.1 (mt List.mem_cons.2 hbackslash)
      rw [List.cons_append, stringTail?_plain (Ne.symm hc') (Ne.symm hc), ih hcs hcs']
      rfl
  let w : Word := ⟨[], .stringLiteral, '\'' :: (token.toList ++ ['\''])⟩
  have hw : w.ReadsBefore [] := by
    refine ⟨List.forall_mem_nil _, '\'', token.toList ++ ['\''], rfl, by decide, ?_⟩
    unfold Token.read?
    rw [if_neg (by decide), if_neg (by decide), if_pos (Or.inr rfl), List.append_nil, htail]
    simp [w]
  obtain ⟨xs, hxs, hwords⟩ := Lexeme.ofText_spelled (show Word.Reads [w] [] from ⟨hw, trivial⟩)
  obtain ⟨x, rfl, hx⟩ := List.map_eq_singleton_iff.1 hwords
  have hspelled : spelled [w] = '\'' :: (token.toList ++ ['\'']) := by simp [w]
  unfold Quotable
  rw [← hspelled, hxs]
  have htoken : x.token = .stringLiteral := congrArg Word.token hx
  simp [htoken, Token.isInert]

end CallSig
