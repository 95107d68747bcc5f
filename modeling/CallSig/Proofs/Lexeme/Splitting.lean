import CallSig.Proofs.Descriptor.Names
import CallSig.Proofs.Lexeme.Depth
import CallSig.Proofs.Lexeme.Tiling

/-!
# `CallSig.Proofs.Lexeme.Splitting` — splitting a text at commas and joining the pieces again

A text is split where its lexemes are cut, so it can be split exactly if it has lexemes and their brackets are well
nested within the limit. The pieces are then parts of the text itself, one more than there are commas outside brackets.
Joining is the way back: a comma ends every name, number and sign before it and begins nothing else, so pieces that are
read on their own are read alike with commas between them, and no two words run into one another.

## Contents
- **Counting.** `outerCommas`; `Nested.outerCommas_append`, `Separated.length_eq`.
- **Source texts.** `SourceText`, `Tiled.split`, `sourceText_of_infix`.
- **Words before a comma.** `read?_append_of_stops`, `Reads.before_stops`.
- **Joining.** `IsPiece`, `isPiece_of_splitText`; `Whole`, `exists_whole`; `exists_runs`, `splitText_intercalate`.
- **Splitting.** `PartsOf`, `splits_exactly`, `splits_exactly_mixed`.
-/

namespace CallSig

open Text Word

/-! ## Words before a comma -/

/-- What begins a token goes on in front of a character that stops names and numbers as it does at the end of a text. -/
theorem read?_append_of_stops {c : Char} {cs : List Char} {token : Token} {n : Nat}
    (h : Token.read? c cs = some (token, n)) {rest : List Char} (hr : Stops rest) :
    Token.read? c (cs ++ rest) = some (token, n) := by
  have hhead {d : Char} (hd : d ∉ stops) : (cs ++ rest).head? = some d ↔ cs.head? = some d := by
    cases cs with
    | nil =>
      constructor
      · intro hrest
        exact absurd (hr d hrest) hd
      · intro hnil
        cases hnil
    | cons e more => rfl
  have hdots : (cs ++ rest).take 2 = ['.', '.'] ↔ cs.take 2 = ['.', '.'] := by
    constructor
    · intro htake
      by_contra hne
      have hdots : ∀ back, cs ≠ '.' :: '.' :: back := by
        intro back hcs
        rw [hcs] at hne
        exact hne rfl
      exact take_two_ne_dots hdots hr htake
    · intro htake
      match cs, htake with
      | d :: e :: more, htake => exact htake
  unfold Token.read? at h ⊢
  rw [takeWhile_append_of_stops (fun _ h => h) cs hr, takeWhile_append_of_stops (fun _ => isNamePart_of_isDigit) cs hr]
  simp only [hhead (show ':' ∉ stops by decide), hhead (show '>' ∉ stops by decide), hdots]
  -- a string literal is closed before
  by_cases hquote : c = '"' ∨ c = '\''
  · have hplain : isNameStart c ≠ true ∧ c.isDigit ≠ true := by rcases hquote with rfl | rfl <;> decide
    rw [if_neg hplain.1, if_neg hplain.2, if_pos hquote] at h ⊢
    obtain ⟨m, hm, he⟩ := Option.map_eq_some_iff.1 h
    rw [stringTail?_append hm]
    exact he ▸ rfl
  · rw [if_neg hquote] at h ⊢
    exact h

/-- Words at the end of a text do not run into what stops names and numbers. -/
theorem Word.Reads.before_stops {ws : List Word} (h : Reads ws []) {rest : List Char} (hr : Stops rest) :
    Reads ws rest := by
  induction ws with
  | nil => trivial
  | cons w ws ih =>
    obtain ⟨hw, hws⟩ := h
    obtain ⟨c, cs, htext, hc, hread⟩ := hw.read
    refine ⟨⟨hw.blank, c, cs, htext, hc, ?_⟩, ih hws⟩
    rw [List.append_nil] at hread
    rw [← List.append_assoc]
    exact read?_append_of_stops hread hr

namespace Lexeme

/-! ## Counting -/

/-- The number of commas outside brackets, if so many brackets are open at first. -/
def outerCommas (opened : Nat) : List Token → Nat
  | [] => 0
  | .opening _ :: ts => outerCommas (opened + 1) ts
  | .closing _ :: ts => outerCommas (opened - 1) ts
  | .comma :: ts => (if opened = 0 then 1 else 0) + outerCommas opened ts
  | _ :: ts => outerCommas opened ts

theorem outerCommas_plain {t : Token} (ht : NoBracket t) {opened : Nat} (hc : opened ≠ 0 ∨ t ≠ .comma)
    (ts : List Token) : outerCommas opened (t :: ts) = outerCommas opened ts := by
  cases t with
  | opening b => exact absurd rfl (ht b).1
  | closing b => exact absurd rfl (ht b).2
  | comma =>
    have hopened : opened ≠ 0 := hc.resolve_right (fun h => h rfl)
    simp [outerCommas, hopened]
  | _ => rfl

/-- A nested run is passed over, inside brackets or where it has no comma outside its own. -/
theorem Nested.outerCommas_append {outer : Token → Prop} {depth : Nat} {xs : List Lexeme} (h : Nested outer depth xs)
    {opened : Nat} (ho : opened ≠ 0 ∨ ∀ token, outer token → token ≠ .comma) (ts : List Token) :
    outerCommas opened (xs.map Lexeme.token ++ ts) = outerCommas opened ts := by
  induction h generalizing opened ts with
  | nil => rfl
  | plain hx hp _ ih =>
    rw [List.map_cons, List.cons_append, outerCommas_plain hx (ho.imp_right fun ho => ho _ hp)]
    exact ih ho ts
  | @bracketed _ _ b x y inner xs hx hy _ _ ihi ih =>
    have hinner : opened + 1 ≠ 0 := Nat.succ_ne_zero opened
    simp only [List.map_cons, List.map_append, List.cons_append, List.append_assoc, hx, hy]
    rw [outerCommas, ihi (.inl hinner), outerCommas, Nat.add_sub_cancel]
    exact ih ho ts

/-- **There is one more part than commas outside brackets.** -/
theorem Separated.length_eq {limit : Nat} {xs : List Lexeme} {parts : List (List Lexeme)}
    (h : Separated (Nested NoComma limit) xs parts) : parts.length = outerCommas 0 (xs.map Lexeme.token) + 1 := by
  induction h with
  | @last xs h =>
    have hnone : outerCommas 0 (xs.map Lexeme.token ++ []) = 0 := h.outerCommas_append (.inr fun _ h => h) []
    rw [List.append_nil] at hnone
    rw [hnone]
    rfl
  | @comma xs ys comma parts h hc _ ih =>
    rw [List.map_append, h.outerCommas_append (.inr fun _ h => h), List.map_cons, hc, List.length_cons, ih]
    simp only [outerCommas, if_true]
    omega

/-! ## Source texts -/

/-- The text is what stands in `cs` from the start of the first lexeme of the run to the end of its last one; it is empty
for no lexemes. -/
def SourceText (cs : List Char) (run : List Lexeme) (text : List Char) : Prop :=
  match run with
  | [] => text = []
  | x :: xs => ∃ before after, cs = before ++ text ++ after ∧ width before = x.span.start ∧
      width (before ++ text) = (xs.getLastD x).span.stop

theorem Tiled.first_start {after : List Char} {start : Nat} {cs : List Char} {x : Lexeme} {xs : List Lexeme}
    (h : Tiled after start cs (x :: xs)) : x.span.start = start + width x.gap := by
  cases h with
  | lexeme _ hstart _ _ => exact hstart

/-- A tiling comes apart between two lexemes. -/
theorem Tiled.split {after : List Char} {front more : List Lexeme} :
    ∀ {start : Nat} {cs : List Char}, Tiled after start cs (front ++ more) →
      ∃ rest, cs = spelled front ++ rest ∧ Tiled (rest ++ after) start (spelled front) front ∧
        Tiled after (start + width (spelled front)) rest more := by
  induction front with
  | nil =>
    intro start cs h
    exact ⟨cs, rfl, .blanks (List.forall_mem_nil _), h⟩
  | cons x front ih =>
    intro start cs h
    cases h with
    | lexeme hgap hstart hlongest h =>
      obtain ⟨rest, rfl, hfront, hmore⟩ := ih h
      rw [List.append_assoc] at hlongest
      have hplace : start + width (spelled (x :: front)) = x.span.stop + width (spelled front) := by
        simp only [spelled_cons, width_append, span, hstart]
        omega
      refine ⟨rest, by simp, .lexeme hgap hstart hlongest hfront, ?_⟩
      rw [hplace]
      exact hmore

/-- The last lexeme ends where the text of all of them does. -/
theorem Tiled.last_stop {after : List Char} {start : Nat} {cs : List Char} {x : Lexeme} {xs : List Lexeme}
    (h : Tiled after start cs (x :: xs)) : (xs.getLastD x).span.stop = start + width (spelled (x :: xs)) := by
  induction xs generalizing start cs x with
  | nil =>
    cases h with
    | lexeme _ hstart _ _ =>
      simp only [List.getLastD_nil, span, hstart, spelled_cons, spelled_nil, width_append, width_nil]
      omega
  | cons y ys ih =>
    cases h with
    | lexeme _ hstart _ h =>
      have hlast := ih h
      rw [List.getLastD_cons, hlast, spelled_cons x]
      simp only [span, hstart, width_append]
      omega

/-- **The text of a run is a part of the text** that its lexemes come from. -/
theorem sourceText_of_infix {cs : List Char} {xs run : List Lexeme} (h : Tiled [] 0 cs xs) (hrun : run <:+: xs) :
    SourceText cs run (runText run) := by
  cases run with
  | nil => exact rfl
  | cons x ys =>
    obtain ⟨front, back, rfl⟩ := hrun
    rw [List.append_assoc] at h
    obtain ⟨rest, hcs, -, hrest⟩ := h.split
    obtain ⟨tail, rfl, hrun, -⟩ := hrest.split
    have htext : spelled (x :: ys) = x.gap ++ runText (x :: ys) := List.append_assoc _ _ _
    refine ⟨spelled front ++ x.gap, tail, ?_, ?_, ?_⟩
    · rw [hcs, htext]
      simp
    · rw [hrun.first_start, width_append, Nat.zero_add]
    · rw [hrun.last_stop, htext]
      simp only [width_append]
      omega

/-! ## Joining -/

/-- The text is empty, or its lexemes begin and end with it, are well nested within the limit and have no comma outside
brackets. -/
def IsPiece (limit : Nat) (text : List Char) : Prop :=
  text = [] ∨ ∃ x xs, ofText text = .ok (x :: xs) ∧ Nested NoComma limit (x :: xs) ∧
    x.span.start = 0 ∧ (xs.getLastD x).span.stop = width text

/-- A text that is split into itself alone is a piece. -/
theorem isPiece_of_splitText {limit : Nat} {text : List Char} (h : splitText limit text = .ok [text]) :
    IsPiece limit text := by
  unfold splitText at h
  cases hxs : ofText text with
  | error e =>
    rw [hxs] at h
    cases h
  | ok xs =>
    rw [hxs] at h
    obtain ⟨found, hfound, htexts⟩ :=
      eq_ok_of_map_eq_ok (show (pieces limit xs).map (·.map runText) = .ok [text] from h)
    obtain ⟨part, rfl, hrun⟩ := List.map_eq_singleton_iff.1 htexts
    obtain ⟨rfl, hnested⟩ := of_pieces_singleton hfound
    cases part with
    | nil => exact .inl hrun.symm
    | cons x xs =>
      have htiled := scan_eq_ok_iff.1 hxs
      obtain ⟨tail, htext, -⟩ := spelled_scan hxs
      have hspelled : spelled (x :: xs) = x.gap ++ text := by
        rw [← hrun]
        exact List.append_assoc _ _ _
      -- blanks before or behind the run would make it shorter than the text
      have hwidth : width text = width x.gap + width text + width tail := by
        rw [← width_append, ← hspelled, ← width_append, ← htext]
      refine .inr ⟨x, xs, hxs, hnested, ?_, ?_⟩
      · rw [htiled.first_start]
        omega
      · rw [htiled.last_stop, hspelled, width_append]
        omega

/-- The words make up the whole text, and lexemes with these words are a part that is not cut. -/
structure Whole (limit : Nat) (text : List Char) (ws : List Word) : Prop where
  reads : Word.Reads ws []
  spelled : Word.spelled ws = text
  nested : ∀ zs : List Lexeme, zs.map word = ws → Nested NoComma limit zs ∧ runText zs = text

theorem eq_nil_of_width_eq_zero {cs : List Char} (h : width cs = 0) : cs = [] := by
  cases cs with
  | nil => rfl
  | cons c cs =>
    rw [width_cons] at h
    exact absurd h (Nat.ne_of_gt (Nat.add_pos_left c.utf8Size_pos _))

theorem exists_whole {limit : Nat} {text : List Char} (h : IsPiece limit text) : ∃ ws, Whole limit text ws := by
  rcases h with rfl | ⟨x, xs, hxs, hnested, hfirst, hlast⟩
  · refine ⟨[], trivial, rfl, fun zs hzs => ?_⟩
    rw [List.map_eq_nil_iff.1 hzs]
    exact ⟨.nil, rfl⟩
  · obtain ⟨tail, htext, hreads⟩ := reads_scan hxs
    have htiled := scan_eq_ok_iff.1 hxs
    -- the first lexeme has no blanks before it, and the last one none behind it
    have hgap : x.gap = [] := by
      have hstart := htiled.first_start
      exact eq_nil_of_width_eq_zero (by omega)
    have htail : tail = [] := by
      have hstop := htiled.last_stop
      rw [hlast, htext, width_append] at hstop
      exact eq_nil_of_width_eq_zero (by omega)
    rw [htail] at htext hreads
    rw [List.append_nil] at htext
    have hrun : runText (x :: xs) = text := by
      rw [htext, spelled_cons, hgap]
      rfl
    refine ⟨(x :: xs).map word, hreads, by rw [spelled_map_word, htext], fun zs hzs => ⟨?_, ?_⟩⟩
    · have htokens : zs.map token = (x :: xs).map token := by
        have hmap := congrArg (List.map Word.token) hzs
        rwa [List.map_map, List.map_map] at hmap
      exact hnested.congr htokens
    · rw [← spelled_bare, bare_eq_of_map_word hzs, spelled_bare, hrun]

/-- A comma as a word. -/
def commaWord : Word := Word.sign .comma ','

theorem reads_comma (rest : List Char) : commaWord.ReadsBefore rest := reads_sign rest (by decide) fun _ => rfl

/-- Whole texts with commas between them are read as their words with commas between them. -/
theorem reads_intercalate {limit : Nat} {texts : List (List Char)} {wss : List (List Word)}
    (h : List.Forall₂ (Whole limit) texts wss) :
    Word.Reads ([commaWord].intercalate wss) [] ∧ Word.spelled ([commaWord].intercalate wss) = [','].intercalate texts := by
  induction h with
  | nil => exact ⟨trivial, rfl⟩
  | @cons text ws texts wss hw hrest ih =>
    cases hrest with
    | nil =>
      rw [List.intercalate_singleton, List.intercalate_singleton]
      exact ⟨hw.reads, hw.spelled⟩
    | @cons text' ws' texts wss _ _ =>
      obtain ⟨hreads, hspelled⟩ := ih
      rw [List.intercalate_cons_cons, List.intercalate_cons_cons, List.append_assoc, List.append_assoc]
      refine ⟨Word.reads_append (hw.reads.before_stops ?_) ⟨reads_comma _, hreads⟩, ?_⟩
      · exact stops_cons (c := ',') (by decide) _
      · rw [Word.spelled_append, Word.spelled_append, hw.spelled, hspelled]
        rfl

/-- Lexemes that are words with commas between them come apart at these commas. -/
theorem exists_runs {limit : Nat} {texts : List (List Char)} {wss : List (List Word)}
    (h : List.Forall₂ (Whole limit) texts wss) (hne : texts ≠ []) :
    ∀ {zs : List Lexeme}, zs.map word = [commaWord].intercalate wss →
      ∃ runs, Separated (Nested NoComma limit) zs runs ∧ runs.map runText = texts := by
  induction h with
  | nil => exact absurd rfl hne
  | @cons text ws texts wss hw hrest ih =>
    intro zs hzs
    cases hrest with
    | nil =>
      rw [List.intercalate_singleton] at hzs
      obtain ⟨hnested, htext⟩ := hw.nested zs hzs
      exact ⟨[zs], .last hnested, by rw [List.map_singleton, htext]⟩
    | cons _ _ =>
      rw [List.intercalate_cons_cons, List.append_assoc] at hzs
      obtain ⟨front, back, rfl, hfront, hback⟩ := List.map_eq_append_iff.1 hzs
      obtain ⟨comma, more, rfl, hcomma, hmore⟩ := List.map_eq_cons_iff.1 hback
      obtain ⟨hnested, htext⟩ := hw.nested front hfront
      obtain ⟨runs, hseparated, htexts⟩ := ih (List.cons_ne_nil _ _) hmore
      refine ⟨front :: runs, .comma hnested (congrArg Word.token hcomma) hseparated, ?_⟩
      rw [List.map_cons, htext, htexts]

/-- **Splitting undoes joining.** -/
theorem splitText_intercalate {limit : Nat} {texts : List (List Char)} (hne : texts ≠ [[]])
    (h : ∀ text ∈ texts, IsPiece limit text) : splitText limit ([','].intercalate texts) = .ok texts := by
  obtain ⟨wss, hwss⟩ : ∃ wss, List.Forall₂ (Whole limit) texts wss := by
    clear hne
    induction texts with
    | nil => exact ⟨[], .nil⟩
    | cons text texts ih =>
      obtain ⟨htext, htexts⟩ := List.forall_mem_cons.1 h
      obtain ⟨ws, hws⟩ := exists_whole htext
      obtain ⟨wss, hwss⟩ := ih htexts
      exact ⟨ws :: wss, .cons hws hwss⟩
  obtain ⟨hreads, hspelled⟩ := reads_intercalate hwss
  obtain ⟨zs, hzs, hwords⟩ := ofText_spelled hreads
  rw [hspelled] at hzs
  have hsplit (parts : List (List Lexeme)) (hparts : pieces limit zs = .ok parts) :
      splitText limit ([','].intercalate texts) = .ok (parts.map runText) := by
    unfold splitText
    rw [hzs]
    show (pieces limit zs).map (fun found => found.map runText) = _
    rw [hparts]
    rfl
  by_cases hnil : texts = []
  · subst hnil
    cases hwss
    obtain rfl := List.map_eq_nil_iff.1 hwords
    exact hsplit [] rfl
  · obtain ⟨runs, hseparated, htexts⟩ := exists_runs hwss hnil hwords
    have hzsne : zs ≠ [] := by
      rintro rfl
      obtain rfl := hseparated.of_nil
      exact hne htexts.symm
    rw [hsplit runs (pieces_eq_ok_iff.2 (.inr ⟨hzsne, hseparated⟩)), htexts]

/-! ## Splitting -/

/-- **The parts of a text** with these lexemes. -/
structure PartsOf (limit : Nat) (cs : List Char) (xs : List Lexeme) (parts : List (List Char)) : Prop where
  empty : xs = [] → parts = []
  length : xs ≠ [] → parts.length = outerCommas 0 (xs.map Lexeme.token) + 1
  source : ∀ part ∈ parts, ∃ run, run <:+: xs ∧ Nested NoComma limit run ∧ SourceText cs run part

theorem partsOf_pieces {limit : Nat} {cs : List Char} {xs : List Lexeme} {runs : List (List Lexeme)}
    (hxs : ofText cs = .ok xs) (hruns : pieces limit xs = .ok runs) : PartsOf limit cs xs (runs.map runText) := by
  rcases pieces_eq_ok_iff.1 hruns with ⟨rfl, rfl⟩ | ⟨hne, hseparated⟩
  · exact ⟨fun _ => rfl, fun hne => absurd rfl hne, List.forall_mem_nil _⟩
  · refine ⟨fun hnil => absurd hnil hne, fun _ => ?_, fun part hpart => ?_⟩
    · rw [List.length_map, hseparated.length_eq]
    · obtain ⟨run, hrun, rfl⟩ := List.mem_map.1 hpart
      obtain ⟨hnested, hinfix⟩ := hseparated.forall_mem run hrun
      exact ⟨run, hinfix, hnested, sourceText_of_infix (scan_eq_ok_iff.1 hxs) hinfix⟩

/-- **Splitting is exact and undoes joining**: a text is split exactly if it has lexemes that are well nested within the
limit; the parts are those of the text; and pieces with commas between them are split into these pieces. -/
theorem splits_exactly (limit : Nat) :
    (∀ cs, (∃ parts, splitText limit cs = .ok parts) ↔
      ∃ xs, ofText cs = .ok xs ∧ Nested (fun _ => True) limit xs) ∧
    (∀ cs parts, splitText limit cs = .ok parts → ∃ xs, ofText cs = .ok xs ∧ PartsOf limit cs xs parts) ∧
    ∀ texts, texts ≠ [[]] → (∀ text ∈ texts, IsPiece limit text) →
      splitText limit ([','].intercalate texts) = .ok texts := by
  have hsplit {cs : List Char} {xs : List Lexeme} (hxs : ofText cs = .ok xs) :
      splitText limit cs = (pieces limit xs).map fun found => found.map runText := by
    unfold splitText
    rw [hxs]
    rfl
  have hread {cs : List Char} {parts : List (List Char)} (h : splitText limit cs = .ok parts) :
      ∃ xs runs, ofText cs = .ok xs ∧ pieces limit xs = .ok runs ∧ runs.map runText = parts := by
    cases hxs : ofText cs with
    | error e =>
      unfold splitText at h
      rw [hxs] at h
      cases h
    | ok xs =>
      rw [hsplit hxs] at h
      obtain ⟨runs, hruns, htexts⟩ := eq_ok_of_map_eq_ok h
      exact ⟨xs, runs, rfl, hruns, htexts⟩
  refine ⟨fun cs => ⟨?_, ?_⟩, ?_, fun texts hne h => splitText_intercalate hne h⟩
  · rintro ⟨parts, h⟩
    obtain ⟨xs, runs, hxs, hruns, -⟩ := hread h
    exact ⟨xs, hxs, nested_iff_exists_pieces.2 ⟨runs, hruns⟩⟩
  · rintro ⟨xs, hxs, hnested⟩
    obtain ⟨runs, hruns⟩ := nested_iff_exists_pieces.1 hnested
    exact ⟨runs.map runText, by rw [hsplit hxs, hruns]; rfl⟩
  · intro cs parts h
    obtain ⟨xs, runs, hxs, hruns, rfl⟩ := hread h
    exact ⟨xs, hxs, partsOf_pieces hxs hruns⟩

/-- The lexemes of `m[a,b]`. -/
def indexed : List Lexeme :=
  [⟨.identifier, [], ['m'], 0⟩, ⟨.opening .square, [], ['['], 1⟩, ⟨.identifier, [], ['a'], 2⟩,
   ⟨.comma, [], [','], 3⟩, ⟨.identifier, [], ['b'], 4⟩, ⟨.closing .square, [], [']'], 5⟩]

/-- A comma inside brackets, an empty piece and a comma inside a string literal. -/
theorem splits_exactly_mixed :
    let texts := ["m[a,b]".toList, [], "','".toList]
    texts ≠ [[]] ∧ (∀ text ∈ texts, IsPiece 3 text) ∧ splitText 3 "m[a,b],,','".toList = .ok texts := by
  intro texts
  have hindexed : IsPiece 3 "m[a,b]".toList := by
    have hxs : ofText "m[a,b]".toList = .ok indexed := eq_ok_of_toOption (by decide +kernel)
    have hpieces : pieces 3 indexed = .ok [indexed] := rfl
    exact .inr ⟨_, _, hxs, (of_pieces_singleton hpieces).2, rfl, rfl⟩
  have hquoted : IsPiece 3 "','".toList := by
    have hxs : ofText "','".toList = .ok [⟨.stringLiteral, [], "','".toList, 0⟩] :=
      eq_ok_of_toOption (by decide +kernel)
    have hpieces : pieces 3 [⟨.stringLiteral, [], "','".toList, 0⟩] = .ok [[⟨.stringLiteral, [], "','".toList, 0⟩]] :=
      rfl
    exact .inr ⟨_, _, hxs, (of_pieces_singleton hpieces).2, rfl, rfl⟩
  have hall : ∀ text ∈ texts, IsPiece 3 text := by
    intro text htext
    rcases List.mem_cons.1 htext with rfl | htext
    · exact hindexed
    rcases List.mem_cons.1 htext with rfl | htext
    · exact .inl rfl
    · exact List.mem_singleton.1 htext ▸ hquoted
  have hne : texts ≠ [[]] := by decide
  exact ⟨hne, hall, (splits_exactly 3).2.2 texts hne hall⟩

end Lexeme
end CallSig
