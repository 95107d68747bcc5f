import CallSig.Proofs.Lexeme.Brackets
import CallSig.Proofs.Lexeme.Collapsing
import CallSig.Proofs.Resolution.HostShapes
import Mathlib.Data.List.Infix

/-!
# `CallSig.Proofs.Resolution.Cuts` — where a type token is cut

Two scanners pair the brackets of a type token. The parser goes forwards over lexemes and keeps the open brackets of all
three kinds; the analysis of the shape goes backwards over characters and counts brackets of the last kind only. They
find the same partner for the last bracket exactly when the bracket characters of this kind between the two are
balanced. Lexemes that nest well are not enough for that: an arrow and a string literal have bracket characters that
are no brackets.

## Contents
- **Counting.** `Balanced`, `splitAtOpener_eq_some_iff`, `splitAtOpener_reverse_iff`; `balanced_of_passed`.
- **Pairs.** `Paired`, `Paired.takenOff`, `exists_paired`; `Nested.passed`: nested lexemes spell balanced brackets, but
  for arrows and string literals.
- **Agreement.** `Paired.cut?_eq_some_iff`, `Paired.ofToken_eq`, `Paired.balanced`; `CutInto`, `cut_iff_balanced`.
-/

namespace CallSig

open Text

/-! ## Counting -/

/-- From the right, no more brackets of this kind are opened than closed, and as many in all. -/
def Balanced (b : Bracket) (cs : List Char) : Prop :=
  cs.count b.opener = cs.count b.closer ∧ ∀ back ∈ cs.tails, back.count b.opener ≤ back.count b.closer

instance (b : Bracket) (cs : List Char) : Decidable (Balanced b cs) :=
  inferInstanceAs (Decidable (_ ∧ _))

theorem splitAtOpener_cons_eq_some_iff {opener closer c : Char} {depth : Nat} {xs rest cs : List Char} :
    splitAtOpener opener closer depth (c :: cs) = some (c :: xs, rest) ↔
      ¬(c = opener ∧ depth = 0) ∧
        splitAtOpener opener closer (if c = closer then depth + 1 else if c = opener then depth - 1 else depth) cs =
          some (xs, rest) := by
  rw [splitAtOpener]
  split
  · next hstop => simp [hstop]
  · next hgo => simp [hgo]

/-- **Where the search stops**: at the bracket up to which as many are opened as closed, and nowhere before it more. -/
theorem splitAtOpener_eq_some_iff {opener closer : Char} (hne : opener ≠ closer) {depth : Nat} {xs rest : List Char} :
    splitAtOpener opener closer depth (xs ++ opener :: rest) = some (xs, rest) ↔
      xs.count opener = xs.count closer + depth ∧
        ∀ front ∈ xs.inits, front.count opener ≤ front.count closer + depth := by
  induction xs generalizing depth with
  | nil =>
    rw [List.nil_append, splitAtOpener]
    by_cases hd : depth = 0
    · simp [hd]
    · simp [hd, Ne.symm hd]
  | cons c xs ih =>
    rw [List.cons_append, splitAtOpener_cons_eq_some_iff, ih, List.inits_cons, List.forall_mem_cons, List.forall_mem_map,
      List.count_nil, List.count_nil]
    by_cases ho : c = opener
    · subst ho
      simp only [if_neg hne, if_true, true_and, List.count_cons_self, List.count_cons_of_ne hne]
      constructor
      · rintro ⟨hd, hcount, hall⟩
        exact ⟨by omega, Nat.zero_le _, fun front hf => have := hall front hf; by omega⟩
      · rintro ⟨hcount, -, hall⟩
        -- where no bracket is open this one stops the search
        have hd : 1 ≤ depth := by simpa using hall [] (by simp)
        exact ⟨by omega, by omega, fun front hf => have := hall front hf; by omega⟩
    · by_cases hc : c = closer
      · subst hc
        simp only [if_true, ho, false_and, not_false_iff, true_and, List.count_cons_self, List.count_cons_of_ne ho]
        simp only [Nat.add_assoc, Nat.add_comm 1, Nat.zero_le, true_and]
      · simp only [if_neg hc, ho, if_false, false_and, not_false_iff, true_and, List.count_cons_of_ne ho,
          List.count_cons_of_ne hc, Nat.zero_le]

theorem Bracket.opener_ne_closer (b : Bracket) : b.opener ≠ b.closer := by cases b <;> decide

/-- **The bracket that the search finds** from the end of a text is the one after which brackets are balanced. -/
theorem splitAtOpener_reverse_iff {b : Bracket} {cs rest : List Char} :
    splitAtOpener b.opener b.closer 0 (cs.reverse ++ b.opener :: rest) = some (cs.reverse, rest) ↔ Balanced b cs := by
  rw [splitAtOpener_eq_some_iff b.opener_ne_closer, List.inits_reverse]
  simp only [Balanced, List.count_reverse, Nat.add_zero, List.mem_reverse, List.forall_mem_map]

theorem balanced_of_passed {b : Bracket} {cs : List Char} (h : Lexicon.Passed b cs) : Balanced b cs := by
  have hstop : splitAtOpener b.opener b.closer 0 (cs.reverse ++ [b.opener]) = some (cs.reverse, []) := by
    rw [h, splitAtOpener, if_pos ⟨rfl, rfl⟩]
    simp
  exact splitAtOpener_reverse_iff.1 hstop

/-! ## Pairs -/

namespace Lexeme

/-- The last lexeme of the run closes a bracket, and this is the opening one that the parser pairs with it: what stands
between the two is well nested. -/
structure Paired (depth : Nat) (b : Bracket) (xs head : List Lexeme) (opened : Lexeme) (inner : List Lexeme)
    (closed : Lexeme) : Prop where
  run : xs = head ++ opened :: (inner ++ [closed])
  opening : opened.token = .opening b
  closing : closed.token = .closing b
  nested : Nested (fun _ => True) depth inner

/-- With the opening bracket on top, the parser goes through what stands between and takes this bracket off at the
closing one, whatever else is open and whatever follows. -/
def TakenOff (depth : Nat) (b : Bracket) (opened : Lexeme) (inner : List Lexeme) (closed : Lexeme) : Prop :=
  ∀ (limit : Nat) (outer : List (Bracket × Span)) (rest : List Lexeme), depth + outer.length < limit →
    cut limit ((b, opened.span) :: outer) (inner ++ closed :: rest) =
      (cut limit outer rest).map fun (piece, more) => (inner ++ closed :: piece, more)

/-- **The parser pairs the two.** -/
theorem Paired.takenOff {depth : Nat} {b : Bracket} {xs head inner : List Lexeme} {opened closed : Lexeme}
    (h : Paired depth b xs head opened inner closed) : TakenOff depth b opened inner closed := by
  intro limit outer rest hl
  have hpasses : Passes limit ((b, opened.span) :: outer) inner :=
    h.nested.passes (by simp only [List.length_cons]; omega) (.inl (List.cons_ne_nil _ _))
  rw [hpasses, cut_closing h.closing]
  cases cut limit outer rest <;> rfl

/-- **In a nested run the last closing bracket has its partner.** -/
theorem exists_paired {outer : Token → Prop} {depth : Nat} {xs : List Lexeme} (h : Nested outer depth xs)
    {closed : Lexeme} (hlast : xs.getLast? = some closed) {b : Bracket} (hc : closed.token = .closing b) :
    ∃ head opened inner, Paired (depth - 1) b xs head opened inner closed := by
  induction h with
  | nil => cases hlast
  | @plain _ _ x xs hx _ _ ih =>
    cases xs with
    | nil =>
      obtain rfl : x = closed := Option.some.inj hlast
      exact absurd hc (hx b).2
    | cons y xs =>
      obtain ⟨head, opened, inner, hp⟩ := ih hlast
      exact ⟨x :: head, opened, inner, by rw [hp.run]; rfl, hp.opening, hp.closing, hp.nested⟩
  | @bracketed _ _ b' x y inner xs hx hy hi _ _ ih =>
    cases xs with
    | nil =>
      rw [← List.cons_append, List.getLast?_concat] at hlast
      obtain rfl : y = closed := Option.some.inj hlast
      obtain rfl : b' = b := Token.closing.inj (hy.symm.trans hc)
      exact ⟨[], x, inner, rfl, hx, hy, hi⟩
    | cons z xs =>
      rw [← List.cons_append, List.getLast?_append_of_ne_nil _ (List.cons_ne_nil _ _)] at hlast
      obtain ⟨head, opened, inner', hp⟩ := ih hlast
      exact ⟨x :: (inner ++ y :: head), opened, inner', by simp [hp.run], hp.opening, hp.closing, hp.nested⟩

theorem passed_of_brackets_eq_nil {cs : List Char} (h : brackets cs = []) (b : Bracket) : Lexicon.Passed b cs := by
  refine Lexicon.passed_of_ne fun c hc => ?_
  have hnone := List.filterMap_eq_nil_iff.1 h c hc
  refine ⟨?_, ?_⟩ <;>
  · rintro rfl
    revert hnone
    cases b <;> decide

/-- **Nested lexemes spell balanced brackets** where no string literals and no arrows are. -/
theorem Nested.passed {outer : Token → Prop} {n : Nat} {xs : List Lexeme} (h : Nested outer n xs) (hf : FromText xs)
    (hs : ∀ c ∈ spelled xs, Sober c) (b : Bracket) : Lexicon.Passed b (spelled xs) := by
  induction h with
  | nil => exact Lexicon.passed_of_ne (List.forall_mem_nil _)
  | @plain _ _ x xs hx _ _ ih =>
    obtain ⟨rest, hread⟩ := hf.exists_readsBefore List.mem_cons_self
    rw [spelled_cons] at hs ⊢
    obtain ⟨hfirst, hmore⟩ := List.forall_mem_append.1 hs
    have htext : brackets x.text = [] := by
      have hnone : x.word.token.isBracket = false := hx.isBracket_eq_false
      rw [show x.text = x.word.text from rfl, hread.brackets_text (List.forall_mem_append.1 hfirst).2,
        List.filter_singleton, hnone]
      rfl
    have hword := (passed_of_brackets_eq_nil hread.brackets_gap b).append (passed_of_brackets_eq_nil htext b)
    have hback : FromText xs := hf.infix (List.suffix_cons x xs).isInfix
    exact hword.append (ih hback hmore)
  | @bracketed _ _ b' x y inner xs hx hy _ _ ihi ih =>
    have hmem : y ∈ x :: (inner ++ y :: xs) := by simp
    obtain ⟨_, hopened⟩ := hf.exists_readsBefore List.mem_cons_self
    obtain ⟨_, hclosed⟩ := hf.exists_readsBefore hmem
    have hspelled : spelled (x :: (inner ++ y :: xs)) =
        x.gap ++ (b'.opener :: (spelled inner ++ y.gap ++ [b'.closer])) ++ spelled xs := by
      simp [spelled, show x.text = _ from hopened.text_of_opening hx, show y.text = _ from hclosed.text_of_closing hy]
    rw [hspelled] at hs ⊢
    have hinner : FromText inner := hf.infix ⟨[x], y :: xs, by simp⟩
    have hback : FromText xs := hf.infix ⟨x :: (inner ++ [y]), [], by simp⟩
    have hinside : Lexicon.Passed b (spelled inner ++ y.gap) :=
      (ihi hinner fun c hc => hs c (by simp [hc])).append (passed_of_brackets_eq_nil hclosed.brackets_gap b)
    have hpair : Lexicon.Passed b (b'.opener :: (spelled inner ++ y.gap ++ [b'.closer])) := hinside.bracketed
    have hfront := (passed_of_brackets_eq_nil hopened.brackets_gap b).append hpair
    exact hfront.append (ih hback fun c hc => hs c (by simp [hc]))

/-! ## Agreement -/

namespace Paired

variable {depth : Nat} {b : Bracket} {xs head inner : List Lexeme} {opened closed : Lexeme}

theorem fromText_head (h : Paired depth b xs head opened inner closed) (hf : FromText xs) : FromText head :=
  hf.infix ⟨[], opened :: (inner ++ [closed]), by simp [h.run]⟩

theorem fromText_inner (h : Paired depth b xs head opened inner closed) (hf : FromText xs) : FromText inner :=
  hf.infix ⟨head ++ [opened], [closed], by simp [h.run]⟩

theorem exists_reads (h : Paired depth b xs head opened inner closed) (hf : FromText xs) :
    (∃ rest, opened.word.ReadsBefore rest) ∧ ∃ rest, closed.word.ReadsBefore rest := by
  refine ⟨hf.exists_readsBefore ?_, hf.exists_readsBefore ?_⟩
  all_goals simp [h.run]

theorem runText_eq (h : Paired depth b xs head opened inner closed) (hf : FromText xs) (hne : head ≠ []) :
    runText xs = runText head ++ opened.gap ++ b.opener :: (spelled inner ++ closed.gap ++ [b.closer]) := by
  obtain ⟨⟨_, hopened⟩, _, hclosed⟩ := h.exists_reads hf
  obtain rfl := h.run
  have hopener : opened.text = [b.opener] := hopened.text_of_opening h.opening
  have hcloser : closed.text = [b.closer] := hclosed.text_of_closing h.closing
  obtain ⟨x, head, rfl⟩ := List.exists_cons_of_ne_nil hne
  simp [runText, spelled, hopener, hcloser]

/-- **The analysis finds the partner** of the last bracket if and only if the text between the two is balanced. -/
theorem cut?_eq_some_iff (h : Paired depth b xs head opened inner closed) (hf : FromText xs) (hne : head ≠ [])
    (hb : b ≠ .round) :
    TypeShape.cut? (String.ofList (runText xs)) =
      some (runText head ++ opened.gap, b, spelled inner ++ closed.gap) ↔ Balanced b (spelled inner ++ closed.gap) := by
  have hwhole : trim (String.ofList (runText xs)).toList =
      runText head ++ opened.gap ++ b.opener :: (spelled inner ++ closed.gap ++ [b.closer]) := by
    rw [String.toList_ofList, (tight_runText hf).trim_eq, h.runText_eq hf hne]
  rw [TypeShape.cut?_of_bracketed hb hwhole, ← splitAtOpener_reverse_iff, Option.map_eq_some_iff]
  constructor
  · rintro ⟨⟨inside, before⟩, hs, he⟩
    obtain ⟨hbefore, he⟩ := Prod.mk.inj he
    obtain ⟨-, hinside⟩ := Prod.mk.inj he
    rw [hs, ← hbefore, ← hinside, List.reverse_reverse, List.reverse_reverse]
  · intro hs
    exact ⟨_, hs, by simp⟩

theorem trim_inside (hf : FromText inner) {gap : List Char} (hgap : ∀ c ∈ gap, isGap c = true) :
    trim (spelled inner ++ gap) = runText inner := by
  cases inner with
  | nil =>
    have hblank : (gap ++ []).dropWhile isBlank = [] :=
      List.dropWhile_append_of_pos fun c hc => Word.isBlank_of_isGap (hgap c hc)
    rw [List.append_nil] at hblank
    show trimEnd (gap.dropWhile isBlank) = []
    rw [hblank]
    rfl
  | cons x inner =>
    obtain ⟨_, hx⟩ := hf.exists_readsBefore List.mem_cons_self
    have hspelled : spelled (x :: inner) ++ gap = x.gap ++ runText (x :: inner) ++ gap := by
      simp [spelled, runText]
    rw [hspelled]
    exact Lexicon.trim_gaps (tight_runText hf) (runText_ne_nil hf (List.cons_ne_nil _ _)) ⟨x.gap, hx.blank⟩ ⟨gap, hgap⟩

/-- **What is cut where brackets are balanced** is what the lexemes spell. -/
theorem ofToken_eq (h : Paired depth b xs head opened inner closed) (hf : FromText xs) (hne : head ≠ [])
    (hb : b ≠ .round) (hbalanced : Balanced b (spelled inner ++ closed.gap)) (limit : Nat) :
    TypeShape.ofToken limit (String.ofList (runText xs)) =
      TypeShape.ofParts limit (runText xs) (runText head) (runText inner) b := by
  obtain ⟨⟨_, hopened⟩, _, hclosed⟩ := h.exists_reads hf
  have hbefore : trimEnd (runText head ++ opened.gap) = runText head :=
    Lexicon.trimEnd_gap (tight_runText (h.fromText_head hf)) ⟨opened.gap, hopened.blank⟩
  have hinside : trim (spelled inner ++ closed.gap) = runText inner :=
    trim_inside (h.fromText_inner hf) hclosed.blank
  rw [TypeShape.ofToken_eq_cut, (h.cut?_eq_some_iff hf hne hb).2 hbalanced]
  dsimp only
  rw [String.toList_ofList, (tight_runText hf).trim_eq, hbefore, hinside]

/-- Brackets are balanced where no string literals and no arrows are. -/
theorem balanced (h : Paired depth b xs head opened inner closed) (hf : FromText xs)
    (hs : ∀ c ∈ spelled inner ++ closed.gap, Sober c) : Balanced b (spelled inner ++ closed.gap) := by
  obtain ⟨-, _, hclosed⟩ := h.exists_reads hf
  have hpassed := h.nested.passed (h.fromText_inner hf) (List.forall_mem_append.1 hs).1 b
  exact balanced_of_passed (hpassed.append (passed_of_brackets_eq_nil hclosed.brackets_gap b))

end Paired

end Lexeme

namespace TypeShape

open Lexeme

/-- The shape of a token that is cut at a bracket: what stands before it is the element or the container, and the pieces
of what stands inside are the arguments, unless there are none, one of them is empty, or they are an array suffix. -/
structure CutInto (depth : Nat) (token : String) (b : Bracket) (head inner : List Lexeme) : Prop where
  stem : ∀ stem, (ofToken depth token).stem? = some stem → stem = String.ofList (runText head)
  pieces : ∃ parts, pieces depth inner = .ok parts ∧
    (parts ≠ [] → [] ∉ parts → ¬(b = .square ∧ (runText inner).all Char.isDigit = true) →
      ofToken depth token = .generic (String.ofList (runText head)) (parts.map fun part => String.ofList (runText part)))

/-- **The analysis cuts the type of an argument where the parser pairs its last bracket**, if and only if the bracket
characters of this kind are balanced between the two. -/
theorem cut_iff_balanced {depth : Nat} {line : String} {d : Descriptor} (h : Descriptor.parse depth line = .ok d)
    {arg : Argument} (ha : arg ∈ d.arguments) :
    ∃ xs, ofText arg.typeToken.toList = .ok xs ∧
      (∀ closed b, xs.getLast? = some closed → closed.token = .closing b →
        ∃ head opened inner, Paired depth b xs head opened inner closed) ∧
      ∀ b head opened inner closed, Paired depth b xs head opened inner closed → b ≠ .round → head ≠ [] →
        TakenOff depth b opened inner closed ∧
        (cut? arg.typeToken = some (runText head ++ opened.gap, b, spelled inner ++ closed.gap) ↔
          Balanced b (spelled inner ++ closed.gap)) ∧
        ((∀ c ∈ spelled inner ++ closed.gap, Sober c) → Balanced b (spelled inner ++ closed.gap)) ∧
        (Balanced b (spelled inner ++ closed.gap) → CutInto depth arg.typeToken b head inner) := by
  obtain ⟨ys, hys, hnested, htype⟩ := Grammar.exists_type_of_parse h ha
  obtain ⟨xs, hxs, htext, htokens⟩ := exists_ofText_collapse hys
  have hf := fromText_of_ofText hxs
  have htoken : arg.typeToken = String.ofList (runText xs) := htype.trans (by rw [htext])
  refine ⟨xs, by rw [htype, String.toList_ofList, hxs], ?_, ?_⟩
  · intro closed b hlast hclosed
    obtain ⟨head, opened, inner, hp⟩ := exists_paired (hnested.congr htokens) hlast hclosed
    have hdepth : Descriptor.parserDepth depth - 1 ≤ depth := by
      unfold Descriptor.parserDepth
      omega
    exact ⟨head, opened, inner, hp.run, hp.opening, hp.closing, hp.nested.mono hdepth⟩
  · intro b head opened inner closed hp hb hne
    rw [htoken]
    refine ⟨hp.takenOff, hp.cut?_eq_some_iff hf hne hb, hp.balanced hf, fun hbalanced => ?_⟩
    have hshape := hp.ofToken_eq hf hne hb hbalanced depth
    have hinner := hp.fromText_inner hf
    obtain ⟨parts, hparts⟩ := nested_iff_exists_pieces.1 hp.nested
    refine ⟨fun stem hstem => stem?_ofParts (hshape ▸ hstem), parts, hparts, fun hne' hmem hnumber => ?_⟩
    rw [hshape, ofParts_generic (runText_ne_nil (hp.fromText_head hf) hne) hnumber (splitText_runText hinner hparts)
      (by simpa using hne') (nil_not_mem_map_runText hinner hparts hmem), List.map_map]
    rfl

/-- What the line `f(m:std.map<str, List[int]>)` says. -/
def mapLine : Descriptor where
  index? := none
  scope := []
  name := "f"
  arguments := [⟨"m", "std.map<str, List[int]>", none, .positionalOrKeyword, ⟨2, 27⟩⟩]
  result? := none
  nameSpan := ⟨0, 1⟩

/-- A word of a token, without blanks before it. -/
def unspaced (token : Token) (text : String) (start : Nat) : Lexeme := ⟨token, [], text.toList, start⟩

/-- The lexemes of `std.map`. -/
def mapHead : List Lexeme := [unspaced .identifier "std" 0, unspaced .dot "." 3, unspaced .identifier "map" 4]

/-- The lexemes of `str, List[int]` where it stands. -/
def mapInner : List Lexeme :=
  [unspaced .identifier "str" 8, unspaced .comma "," 11, ⟨.identifier, [' '], "List".toList, 13⟩,
   unspaced (.opening .square) "[" 17, unspaced .identifier "int" 18, unspaced (.closing .square) "]" 21]

theorem cut_iff_balanced_map :
    Descriptor.parse 3 "f(m:std.map<str, List[int]>)" = .ok mapLine ∧
      ∃ arg ∈ mapLine.arguments, ∃ xs opened closed, ofText arg.typeToken.toList = .ok xs ∧
        Paired 3 .angle xs mapHead opened mapInner closed ∧ Bracket.angle ≠ .round ∧ mapHead ≠ [] ∧
        (∀ c ∈ spelled mapInner ++ closed.gap, Sober c) ∧
        ofToken 3 arg.typeToken = .generic "std.map" ["str", "List[int]"] := by
  have hparse : Descriptor.parse 3 "f(m:std.map<str, List[int]>)" = .ok mapLine := eq_ok_of_toOption (by decide +kernel)
  let opened := unspaced (.opening .angle) "<" 7
  let closed := unspaced (.closing .angle) ">" 22
  obtain ⟨xs, hread, -, hcut⟩ := cut_iff_balanced hparse List.mem_cons_self
  have hxs : ofText "std.map<str, List[int]>".toList = .ok (mapHead ++ opened :: (mapInner ++ [closed])) :=
    eq_ok_of_toOption (by decide +kernel)
  have hpieces : pieces 3 mapInner = .ok [mapInner.take 1, mapInner.drop 2] := eq_ok_of_toOption (by decide +kernel)
  have hpaired : Paired 3 .angle xs mapHead opened mapInner closed :=
    ⟨Except.ok.inj (hread.symm.trans hxs), rfl, rfl, nested_iff_exists_pieces.2 ⟨_, hpieces⟩⟩
  have hsober : ∀ c ∈ spelled mapInner ++ closed.gap, Sober c := by
    have hall : (spelled mapInner ++ closed.gap).all (fun c => c != '"' && c != '\'' && c != '-') = true := by
      decide +kernel
    intro c hc
    simpa [Sober, and_assoc] using List.all_eq_true.1 hall c hc
  obtain ⟨-, -, hbalanced, hinto⟩ := hcut .angle mapHead opened mapInner closed hpaired (by decide) (by decide)
  obtain ⟨-, parts, hparts, hgeneric⟩ := hinto (hbalanced hsober)
  obtain rfl : [mapInner.take 1, mapInner.drop 2] = parts := Except.ok.inj (hpieces.symm.trans hparts)
  refine ⟨hparse, _, List.mem_cons_self, xs, opened, closed, hread, hpaired, by decide, by decide, hsober, ?_⟩
  rw [hgeneric (by decide) (by decide) (by decide +kernel)]
  decide +kernel

/-- What the line `f(x:Foo<a->b>)` says. -/
def arrowLine : Descriptor where
  index? := none
  scope := []
  name := "f"
  arguments := [⟨"x", "Foo<a->b>", none, .positionalOrKeyword, ⟨2, 13⟩⟩]
  result? := none
  nameSpan := ⟨0, 1⟩

/-- The lexemes of `a->b` where it stands. -/
def arrowInner : List Lexeme := [unspaced .identifier "a" 4, unspaced .arrow "->" 5, unspaced .identifier "b" 7]

/-- **An arrow hides the partner of the last bracket**: the parser pairs the last bracket of `Foo<a->b>` with the one
after `Foo`, and what stands inside is one piece. The analysis counts the end of the arrow as a bracket that closes, and
takes the token as a whole. -/
theorem cut_misses_arrow :
    Descriptor.parse 3 "f(x:Foo<a->b>)" = .ok arrowLine ∧
      ∃ arg ∈ arrowLine.arguments, ∃ xs head opened closed, ofText arg.typeToken.toList = .ok xs ∧
        Paired 3 .angle xs head opened arrowInner closed ∧ head ≠ [] ∧ pieces 3 arrowInner = .ok [arrowInner] ∧
        [arrowInner] ≠ [] ∧ [] ∉ [arrowInner] ∧ (runText arrowInner).all Char.isDigit = false ∧
        ¬Balanced .angle (spelled arrowInner ++ closed.gap) ∧ ofToken 3 arg.typeToken = .atom "Foo<a->b>" ∧
        ofToken 3 arg.typeToken ≠ .generic (String.ofList (runText head)) [String.ofList (runText arrowInner)] := by
  have hpieces : pieces 3 arrowInner = .ok [arrowInner] := eq_ok_of_toOption (by decide +kernel)
  have hshape : ofToken 3 "Foo<a->b>" = .atom "Foo<a->b>" := by decide +kernel
  have hpaired : Paired 3 .angle _ [unspaced .identifier "Foo" 0] (unspaced (.opening .angle) "<" 3) arrowInner
      (unspaced (.closing .angle) ">" 8) := ⟨rfl, rfl, rfl, nested_iff_exists_pieces.2 ⟨_, hpieces⟩⟩
  refine ⟨eq_ok_of_toOption (by decide +kernel), _, List.mem_cons_self, _, _, _, _,
    eq_ok_of_toOption (by decide +kernel), hpaired, by decide, hpieces, by decide, by decide, by decide +kernel,
    by decide +kernel, hshape, ?_⟩
  rw [hshape]
  nofun

end TypeShape

end CallSig
