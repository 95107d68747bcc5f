import CallSig.Proofs.Descriptor.Forms
import CallSig.Proofs.Lexeme.Splitting

/-!
# `CallSig.Proofs.Descriptor.Spans` — the places the parser reports

Whoever underlines a part of a line relies on the spans that the parser hands out. They are made of the spans of lexemes
and of the end of the line, by covering, so they end between characters and stay inside the line; this is shown for one
reader after the other. In a line that is accepted, the name and the arguments follow one another, since they are taken
out of the lexemes from left to right. The text at the span of an argument has its words, so it is read as the same
argument wherever a list may stand.

## Contents
- **Places.** `IsBoundary`, `Span.Within`, `Span.Shows`; `Span.Shows.unique`, `Span.Within.cover`, `Span.Within.toEnd`.
- **Readers.** `FailsWithin`, with one lemma for each reader; `parse_within`.
- **Runs.** `runSpan_eq`, `runSpan_pairwise`, `shows_runSpan`.
- **Arguments read again.** `parse_wrapped`.
- **Lines.** `DeclaresOnly`, `Faithful`; `runs`, `spans_descriptor`; `spans_faithful`.
-/

namespace CallSig

open Text

/-! ## Places -/

/-- The byte offset stands between two characters of the text, or at one of its ends. -/
def IsBoundary (cs : List Char) (n : Nat) : Prop := ∃ before after, cs = before ++ after ∧ width before = n

namespace Span

/-- The span lies inside the text, and neither end cuts a character. -/
structure Within (cs : List Char) (span : Span) : Prop where
  le : span.start ≤ span.stop
  bound : span.stop ≤ width cs
  start : IsBoundary cs span.start
  stop : IsBoundary cs span.stop

/-- What stands at the span. -/
def Shows (cs : List Char) (span : Span) (text : List Char) : Prop :=
  ∃ before after, cs = before ++ text ++ after ∧ span = ⟨width before, width (before ++ text)⟩

end Span

variable {cs : List Char}

theorem isBoundary_zero (cs : List Char) : IsBoundary cs 0 := ⟨[], cs, rfl, rfl⟩

theorem isBoundary_width (cs : List Char) : IsBoundary cs (width cs) := ⟨cs, [], (List.append_nil cs).symm, rfl⟩

theorem IsBoundary.le_width {n : Nat} (h : IsBoundary cs n) : n ≤ width cs := by
  obtain ⟨before, after, rfl, rfl⟩ := h
  rw [width_append]
  exact Nat.le_add_right _ _

namespace Span

variable {a b : Span}

theorem within_of_boundaries (hle : a.start ≤ a.stop) (hstart : IsBoundary cs a.start) (hstop : IsBoundary cs a.stop) :
    a.Within cs := ⟨hle, hstop.le_width, hstart, hstop⟩

theorem Shows.within {text : List Char} (h : a.Shows cs text) : a.Within cs := by
  obtain ⟨before, after, rfl, rfl⟩ := h
  apply within_of_boundaries
  · show width before ≤ width (before ++ text)
    rw [width_append]
    exact Nat.le_add_right _ _
  · exact ⟨before, text ++ after, by simp, rfl⟩
  · exact ⟨before ++ text, after, rfl, rfl⟩

theorem width_append_inj {a b a' b' : List Char} (h : a ++ b = a' ++ b') (hw : width a = width a') :
    a = a' ∧ b = b' := by
  rcases List.append_eq_append_iff.1 h with ⟨c, rfl, rfl⟩ | ⟨c, rfl, rfl⟩
  all_goals
    rw [width_append] at hw
    obtain rfl : c = [] := Lexeme.eq_nil_of_width_eq_zero (by omega)
    simp

/-- Only one text stands at a span. -/
theorem Shows.unique {text text' : List Char} (h : a.Shows cs text) (h' : a.Shows cs text') : text = text' := by
  obtain ⟨before, after, hcs, rfl⟩ := h
  obtain ⟨before', after', hcs', hspan⟩ := h'
  obtain ⟨hstart, hstop⟩ := Span.mk.inj hspan
  rw [hcs] at hcs'
  obtain ⟨hfront, -⟩ := width_append_inj hcs' hstop
  exact (width_append_inj hfront hstart).2

theorem within_zero (cs : List Char) : Within cs ⟨0, 0⟩ :=
  within_of_boundaries (Nat.le_refl 0) (isBoundary_zero cs) (isBoundary_zero cs)

theorem within_end (cs : List Char) : Within cs ⟨width cs, width cs⟩ :=
  within_of_boundaries (Nat.le_refl _) (isBoundary_width cs) (isBoundary_width cs)

/-- The rest of the text. -/
theorem Within.toEnd (h : a.Within cs) : Within cs ⟨a.start, width cs⟩ :=
  within_of_boundaries (Nat.le_trans h.le h.bound) h.start (isBoundary_width cs)

/-- **Covering** keeps inside the text: either end is an end of one of the two. -/
theorem Within.cover (ha : a.Within cs) (hb : b.Within cs) : (a.cover b).Within cs := by
  have hle := ha.le
  apply within_of_boundaries
  · show min a.start b.start ≤ max a.stop b.stop
    omega
  · show IsBoundary cs (min a.start b.start)
    by_cases hfirst : a.start ≤ b.start
    · rw [Nat.min_eq_left hfirst]
      exact ha.start
    · rw [Nat.min_eq_right (by omega)]
      exact hb.start
  · show IsBoundary cs (max a.stop b.stop)
    by_cases hlast : a.stop ≤ b.stop
    · rw [Nat.max_eq_right hlast]
      exact hb.stop
    · rw [Nat.max_eq_left (by omega)]
      exact ha.stop

end Span

/-! ## Readers -/

/-- What goes wrong goes wrong inside the text. -/
def FailsWithin {α : Type} (cs : List Char) (r : Except ParseError α) : Prop :=
  ∀ e, r = .error e → e.span.Within cs

namespace FailsWithin

variable {α β : Type}

theorem ok (a : α) : FailsWithin cs (.ok a) := by
  intro e he
  cases he

theorem error {e : ParseError} (h : e.span.Within cs) : FailsWithin cs (.error e : Except ParseError α) := by
  rintro _ ⟨⟩
  exact h

theorem map {r : Except ParseError α} (h : FailsWithin cs r) (f : α → β) : FailsWithin cs (r.map f) := by
  intro e he
  cases r with
  | error e' => exact h e (by cases he; rfl)
  | ok a => cases he

theorem bind {r : Except ParseError α} {f : α → Except ParseError β} (h : FailsWithin cs r)
    (hf : ∀ a, r = .ok a → FailsWithin cs (f a)) : FailsWithin cs (r >>= f) := by
  intro e he
  cases r with
  | error e' => exact h e (by cases he; rfl)
  | ok a => exact hf a rfl e he

end FailsWithin

namespace Lexeme

/-- The lexemes stand inside the text. -/
def Placed (cs : List Char) (xs : List Lexeme) : Prop := ∀ x ∈ xs, x.span.Within cs

theorem Tiled.placed_within {front after : List Char} {xs : List Lexeme} (h : Tiled after 0 front xs) :
    Placed (front ++ after) xs := by
  intro x hx
  obtain ⟨before, rest, htext, hspan, -⟩ := h.placed [] rfl x hx
  have htext : front = before ++ x.text ++ rest := htext
  have hshows : x.span.Shows (front ++ after) x.text := ⟨before, rest ++ after, by simp [htext], hspan⟩
  exact hshows.within

theorem placed_of_ofText {xs : List Lexeme} (h : ofText cs = .ok xs) : Placed cs xs := by
  have hplaced := (scan_eq_ok_iff.1 h).placed_within
  rwa [List.append_nil] at hplaced

/-- A character that begins no token stands inside the text, and so does a string literal without an end. -/
theorem errorAt_within (front : List Char) (c : Char) (back : List Char) :
    (errorAt (width front) c back).span.Within (front ++ c :: back) := by
  have hstart : IsBoundary (front ++ c :: back) (width front) := ⟨front, c :: back, rfl, rfl⟩
  unfold errorAt
  split
  · apply Span.within_of_boundaries (Nat.le_add_right _ _) hstart
    rw [← width_append]
    exact isBoundary_width _
  · apply Span.within_of_boundaries (Nat.le_add_right _ _) hstart
    exact ⟨front ++ [c], back, by simp, by simp⟩

theorem ofText_within (cs : List Char) : FailsWithin cs (ofText cs) := by
  intro e he
  obtain ⟨front, after, rfl, -, hstop⟩ := tiled_recorded 0 cs
  rw [recorded_of_error he] at hstop
  obtain ⟨c, back, rfl, -, -, rfl⟩ := hstop
  rw [Nat.zero_add]
  exact errorAt_within front c back

variable {xs : List Lexeme}

theorem placed_runSpan {first : Lexeme} (h : Placed cs (first :: xs)) : (runSpan first xs).Within cs :=
  (h first List.mem_cons_self).cover (h _ List.getLastD_mem_cons)

/-- A fault in the nesting is reported at a bracket. -/
theorem cut_within (limit : Nat) {opened : List (Bracket × Span)} (ho : ∀ bracket ∈ opened, bracket.2.Within cs)
    (h : Placed cs xs) : FailsWithin cs (cut limit opened xs) := by
  fun_induction cut limit opened xs with
  | case1 => exact .ok _
  | case2 b span outer => exact .error (ho _ List.mem_cons_self)
  | case3 | case6 | case7 => exact .error (h _ List.mem_cons_self)
  | case4 opened x xs b hx hlimit ih =>
    obtain ⟨hfirst, hrest⟩ := List.forall_mem_cons.1 h
    exact (ih (List.forall_mem_cons.2 ⟨hfirst, ho⟩) hrest).map _
  | case5 x xs b outer _ _ ih =>
    exact (ih (List.forall_mem_cons.1 ho).2 (List.forall_mem_cons.1 h).2).map _
  | case8 x xs hx ih => exact (ih ho (List.forall_mem_cons.1 h).2).map _
  | case9 opened x xs hx hne ih => exact (ih ho (List.forall_mem_cons.1 h).2).map _
  | case10 opened x xs _ _ _ ih => exact (ih ho (List.forall_mem_cons.1 h).2).map _

theorem pieces_within (limit : Nat) (h : Placed cs xs) : FailsWithin cs (pieces limit xs) := by
  unfold pieces
  split
  · exact .ok _
  · exact (cut_within limit (List.forall_mem_nil _) h).map _

end Lexeme

namespace Descriptor

open Lexeme

variable {xs : List Lexeme}

theorem readIndex_within (h : Placed cs xs) : FailsWithin cs (readIndex xs) := by
  unfold readIndex
  split
  · split
    · split
      · exact .ok _
      · exact .error (h _ List.mem_cons_self)
    · exact .ok _
  · exact .ok _

theorem expect_within (token : Token) (h : Placed cs xs) : FailsWithin cs (expect (width cs) token xs) := by
  unfold expect
  split
  · exact .error (Span.within_end cs)
  · split
    · exact .ok _
    · exact .error (h _ List.mem_cons_self)

theorem readSegments_within (h : Placed cs xs) : FailsWithin cs (readSegments (width cs) xs) := by
  fun_induction readSegments (width cs) xs with
  | case1 | case3 | case6 => exact .ok _
  | case2 => exact .error (Span.within_end cs)
  | case4 x y rest hdot hname ih =>
    have hrest := (List.forall_mem_cons.1 (List.forall_mem_cons.1 h).2).2
    exact (ih hrest).map _
  | case5 x y rest =>
    have hrest := (List.forall_mem_cons.1 h).2
    exact .error (hrest y List.mem_cons_self)

theorem readName_within (h : Placed cs xs) : FailsWithin cs (readName (width cs) xs) := by
  unfold readName
  refine (expect_within .identifier h).bind ?_
  rintro ⟨first, rest⟩ hfirst
  obtain ⟨rfl, -⟩ := of_expect hfirst
  exact (readSegments_within (List.forall_mem_cons.1 h).2).bind fun _ _ => .ok _

theorem readTyped_within (kind : ParamKind) (name : List Char) {span : Span} (h : span.Within cs)
    (body : List Lexeme) : FailsWithin cs (readTyped kind name span body) := by
  -- every fault of an argument is reported for the whole argument
  unfold readTyped
  dsimp only
  repeat' split
  all_goals first | exact .ok _ | exact .error h

theorem readArgument_within (kind : ParamKind) {first : Lexeme} (h : Placed cs (first :: xs)) :
    FailsWithin cs (readArgument kind first xs) := by
  have hspan := placed_runSpan h
  unfold readArgument
  dsimp only
  split
  · exact .error (h first List.mem_cons_self)
  · split
    · exact .error hspan
    · next x body =>
      split
      · exact .error (h x (List.mem_cons_of_mem _ List.mem_cons_self))
      · exact readTyped_within kind first.text hspan body

theorem add_within (s : ItemState) {first : Lexeme} (h : Placed cs (first :: xs)) :
    FailsWithin cs (s.add first xs) := by
  have hfirst := h first List.mem_cons_self
  unfold ItemState.add
  split
  · split
    · exact .error hfirst
    · exact .ok _
  · split
    · split
      · exact .error hfirst
      · exact .ok _
    · exact (readArgument_within _ h).map _

theorem addAll_within {anchor : Span} (ha : anchor.Within cs) (s : ItemState) {items : List (List Lexeme)}
    (h : ∀ item ∈ items, Placed cs item) : FailsWithin cs (s.addAll anchor items) := by
  induction items generalizing s with
  | nil => exact .ok _
  | cons item items ih =>
    obtain ⟨hitem, hitems⟩ := List.forall_mem_cons.1 h
    cases item with
    | nil => exact .error ha
    | cons first rest =>
      have hadd := add_within s hitem
      unfold ItemState.addAll
      split
      · exact ih _ hitems
      · next e he => exact .error (hadd e he)

theorem readArguments_within (limit : Nat) (h : Placed cs xs) : FailsWithin cs (readArguments limit xs) := by
  have hanchor : ((xs.head?.map Lexeme.span).getD ⟨0, 0⟩).Within cs := by
    cases xs with
    | nil => exact Span.within_zero cs
    | cons x xs => exact h x List.mem_cons_self
  refine (pieces_within limit h).bind fun items hitems => ?_
  have hplaced : ∀ item ∈ items, Placed cs item := by
    intro item hitem x hx
    exact h x ((pieces_sublist hitems item hitem).subset hx)
  exact (addAll_within hanchor _ hplaced).bind fun _ _ => .ok _

theorem readResult_within (h : Placed cs xs) : FailsWithin cs (readResult (width cs) xs) := by
  unfold readResult
  split
  · exact .ok _
  · next x rest =>
    split
    · split
      · exact .error (Span.within_end cs)
      · exact .ok _
    · exact .error (h x List.mem_cons_self).toEnd

theorem mem_of_readName {stop : Nat} {first : Lexeme} {more rest : List Lexeme}
    (h : readName stop xs = .ok (first, more, rest)) : rest ⊆ xs := by
  obtain ⟨⟨first', xs'⟩, hfirst, h⟩ := eq_ok_of_bind_eq_ok h
  obtain ⟨⟨more', rest'⟩, hmore, h⟩ := eq_ok_of_bind_eq_ok h
  cases h
  obtain ⟨rfl, -⟩ := of_expect hfirst
  obtain ⟨names, rfl, -⟩ := Grammar.exists_dotted hmore
  intro x hx
  exact List.mem_cons_of_mem _ (List.mem_append_right _ hx)

/-- **What is wrong with a line** is reported inside it. -/
theorem parse_within (depth : Nat) (line : String) : FailsWithin line.toList (parse depth line) := by
  unfold parse
  refine (ofText_within _).bind fun xs hxs => ?_
  have hplaced := placed_of_ofText hxs
  refine (readIndex_within hplaced).bind ?_
  rintro ⟨index?, xs₁⟩ hindex
  have hplaced₁ : Placed line.toList xs₁ := fun x hx => hplaced x (mem_of_readIndex hindex hx)
  refine (readName_within hplaced₁).bind ?_
  rintro ⟨first, more, xs₂⟩ hname
  have hplaced₂ : Placed line.toList xs₂ := fun x hx => hplaced₁ x (mem_of_readName hname hx)
  refine (expect_within _ hplaced₂).bind ?_
  rintro ⟨opened, xs₃⟩ hopened
  obtain ⟨rfl, -⟩ := of_expect hopened
  dsimp only
  split
  · next found hclose =>
    obtain ⟨inner, xs₄⟩ := found
    obtain ⟨closed, rfl, -⟩ := Grammar.exists_closed hclose
    obtain ⟨-, hrest⟩ := List.forall_mem_cons.1 hplaced₂
    obtain ⟨hinner, hback⟩ := List.forall_mem_append.1 hrest
    have hxs₄ : Placed line.toList xs₄ := (List.forall_mem_cons.1 hback).2
    refine (readArguments_within _ hinner).bind fun arguments _ => ?_
    exact (readResult_within hxs₄).bind fun _ _ => .ok _
  · exact .error (hplaced₂ opened List.mem_cons_self)

end Descriptor

/-! ## Runs -/

namespace Lexeme

variable {xs : List Lexeme}

/-- A run of lexemes in order reaches from its first one to its last one. -/
theorem runSpan_eq {first : Lexeme} (hordered : (first :: xs).Pairwise fun x y => x.span.stop ≤ y.span.start)
    (hnonempty : ∀ x ∈ first :: xs, x.span.start < x.span.stop) :
    runSpan first xs = ⟨first.span.start, (xs.getLastD first).span.stop⟩ := by
  have hends : first.span.start ≤ (xs.getLastD first).span.start ∧
      first.span.stop ≤ (xs.getLastD first).span.stop := by
    have hfirst := hnonempty first List.mem_cons_self
    have hlast := hnonempty _ List.getLastD_mem_cons
    rcases List.mem_cons.1 (List.getLastD_mem_cons (a := first) (l := xs)) with heq | hmem
    · rw [heq]
      exact ⟨Nat.le_refl _, Nat.le_refl _⟩
    · have hle := List.rel_of_pairwise_cons hordered hmem
      omega
  unfold runSpan Span.cover
  rw [Nat.min_eq_left hends.1, Nat.max_eq_right hends.2]

/-- **Runs that are found one after the other** do not overlap. -/
theorem runSpan_pairwise {after : List Char} {start : Nat} (h : Tiled after start cs xs)
    {runs : List (Lexeme × List Lexeme)} (hruns : (runs.map fun run => run.1 :: run.2).flatten.Sublist xs) :
    (runs.map fun run => runSpan run.1 run.2).Pairwise fun a b => a.stop ≤ b.start := by
  have hordered : xs.Pairwise fun x y => x.span.stop ≤ y.span.start := h.ordered.imp fun hxy => hxy.2
  obtain ⟨hinside, hacross⟩ := List.pairwise_flatten.1 (hordered.sublist hruns)
  have hends : ∀ run ∈ runs, runSpan run.1 run.2 = ⟨run.1.span.start, (run.2.getLastD run.1).span.stop⟩ := by
    intro run hrun
    have hmem : run.1 :: run.2 ∈ runs.map fun run => run.1 :: run.2 := List.mem_map_of_mem hrun
    apply runSpan_eq (hinside _ hmem)
    intro x hx
    exact h.nonempty x (hruns.subset (List.mem_flatten_of_mem hmem hx))
  rw [List.pairwise_map] at hacross ⊢
  refine hacross.imp_of_mem fun {a b} ha hb hab => ?_
  rw [hends a ha, hends b hb]
  exact hab _ List.getLastD_mem_cons _ List.mem_cons_self

theorem runSpan_eq_of_sublist {after : List Char} {start : Nat} (h : Tiled after start cs xs) {first : Lexeme}
    {rest : List Lexeme} (hrun : (first :: rest).Sublist xs) :
    runSpan first rest = ⟨first.span.start, (rest.getLastD first).span.stop⟩ := by
  apply runSpan_eq
  · exact (h.ordered.sublist hrun).imp fun hxy => hxy.2
  · intro x hx
    exact h.nonempty x (hrun.subset hx)

/-- The text of a run stands at its span. -/
theorem shows_runSpan (h : Tiled [] 0 cs xs) {first : Lexeme} {rest : List Lexeme} (hrun : first :: rest <:+: xs) :
    (runSpan first rest).Shows cs (runText (first :: rest)) := by
  obtain ⟨before, after, htext, hstart, hstop⟩ := sourceText_of_infix h hrun
  refine ⟨before, after, htext, ?_⟩
  rw [hstart, hstop]
  exact runSpan_eq_of_sublist h hrun.sublist

end Lexeme

/-! ## Arguments read again -/

namespace Grammar

open Lexeme Descriptor Word

/-- An argument of some line, between the round brackets of another one. -/
theorem parse_wrapped {depth : Nat} {form : ArgumentForm} (hw : form.WellFormed (parserDepth depth))
    (hn : Nested NoComma (parserDepth depth) form.lexemes) (hf : FromText form.lexemes) :
    ∃ form' d, form.Alike form' ∧ parse depth ("f(" ++ String.ofList (runText form.lexemes) ++ ")") = .ok d ∧
      d.arguments = [form'.argument .positionalOrKeyword] := by
  -- the words of the new line: the closing bracket stops whatever the argument ends with
  have hclosing : Reads [sign (.closing .round) ')'] [] := ⟨reads_sign _ (by decide) fun _ => rfl, trivial⟩
  have hinner : Reads (bare form.lexemes ++ [sign (.closing .round) ')']) [] :=
    reads_append (hf.reads_bare.before_stops (stops_cons (by decide) [])) hclosing
  have hreads : Reads (name ['f'] :: sign (.opening .round) '(' ::
      (bare form.lexemes ++ [sign (.closing .round) ')'])) [] :=
    ⟨reads_name (by decide) (stops_cons (c := '(') (by decide) _).endsName, reads_sign _ (by decide) fun _ => rfl, hinner⟩
  obtain ⟨zs, hzs, hwords⟩ := ofText_spelled hreads
  -- the lexemes that are read have these words
  obtain ⟨first, zs, rfl, hfirst, hwords⟩ := List.map_eq_cons_iff.1 hwords
  obtain ⟨opened, zs, rfl, hopened, hwords⟩ := List.map_eq_cons_iff.1 hwords
  obtain ⟨ys, zs, rfl, hys, hwords⟩ := List.map_eq_append_iff.1 hwords
  obtain ⟨closed, zs, rfl, hclosed, hwords⟩ := List.map_eq_cons_iff.1 hwords
  obtain rfl := List.map_eq_nil_iff.1 hwords
  obtain ⟨form', rfl, halike⟩ := ArgumentForm.exists_alike hys
  have htokens : form'.lexemes.map Lexeme.token = form.lexemes.map Lexeme.token := by
    rw [← token_bare form.lexemes, ← hys, List.map_map]
    rfl
  have hline : ofText ("f(" ++ String.ofList (runText form.lexemes) ++ ")").toList =
      .ok (first :: opened :: (form'.lexemes ++ [closed])) := by
    simpa [Word.spelled_append, spelled_bare, Word.name, sign] using hzs
  let line : Line := ⟨none, first, [], opened, form'.lexemes, [.argument form'], closed, none⟩
  have hwell : line.WellFormed (parserDepth depth) :=
    { index := isIndex_none
      first := congrArg Word.token hfirst
      more := areDotted_nil
      opened := congrArg Word.token hopened
      list := .inr (.last (hn.congr htokens))
      items := List.forall_mem_singleton.2 (halike.wellFormed hw)
      markers := fitAfter_nil_iff.1 ⟨trivial, trivial⟩
      closed := congrArg Word.token hclosed
      result := isResult_none }
  exact ⟨form', _, halike, parse_lexemes (g := line) hline hwell, rfl⟩

end Grammar

/-! ## Lines -/

namespace Descriptor

open Lexeme Grammar

/-- The line declares this argument and no other one; the kind is the same if the argument is variadic. -/
def DeclaresOnly (depth : Nat) (line : String) (arg : Argument) : Prop :=
  ∃ d arg', parse depth line = .ok d ∧ d.arguments = [arg'] ∧ arg'.name = arg.name ∧
    arg'.typeToken = arg.typeToken ∧ arg'.default? = arg.default? ∧
    (arg.kind.isVariadic = true → arg'.kind = arg.kind)

/-- The spans of an accepted line. -/
structure Faithful (depth : Nat) (line : String) (d : Descriptor) : Prop where
  within : ∀ span ∈ d.nameSpan :: d.arguments.map Argument.span, span.Within line.toList
  /-- The spans follow one another and do not overlap. -/
  ordered : (d.nameSpan :: d.arguments.map Argument.span).Pairwise fun a b => a.stop ≤ b.start
  /-- What stands at the span of an argument is read as this argument between other round brackets. -/
  again : ∀ arg ∈ d.arguments, ∃ text, arg.span.Shows line.toList text ∧
    DeclaresOnly depth ("f(" ++ String.ofList text ++ ")") arg

/-- What a derivation declares is declared by its text alone. -/
theorem declaresOnly_wrapped {depth : Nat} {form : ArgumentForm} {arg : Argument} (hd : DeclaredBy arg form)
    (hw : form.WellFormed (parserDepth depth)) (hn : Nested NoComma (parserDepth depth) form.lexemes)
    (hf : FromText form.lexemes) : DeclaresOnly depth ("f(" ++ String.ofList (runText form.lexemes) ++ ")") arg := by
  obtain ⟨star, slash, rfl⟩ := hd
  obtain ⟨form', d, halike, hparse, harguments⟩ := parse_wrapped hw hn hf
  obtain ⟨hname, htype, hdefault, hkind⟩ := form.content_argument .positionalOrKeyword (kindAt star slash)
  have hcontent := halike.content_eq .positionalOrKeyword
  obtain ⟨hname', htype', hdefault', hkind'⟩ :
      _ = (form.argument .positionalOrKeyword).name ∧ _ = (form.argument .positionalOrKeyword).typeToken ∧
      _ = (form.argument .positionalOrKeyword).default? ∧ _ = (form.argument .positionalOrKeyword).kind := by
    simpa [Argument.content] using hcontent
  refine ⟨d, _, hparse, harguments, hname'.trans hname, htype'.trans htype, hdefault'.trans hdefault, ?_⟩
  intro hvariadic
  exact hkind'.trans (hkind (ArgumentForm.variadic_of_isVariadic hvariadic))

theorem dotted_names_sublist (more : List (Lexeme × Lexeme)) : (more.map Prod.snd).Sublist (dotted more) := by
  induction more with
  | nil => exact .slnil
  | cons found more ih => exact (ih.cons_cons found.2).cons found.1

/-- The name and the arguments of a line, each with its first lexeme. -/
def runs (g : Line) : List (Lexeme × List Lexeme) :=
  (g.first, g.more.map Prod.snd) ::
    (forms g.items).map fun form => (form.name, form.colon :: (form.type ++ marked form.default?))

/-- They are found in the line one after the other. -/
theorem runs_sublist {depth : Nat} {g : Line} (h : g.WellFormed depth) :
    ((runs g).map fun run => run.1 :: run.2).flatten.Sublist g.lexemes := by
  have hruns : ((runs g).map fun run => run.1 :: run.2).flatten =
      g.first :: (g.more.map Prod.snd ++ ((forms g.items).map ArgumentForm.lexemes).flatten) := by
    unfold runs
    rw [List.map_cons, List.map_map]
    rfl
  have harguments : ((forms g.items).map ArgumentForm.lexemes).flatten.Sublist
      (g.opened :: (g.inner ++ g.closed :: marked g.result?)) :=
    ((flatten_forms_sublist h.list).trans (List.sublist_append_left _ _)).cons _
  rw [hruns]
  exact (((dotted_names_sublist g.more).append harguments).cons_cons g.first).trans (List.sublist_append_right _ _)

/-- The spans of a line are those of its name and its arguments. -/
theorem spans_descriptor (g : Line) :
    g.descriptor.nameSpan :: g.descriptor.arguments.map Argument.span =
      (runs g).map fun run => runSpan run.1 run.2 := by
  have harguments : g.descriptor.arguments.map Argument.span = (forms g.items).map ArgumentForm.span := by
    refine map_eq_of_declared ?_ false g.items
    rintro _ form ⟨star, slash, rfl⟩
    exact span_argument _ form
  unfold runs
  rw [harguments, List.map_cons, List.map_map]
  rfl

theorem faithful_of_line {depth : Nat} {line : String} {g : Line} (hline : ofText line.toList = .ok g.lexemes)
    (h : g.WellFormed (parserDepth depth)) : Faithful depth line g.descriptor := by
  have htiled := scan_eq_ok_iff.1 hline
  have hplaced := placed_of_ofText hline
  refine ⟨?_, ?_, ?_⟩
  · rw [spans_descriptor]
    intro span hspan
    obtain ⟨run, hrun, rfl⟩ := List.mem_map.1 hspan
    apply placed_runSpan
    intro x hx
    have hmem : run.1 :: run.2 ∈ (runs g).map fun run => run.1 :: run.2 := List.mem_map_of_mem hrun
    exact hplaced x ((runs_sublist h).subset (List.mem_flatten_of_mem hmem hx))
  · rw [spans_descriptor]
    exact runSpan_pairwise htiled (runs_sublist h)
  · intro arg harg
    obtain ⟨form, hform, hdeclared⟩ := exists_declared harg
    obtain ⟨hnested, hinfix⟩ := run_of_mem_forms h hform
    have hwell : form.WellFormed (parserDepth depth) := h.items _ (mem_forms.1 hform)
    have hfrom : FromText form.lexemes := FromText.infix (fromText_of_ofText hline) hinfix
    refine ⟨runText form.lexemes, ?_, declaresOnly_wrapped hdeclared hwell hnested hfrom⟩
    obtain ⟨star, slash, rfl⟩ := hdeclared
    rw [span_argument]
    exact shows_runSpan htiled hinfix

/-- **The spans of a line are faithful.** In a line that is accepted, the spans of the name and of the arguments end
between characters, follow one another without an overlap, and the text at the span of an argument declares this argument
between other round brackets. In a line that is refused, the span of the fault ends between characters of the line. -/
theorem spans_faithful (depth : Nat) (line : String) :
    match parse depth line with
    | .ok d => Faithful depth line d
    | .error e => e.span.Within line.toList := by
  cases h : parse depth line with
  | error e => exact parse_within depth line e h
  | ok d =>
    obtain ⟨g, hline, hw⟩ := exists_line h
    rw [parse_lexemes hline hw] at h
    cases h
    exact faithful_of_line hline hw

end Descriptor
end CallSig
