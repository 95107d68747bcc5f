import CallSig.Proofs.Lexeme.Depth
import CallSig.Proofs.Lexeme.Literals
import CallSig.Proofs.Rendering.Line

/-!
# `CallSig.Proofs.Rendering.Pieces` — how types and values are cut again

A rendering writes types and values with brackets and commas of its own: arrays are tuples, a parameter that may be
`None` has one more bracket around its type. Written out, each of them is one piece, from as many open brackets on as
its spelling nests. This holds without a condition of paths, literals and values; of types it holds if the tokens without
a host type are quotable, since types show them between quotes without escaping anything.

## Contents
- **Pieces.** `Piece`, `Piece.applied`, `Piece.comma`; `piece_ink`, `piece_quote`, `piece_quotable`, `piece_empty`.
- **Standing alone.** `StandsAlone`, `Piece.standsAlone`.
- **Types.** `Dotted`, `TypeExpr.Tidy`, `TypeExpr.nesting`, `TypeExpr.unmappedTokens`, `piece_text`.
- **Values.** `isInk_floatText`; `Value.Tidy`, `Value.nesting`, `Value.unmappedTokens`, `piece_value`.
-/

namespace CallSig

open Descriptor (splitDefault)
open Word

/-! ## Pieces -/

/-- Every token but a comma and an equals sign. -/
def NoMark (token : Token) : Prop := Lexeme.NoComma token ∧ Lexeme.NoEqual token

/-- The text is made of words, at least one and the first without a blank before it, that nest exactly so deep, with
tokens of one kind only outside brackets, and that are read as they are before anything that stops a name. -/
def Piece (outer : Token → Prop) (n : Nat) (cs : List Char) : Prop :=
  ∃ w ws, spelled (w :: ws) = cs ∧ w.gap = [] ∧ Lexeme.Nests outer n ((w :: ws).map Word.token) ∧
    ∀ rest, Stops rest → Reads (w :: ws) rest

theorem nests_of_isInert {ws : List Word} (h : ∀ w ∈ ws, w.token.isInert = true) :
    Lexeme.Nests NoMark 0 (ws.map Word.token) := by
  refine .of_plain fun t ht => ?_
  obtain ⟨w, hw, rfl⟩ := List.mem_map.1 ht
  have hinert := h w hw
  refine ⟨fun b => ⟨?_, ?_⟩, ?_, ?_⟩ <;>
  · intro heq
    rw [heq] at hinert
    cases hinert

/-- A text of names and numbers. -/
theorem piece_ink {cs : List Char} (hne : cs ≠ []) (h : ∀ c ∈ cs, IsInk c) : Piece NoMark 0 cs := by
  obtain ⟨ws, rfl, hws, hreads⟩ := exists_reads_ink h
  cases ws with
  | nil => exact absurd rfl hne
  | cons w ws => exact ⟨w, ws, rfl, (hws w List.mem_cons_self).1, nests_of_isInert fun w hw => (hws w hw).2, hreads⟩

/-- A quoted text. -/
theorem piece_quote (cs : List Char) : Piece NoMark 0 (Text.quote cs) := by
  refine ⟨⟨[], .stringLiteral, Text.quote cs⟩, [], by simp, rfl, nests_of_isInert ?_, fun rest _ => ?_⟩
  · exact List.forall_mem_singleton.2 rfl
  · exact ⟨reads_quote cs _, trivial⟩

/-- An unmapped token between single quotes. -/
theorem piece_quotable {token : String} (h : Quotable token = true) :
    Piece NoMark 0 ('\'' :: (token.toList ++ ['\''])) := by
  obtain ⟨ws, hspelled, hinert, hreads⟩ := exists_reads_quotable h
  obtain ⟨w, ws, rfl⟩ : ∃ w ws', ws = w :: ws' := by
    cases ws with
    | nil => cases hspelled
    | cons w ws => exact ⟨w, ws, rfl⟩
  refine ⟨w, ws, hspelled, ?_, nests_of_isInert hinert, fun rest _ => hreads rest⟩
  -- a blank before the first word would be the first character of the text
  cases hgap : w.gap with
  | nil => rfl
  | cons c gap =>
    rw [spelled_cons, hgap] at hspelled
    obtain ⟨rfl, -⟩ := List.cons.inj hspelled
    have hblank := (hreads []).1.blank
    rw [hgap] at hblank
    exact absurd (hblank _ List.mem_cons_self) (by decide)

theorem Piece.weaken {outer outer' : Token → Prop} {n : Nat} {cs : List Char} (h : Piece outer n cs)
    (ho : ∀ token, outer token → outer' token) : Piece outer' n cs := by
  obtain ⟨w, ws, hcs, hgap, hnests, hreads⟩ := h
  exact ⟨w, ws, hcs, hgap, hnests.weaken ho, hreads⟩

theorem reads_opener (b : Bracket) (rest : List Char) : (sign (.opening b) b.opener).ReadsBefore rest := by
  cases b <;> exact reads_sign rest (by decide) fun _ => rfl

theorem reads_closer (b : Bracket) (rest : List Char) : (sign (.closing b) b.closer).ReadsBefore rest := by
  cases b <;> exact reads_sign rest (by decide) fun _ => rfl

/-- Two brackets with nothing between them. -/
theorem piece_empty (b : Bracket) : Piece NoMark 1 [b.opener, b.closer] := by
  refine ⟨sign (.opening b) b.opener, [sign (.closing b) b.closer], rfl, rfl, ?_, fun rest _ => ?_⟩
  · exact .bracketed b .nil .nil
  · exact ⟨reads_opener b _, reads_closer b _, trivial⟩

/-- A piece in brackets behind a name. -/
theorem Piece.applied {outer : Token → Prop} {n : Nat} {cs : List Char} (h : Piece outer n cs) {name : List Char}
    (hne : name ≠ []) (hname : ∀ c ∈ name, IsInk c) {b : Bracket} (hb : b ≠ .angle) :
    Piece NoMark (n + 1) (name ++ b.opener :: (cs ++ [b.closer])) := by
  obtain ⟨w, ws, rfl, hgap, hnests, hreads⟩ := h
  obtain ⟨v, vs, rfl, hgap', hnests', hreads'⟩ := piece_ink hne hname
  have hstops : b.opener ∈ stops ∧ b.closer ∈ stops := by
    cases b with
    | round | square => decide
    | angle => exact absurd rfl hb
  refine ⟨v, vs ++ sign (.opening b) b.opener :: (w :: ws ++ [sign (.closing b) b.closer]), ?_, hgap', ?_,
    fun rest _ => ?_⟩
  · simp [sign]
  · have hinner : Lexeme.Nests NoMark (max (n + 1) 0)
        (.opening b :: ((w :: ws).map Word.token ++ .closing b :: [])) :=
      .bracketed b (hnests.weaken fun _ _ => trivial) .nil
    have hall := hnests'.append hinner
    rw [Nat.zero_max, Nat.max_zero] at hall
    simpa [sign] using hall
  · rw [← List.cons_append]
    refine reads_append (hreads' _ ?_) ⟨reads_opener b _, ?_⟩
    · exact stops_cons hstops.1 _
    · refine reads_append (hreads _ ?_) ⟨reads_closer b _, trivial⟩
      exact stops_cons hstops.2 _

/-- Two pieces with a comma and a blank between them. -/
theorem Piece.comma {outer outer' : Token → Prop} {n n' : Nat} {cs cs' : List Char} (h : Piece outer n cs)
    (h' : Piece outer' n' cs') : Piece (fun _ => True) (max n n') (cs ++ ',' :: ' ' :: cs') := by
  obtain ⟨w, ws, rfl, hgap, hnests, hreads⟩ := h
  obtain ⟨w', ws', rfl, hgap', hnests', hreads'⟩ := h'
  -- the blank belongs to the word after it
  let spaced : Word := { w' with gap := [' '] }
  refine ⟨w, ws ++ sign .comma ',' :: spaced :: ws', ?_, hgap, ?_, fun rest hr => ?_⟩
  · simp [sign, spaced, hgap']
  · have hcomma : Lexeme.Nests (fun _ => True) n' (.comma :: (w' :: ws').map Word.token) :=
      .plain (Lexeme.noBracket (by decide)) trivial (hnests'.weaken fun _ _ => trivial)
    simpa [sign, spaced] using (hnests.weaken fun _ _ => trivial).append hcomma
  · obtain ⟨hfirst, hothers⟩ := hreads' rest hr
    have hspaced : spaced.ReadsBefore (spelled ws' ++ rest) :=
      ⟨List.forall_mem_singleton.2 (by decide), hfirst.read⟩
    rw [← List.cons_append]
    refine reads_append (hreads _ (stops_cons (by decide) _)) ⟨?_, hspaced, hothers⟩
    exact reads_sign _ (by decide) fun _ => rfl

/-! ## Standing alone -/

/-- The text is read as lexemes without an equals sign outside brackets, and it is one piece from this depth on, and
from no smaller one. -/
structure StandsAlone (n : Nat) (cs : List Char) : Prop where
  lexes : ∃ xs, Lexeme.ofText cs = .ok xs ∧ splitDefault 0 xs = (xs, none)
  single : ∀ limit, Lexeme.splitText limit cs = .ok [cs] ↔ n ≤ limit

/-- The lexemes of a text whose first word has no blank before it. -/
theorem splitText_iff {w : Word} {ws : List Word} {n : Nat} (hgap : w.gap = []) {outer : Token → Prop}
    (hnests : Lexeme.Nests outer n ((w :: ws).map Word.token)) (ho : ∀ token, outer token → Lexeme.NoComma token)
    {xs : List Lexeme} (hxs : Lexeme.ofText (spelled (w :: ws)) = .ok xs) (hwords : xs.map Lexeme.word = w :: ws)
    (limit : Nat) : Lexeme.splitText limit (spelled (w :: ws)) = .ok [spelled (w :: ws)] ↔ n ≤ limit := by
  have htokens : xs.map Lexeme.token = (w :: ws).map Word.token := by
    rw [← hwords, List.map_map]
    rfl
  obtain ⟨x, rest, rfl, hx, -⟩ := List.map_eq_cons_iff.1 hwords
  have hrun : Lexeme.runText (x :: rest) = spelled (w :: ws) := by
    rw [Descriptor.runText_eq_spelled (by rw [← hgap, ← hx]; rfl), hwords]
  rw [← htokens] at hnests
  rw [← hnests.pieces_iff (List.cons_ne_nil x rest) ho]
  have hsplit : Lexeme.splitText limit (spelled (w :: ws)) =
      (Lexeme.pieces limit (x :: rest)).map fun parts => parts.map Lexeme.runText := by
    unfold Lexeme.splitText
    rw [hxs]
    rfl
  rw [hsplit]
  constructor
  · intro h
    obtain ⟨parts, hparts, hmap⟩ := Lexeme.eq_ok_of_map_eq_ok h
    obtain ⟨part, rfl, -⟩ := List.map_eq_singleton_iff.1 hmap
    obtain ⟨rfl, -⟩ := Lexeme.of_pieces_singleton hparts
    exact hparts
  · intro h
    rw [h, ← hrun]
    rfl

theorem Piece.standsAlone {n : Nat} {cs : List Char} (h : Piece NoMark n cs) : StandsAlone n cs := by
  obtain ⟨w, ws, rfl, hgap, hnests, hreads⟩ := h
  obtain ⟨xs, hxs, hwords⟩ := Lexeme.ofText_spelled (hreads [] stops_nil)
  have htokens : xs.map Lexeme.token = (w :: ws).map Word.token := by
    rw [← hwords, List.map_map]
    rfl
  refine ⟨⟨xs, hxs, ?_⟩, splitText_iff hgap hnests (fun _ ho => ho.1) hxs hwords⟩
  exact Lexeme.Nests.splitDefault_eq (htokens ▸ hnests) fun _ ho => ho.2

/-! ## Types -/

theorem IsName.ne_nil {cs : List Char} (h : IsName cs) : cs ≠ [] := by
  obtain ⟨c, more, rfl, -⟩ := h
  exact List.cons_ne_nil c more

theorem isInk_of_isName {cs : List Char} (h : IsName cs) : ∀ c ∈ cs, IsInk c := by
  obtain ⟨c, more, rfl, hc, hmore⟩ := h
  exact List.forall_mem_cons.2 ⟨.inl (isNamePart_of_isNameStart hc), fun d hd => .inl (hmore d hd)⟩

/-- A name. -/
theorem piece_name {s : String} (h : IsName s.toList) : Piece NoMark 0 s.toList :=
  piece_ink h.ne_nil (isInk_of_isName h)

/-- The path is made of identifiers with dots between them. -/
def Dotted (path : String) : Prop := ∀ segment ∈ Text.cutAt '.' path.toList, IsName segment

namespace Dotted

variable {path : String}

theorem isInk (h : Dotted path) : ∀ c ∈ path.toList, IsInk c := by
  intro c hc
  by_cases hdot : c = '.'
  · exact .inr (by simp [hdot])
  · obtain ⟨segment, hsegment, hmem⟩ : ∃ segment ∈ Text.cutAt '.' path.toList, c ∈ segment :=
      Text.exists_mem_cutWhere hc (by simpa using hdot)
    exact isInk_of_isName (h segment hsegment) c hmem

/-- A path begins like a name. -/
theorem exists_cons (h : Dotted path) : ∃ c cs, path.toList = c :: cs ∧ isNameStart c = true := by
  unfold Dotted at h
  cases hpath : path.toList with
  | nil =>
    rw [hpath] at h
    exact absurd (h [] List.mem_cons_self) (by decide)
  | cons c cs =>
    refine ⟨c, cs, rfl, ?_⟩
    rw [hpath, Text.cutAt, Text.cutWhere] at h
    split at h
    · exact absurd (h [] List.mem_cons_self) (by decide)
    · split at h
      · exact (isName_cons.1 (h _ List.mem_cons_self)).1
      · exact (isName_cons.1 (h _ List.mem_cons_self)).1

theorem ne_nil (h : Dotted path) : path.toList ≠ [] := by
  obtain ⟨c, cs, hpath, -⟩ := h.exists_cons
  rw [hpath]
  exact List.cons_ne_nil c cs

end Dotted

namespace TypeExpr

/-- All classes in the type have dotted paths. -/
inductive Tidy : TypeExpr → Prop
  | builtin (b : Builtin) : Tidy (.builtin b)
  | named {path : String} {args : List TypeExpr} : Dotted path → (∀ t ∈ args, Tidy t) → Tidy (.named path args)
  | generic (kind : GenericKind) {args : List TypeExpr} : (∀ t ∈ args, Tidy t) → Tidy (.generic kind args)
  | optional {t : TypeExpr} : Tidy t → Tidy (.optional t)
  | unmapped (token : String) : Tidy (.unmapped token)

mutual

/-- How many brackets are open at once in the spelling of the type. The bare tuple is written with a pair inside a
pair. -/
def nesting : TypeExpr → Nat
  | builtin _ => 0
  | named _ args => argsNesting args
  | generic .tuple [] => 2
  | generic _ args => argsNesting args
  | optional of => nesting of + 1
  | unmapped _ => 0

/-- How many brackets are open at once in arguments with the brackets around them. -/
def argsNesting : List TypeExpr → Nat
  | [] => 0
  | t :: ts => max (nesting t + 1) (argsNesting ts)

end

mutual

/-- The native tokens in the type that have no host type. -/
def unmappedTokens : TypeExpr → List String
  | builtin _ => []
  | named _ args => argsUnmappedTokens args
  | generic _ args => argsUnmappedTokens args
  | optional of => unmappedTokens of
  | unmapped token => [token]

/-- The native tokens in arguments that have no host type. -/
def argsUnmappedTokens : List TypeExpr → List String
  | [] => []
  | t :: ts => unmappedTokens t ++ argsUnmappedTokens ts

end

theorem mem_argsUnmappedTokens {token : String} {t : TypeExpr} {ts : List TypeExpr} (ht : t ∈ ts)
    (h : token ∈ t.unmappedTokens) : token ∈ argsUnmappedTokens ts := by
  induction ts with
  | nil => cases ht
  | cons t' ts ih =>
    rw [argsUnmappedTokens, List.mem_append]
    rcases List.mem_cons.1 ht with rfl | ht
    · exact .inl h
    · exact .inr (ih ht)

end TypeExpr

open TypeExpr in
/-- Arguments with commas between them nest one bracket less than with the brackets around them. -/
theorem piece_args {ts : List TypeExpr} (hne : ts ≠ []) (h : ∀ t ∈ ts, Piece NoMark t.nesting t.text.toList) :
    ∃ n, argsNesting ts = n + 1 ∧
      Piece (fun _ => True) n ([',', ' '].intercalate (ts.map fun t => t.text.toList)) := by
  induction ts with
  | nil => exact absurd rfl hne
  | cons t ts ih =>
    obtain ⟨ht, hts⟩ := List.forall_mem_cons.1 h
    cases ts with
    | nil =>
      refine ⟨t.nesting, rfl, ?_⟩
      rw [List.map_singleton, List.intercalate_singleton]
      exact ht.weaken fun _ _ => trivial
    | cons t' ts =>
      obtain ⟨n, hn, hpiece⟩ := ih (List.cons_ne_nil _ _) hts
      refine ⟨max t.nesting n, ?_, ?_⟩
      · rw [argsNesting, hn, Nat.add_max_add_right]
      · rw [List.map_cons, List.map_cons, List.intercalate_cons_cons, List.append_assoc]
        exact ht.comma hpiece

/-- A type with its arguments. -/
theorem piece_bracketed {name : String} (hne : name.toList ≠ []) (hname : ∀ c ∈ name.toList, IsInk c)
    {ts : List TypeExpr} (h : ∀ t ∈ ts, Piece NoMark t.nesting t.text.toList) :
    Piece NoMark (TypeExpr.argsNesting ts) (name ++ TypeExpr.bracketed (TypeExpr.texts ts)).toList := by
  have hcomma : ", ".toList = [',', ' '] := by decide
  have hopen : "[".toList = ['['] := by decide
  have hclose : "]".toList = [']'] := by decide
  rw [texts_eq_map]
  unfold TypeExpr.bracketed Text.join
  cases ts with
  | nil =>
    simp only [List.map_nil, List.isEmpty_nil, if_true, String.append_empty]
    exact piece_ink hne hname
  | cons t ts =>
    obtain ⟨n, hn, hpiece⟩ := piece_args (List.cons_ne_nil t ts) h
    have happlied := hpiece.applied hne hname (show Bracket.square ≠ .angle by decide)
    rw [hn, List.map_cons, List.isEmpty_cons, if_neg Bool.false_ne_true, ← List.map_cons]
    simpa [String.toList_append, String.toList_intercalate, hcomma, hopen, hclose, Bracket.opener, Bracket.closer,
      Function.comp_def] using happlied

/-- **The spelling of a type is a piece** if its unmapped tokens are quotable. -/
theorem piece_text {t : TypeExpr} (h : t.Tidy) (hquotable : ∀ token ∈ t.unmappedTokens, Quotable token = true) :
    Piece NoMark t.nesting t.text.toList := by
  induction h with
  | builtin b =>
    rw [TypeExpr.text]
    exact piece_name (isName_builtin b)
  | named hpath _ ih =>
    rw [TypeExpr.text, TypeExpr.nesting]
    exact piece_bracketed hpath.ne_nil hpath.isInk fun t ht =>
      ih t ht fun token htoken => hquotable token (TypeExpr.mem_argsUnmappedTokens ht htoken)
  | @generic kind args _ ih =>
    by_cases hempty : kind = .tuple ∧ args = []
    · obtain ⟨rfl, rfl⟩ := hempty
      have htext : "Tuple[()]".toList = "Tuple".toList ++ '[' :: (['(', ')'] ++ [']']) := by decide
      rw [TypeExpr.text, TypeExpr.nesting, htext]
      have hsquare : Bracket.square ≠ .angle := by decide
      exact (piece_empty .round).applied (by decide) (isInk_of_isName (by decide)) hsquare
    · have hname := isName_generic kind
      rw [TypeExpr.text, TypeExpr.nesting]
      · exact piece_bracketed hname.ne_nil (isInk_of_isName hname) fun t ht =>
          ih t ht fun token htoken => hquotable token (TypeExpr.mem_argsUnmappedTokens ht htoken)
      · exact fun hkind hargs => hempty ⟨hkind, hargs⟩
      · exact fun hkind hargs => hempty ⟨hkind, hargs⟩
  | optional _ ih =>
    have hopen : "Optional[".toList = "Optional".toList ++ ['['] := by decide
    have hclose : "]".toList = [']'] := by decide
    have happlied := (ih hquotable).applied (show "Optional".toList ≠ [] by decide)
      (isInk_of_isName (by decide)) (show Bracket.square ≠ .angle by decide)
    rw [TypeExpr.text, TypeExpr.nesting, String.toList_append, String.toList_append, hopen, hclose,
      List.append_assoc, List.append_assoc]
    exact happlied
  | unmapped token =>
    have hquote : "'".toList = ['\''] := by decide
    rw [TypeExpr.text, TypeExpr.nesting, String.toList_append, String.toList_append, hquote]
    exact piece_quotable (hquotable token List.mem_cons_self)

/-! ## Values -/

theorem isInk_of_isDigit {c : Char} (h : c.isDigit = true) : IsInk c := .inl (isNamePart_of_isDigit h)

theorem isInk_toDigits (n : Nat) : ∀ c ∈ Nat.toDigits 10 n, IsInk c := fun _ hc =>
  isInk_of_isDigit (Nat.isDigit_of_mem_toDigits (by decide) (by decide) hc)

theorem isInk_int (i : Int) : ∀ c ∈ (toString i).toList, IsInk c := by
  rw [toList_toString_int]
  refine List.forall_mem_append.2 ⟨?_, isInk_toDigits i.natAbs⟩
  split
  · exact List.forall_mem_singleton.2 (.inr (by decide))
  · exact List.forall_mem_nil _

theorem toString_int_ne_nil (i : Int) : (toString i).toList ≠ [] := by
  rw [toList_toString_int]
  exact List.append_ne_nil_of_right_ne_nil _ Nat.toDigits_ne_nil

section Floats

open Decimal

variable {digits : List Char}

theorem isInk_positional (h : ∀ c ∈ digits, IsInk c) (leading : Int) : ∀ c ∈ positional digits leading, IsInk c := by
  have hzero : IsInk '0' := .inl (by decide)
  have hdot : IsInk '.' := .inr (by decide)
  have hzeros (n : Nat) : ∀ c ∈ List.replicate n '0', IsInk c := fun c hc => (List.eq_of_mem_replicate hc) ▸ hzero
  unfold positional
  dsimp only
  split
  · simp only [List.forall_mem_append]
    exact ⟨⟨by simp [hzero, hdot], hzeros _⟩, h⟩
  · simp only [List.forall_mem_append]
    refine ⟨⟨⟨fun c hc => h c (List.mem_of_mem_take hc), hzeros _⟩, by simp [hdot]⟩, ?_⟩
    split
    · simp [hzero]
    · exact fun c hc => h c (List.mem_of_mem_drop hc)

theorem isInk_exponential (h : ∀ c ∈ digits, IsInk c) (plus : Bool) (leading : Int) :
    ∀ c ∈ exponential plus digits leading, IsInk c := by
  have hdot : IsInk '.' := .inr (by decide)
  have hplus : IsInk '+' := .inr (by decide)
  have he : IsInk 'e' := .inl (by decide)
  unfold exponential
  dsimp only
  simp only [List.forall_mem_append]
  refine ⟨⟨⟨⟨fun c hc => h c (List.mem_of_mem_take hc), ?_⟩, by simp [he]⟩, ?_⟩, isInk_int leading⟩
  · split
    · exact List.forall_mem_nil _
    · exact List.forall_mem_cons.2 ⟨hdot, fun c hc => h c (List.mem_of_mem_drop hc)⟩
  · split
    · simp [hplus]
    · exact List.forall_mem_nil _

theorem isInk_scaledText (style : Style) (d : Scaled) : ∀ c ∈ style.scaledText d, IsInk c := by
  unfold Style.scaledText
  dsimp only
  split
  · exact isInk_positional (isInk_toDigits _) _
  · exact isInk_exponential (isInk_toDigits _) _ _

theorem scaledText_ne_nil (style : Style) (d : Scaled) : style.scaledText d ≠ [] := by
  unfold Style.scaledText positional exponential
  dsimp only
  split
  · split <;> simp
  · simp

/-- A float is written with the characters of names and numbers. -/
theorem isInk_float (style : Style) (x : Float) :
    (style.text x).toList ≠ [] ∧ ∀ c ∈ (style.text x).toList, IsInk c := by
  unfold Style.text
  dsimp only
  split
  · exact ⟨by decide, isInk_of_isName (by decide)⟩
  · have hsign (body : List Char) (hbody : body ≠ [] ∧ ∀ c ∈ body, IsInk c) (negative : Prop) [Decidable negative] :
        (if negative then '-' :: body else body) ≠ [] ∧ ∀ c ∈ (if negative then '-' :: body else body), IsInk c := by
      split
      · exact ⟨List.cons_ne_nil _ _, List.forall_mem_cons.2 ⟨.inr (by decide), hbody.2⟩⟩
      · exact hbody
    rw [String.toList_ofList]
    refine hsign _ ?_ _
    split
    · exact ⟨by decide, isInk_of_isName (by decide)⟩
    · split
      · exact ⟨by decide, by simp [IsInk, isNamePart, Char.isAlphanum]⟩
      · exact ⟨scaledText_ne_nil _ _, isInk_scaledText _ _⟩

end Floats

namespace Value

/-- All classes and constants in the value have dotted paths, and it is no family of matrix classes. -/
def Tidy : Value → Prop
  | type t => t.Tidy
  | former f => ∀ stem, f ≠ .matrix stem
  | output t => t.Tidy
  | arrayLike t => t.Tidy
  | literal _ => True
  | constant path => Dotted path
  | sentinel _ => True
  | unmapped _ => True

/-- How many brackets are open at once in the spelling of the value. -/
def nesting : Value → Nat
  | type t => t.nesting
  | former _ => 0
  | output t => t.nesting + 1
  | arrayLike t => t.nesting + 1
  | literal .emptyList => 1
  | literal _ => 0
  | constant _ => 0
  | sentinel _ => 1
  | unmapped _ => 0

/-- The native tokens in the types of the value that have no host type. -/
def unmappedTokens : Value → List String
  | type t => t.unmappedTokens
  | output t => t.unmappedTokens
  | arrayLike t => t.unmappedTokens
  | _ => []

end Value

theorem piece_quoted (s : String) : Piece NoMark 0 (Text.quoted s).toList := by
  rw [Text.toList_quoted]
  exact piece_quote s.toList

theorem piece_literal (x : Literal) : Piece NoMark (Value.literal x).nesting x.text.toList := by
  cases x with
  | null => exact piece_name (by decide : IsName "None".toList)
  | bool b =>
    cases b
    · exact piece_name (by decide : IsName "False".toList)
    · exact piece_name (by decide : IsName "True".toList)
  | int n => exact piece_ink (toString_int_ne_nil n.toInt) (isInk_int n.toInt)
  | float x => exact piece_ink (isInk_float literalStyle x).1 (isInk_float literalStyle x).2
  | str s => exact piece_quoted s
  | bytes s =>
    have hb : "b".toList = ['b'] := by decide
    let quoted : Word := ⟨[], .stringLiteral, Text.quote s.toList⟩
    refine ⟨Word.name ['b'], [quoted], ?_, rfl, nests_of_isInert ?_, fun rest _ => ⟨?_, reads_quote _ _, trivial⟩⟩
    · simp [Literal.text, Text.quoted, Word.name, quoted, hb]
    · simp [Word.name, quoted, Token.isInert]
    · exact reads_name (by decide) (endsName_cons (by decide) _)
  | emptyList => exact piece_empty .square
  | emptyDict =>
    refine ⟨sign (.punct '\x7b') '\x7b', [sign (.punct '\x7d') '\x7d'], by decide, rfl, nests_of_isInert ?_, ?_⟩
    · simp [sign, Token.isInert]
    · exact fun rest _ => ⟨reads_sign _ (by decide) fun _ => rfl, reads_sign _ (by decide) fun _ => rfl, trivial⟩
  | ellipsis => exact piece_ink (by decide : "...".toList ≠ []) (by simp [Literal.text, IsInk])

/-- A piece in round brackets behind a name. -/
theorem Piece.called {outer : Token → Prop} {n : Nat} {text : String} (h : Piece outer n text.toList) {name : String}
    (hname : IsName name.toList) : Piece NoMark (n + 1) (name ++ "(" ++ text ++ ")").toList := by
  have hopen : "(".toList = ['('] := by decide
  have hclose : ")".toList = [')'] := by decide
  rw [String.toList_append, String.toList_append, String.toList_append, hopen, hclose, List.append_assoc,
    List.append_assoc]
  exact h.applied hname.ne_nil (isInk_of_isName hname) (show Bracket.round ≠ .angle by decide)

theorem isName_sentinel (kind : SentinelKind) : IsName kind.name.toList := by cases kind <;> decide

/-- **The spelling of a value is a piece** if the unmapped tokens of its types are quotable. -/
theorem piece_value {v : Value} (h : v.Tidy) (hquotable : ∀ token ∈ v.unmappedTokens, Quotable token = true) :
    Piece NoMark v.nesting v.text.toList := by
  cases v with
  | type t => exact piece_text h hquotable
  | former f =>
    cases f with
    | container kind => exact piece_name (isName_generic kind)
    | arrayLike =>
      show Piece NoMark 0 "ArrayLike".toList
      exact piece_name (by decide)
    | matrix stem => exact (h stem rfl).elim
  | output t =>
    have hname : "ResultVariable(" = "ResultVariable" ++ "(" := by decide
    show Piece NoMark (t.nesting + 1) ("ResultVariable(" ++ t.text ++ ")").toList
    rw [hname]
    exact (piece_text h hquotable).called (by decide)
  | arrayLike t =>
    have hname : "ArrayLikeVariable(" = "ArrayLikeVariable" ++ "(" := by decide
    show Piece NoMark (t.nesting + 1) ("ArrayLikeVariable(" ++ t.text ++ ")").toList
    rw [hname]
    exact (piece_text h hquotable).called (by decide)
  | literal x => exact piece_literal x
  | constant path => exact piece_ink (Dotted.ne_nil h) (Dotted.isInk h)
  | sentinel s =>
    exact (piece_quoted s.token).called (isName_sentinel s.kind)
  | unmapped token => exact piece_quoted token

end CallSig
