import CallSig.Proofs.Lexeme.Brackets
import CallSig.Proofs.Lexeme.Dotted
import CallSig.Proofs.Resolution.Steps

/-!
# `CallSig.Proofs.Resolution.HostTokens` — type tokens built from containers, words and classes

A host token is a tree over what a lexicon has: words with a host type of their own, dotted paths of classes that it
defines, and containers applied to arguments. Blanks may stand where the parser leaves them. The tree gives the text,
the host type and the places of the classes. Its text is made of words that nest as deep as the tree does, and what
stands between a pair of brackets is cut into the arguments.

## Contents
- **Trees.** `Gap`, `HostToken`, `HostArgs`; their `text`, `value`, `nesting` and `leaves`.
- **Words.** `HostToken.words`, with `spelled_words`, `reads_words`, `nests_words`; `HostToken.sober`.
- **Ends.** `HostToken.exists_cons`, `HostToken.tight`, `HostToken.trimmed_token`.
- **Pieces.** `HostToken.runText_eq`, `HostArgs.separated`, `HostArgs.splitText_core`.
-/

namespace CallSig

open Text Word

/-! ## Trees -/

/-- Blanks between the tokens of a text. -/
def Gap : Type := { cs : List Char // ∀ c ∈ cs, isGap c = true }

/-- No blanks. -/
def Gap.none : Gap := ⟨[], List.forall_mem_nil _⟩

namespace Lexicon

mutual

/-- A type token over what a lexicon has. -/
inductive HostToken (l : Lexicon) : Type
  /-- A word that has a host type: a builtin name, or a container without arguments. -/
  | word (name : String) (value : Value) (dotted : Dotted name) (known : l.known? name = some value)
    (typed : value.elementType.unmappedTokens = [])
  /-- The path of a class that the lexicon defines and has no entry for; no alias leads away from it. -/
  | named (path : String) (dotted : Dotted path)
    (defined : l.definitions.get? path = some (.type (.ofPath path))) (unknown : l.known? path = none)
    (unaliased : l.aliases.get? path = none)
  /-- A container applied to arguments in square or angle brackets. -/
  | applied (container : String) (kind : GenericKind) (dotted : Dotted container)
    (known : l.known? container = some (.former (.container kind))) (before : Gap) (bracket : Bracket)
    (notRound : bracket ≠ .round) (args : HostArgs l)

/-- Arguments with commas between them, and the blanks around each. -/
inductive HostArgs (l : Lexicon) : Type
  | last (before : Gap) (arg : HostToken l) (after : Gap)
  | more (before : Gap) (arg : HostToken l) (after : Gap) (rest : HostArgs l)

end

variable {l : Lexicon}

/-- The blanks before the first argument. -/
def HostArgs.lead : HostArgs l → Gap
  | last before _ _ => before
  | more before _ _ _ => before

/-- The blanks after the last argument. -/
def HostArgs.tail : HostArgs l → Gap
  | last _ _ after => after
  | more _ _ _ rest => rest.tail

mutual

/-- What the token spells. -/
def HostToken.text : HostToken l → List Char
  | .word name .. => name.toList
  | .named path .. => path.toList
  | .applied container _ _ _ before bracket _ args =>
    container.toList ++ before.1 ++ bracket.opener :: (args.lead.1 ++ args.core ++ args.tail.1) ++ [bracket.closer]

/-- What the arguments spell, without the blanks before and after them. -/
def HostArgs.core : HostArgs l → List Char
  | .last _ arg _ => arg.text
  | .more _ arg after rest => arg.text ++ (after.1 ++ ',' :: (rest.lead.1 ++ rest.core))

end

/-- The token as a string. -/
def HostToken.token (t : HostToken l) : String := String.ofList t.text

/-- What each argument spells. -/
def HostArgs.texts : HostArgs l → List (List Char)
  | .last _ arg _ => [arg.text]
  | .more _ arg _ rest => arg.text :: rest.texts

mutual

/-- How many brackets are open at once. -/
def HostToken.nesting : HostToken l → Nat
  | .word .. => 0
  | .named .. => 0
  | .applied _ _ _ _ _ _ _ args => args.nesting + 1

/-- How many brackets are open at once inside the brackets around the arguments. -/
def HostArgs.nesting : HostArgs l → Nat
  | .last _ arg _ => arg.nesting
  | .more _ arg _ rest => max arg.nesting rest.nesting

end

mutual

/-- The value that the token stands for. -/
def HostToken.value : HostToken l → Value
  | .word _ value .. => value
  | .named path .. => .type (.ofPath path)
  | .applied _ kind _ _ _ _ _ args => .type (.generic kind args.types)

/-- The types that the arguments stand for. -/
def HostArgs.types : HostArgs l → List TypeExpr
  | .last _ arg _ => [arg.value.elementType]
  | .more _ arg _ rest => arg.value.elementType :: rest.types

end

mutual

/-- The class paths in the token from left to right, each with the number of brackets around it, if so many are around
the token. -/
def HostToken.leaves (level : Nat) : HostToken l → List (String × Nat)
  | .word .. => []
  | .named path .. => [(path, level)]
  | .applied _ _ _ _ _ _ _ args => args.leaves (level + 1)

/-- The class paths in the arguments. -/
def HostArgs.leaves (level : Nat) : HostArgs l → List (String × Nat)
  | .last _ arg _ => arg.leaves level
  | .more _ arg _ rest => arg.leaves level ++ rest.leaves level

end

/-! ## Words -/

mutual

/-- The words of the token, with blanks before the first one. -/
def HostToken.words : HostToken l → List Char → List Word
  | .word name .., lead => dottedWords lead name.toList
  | .named path .., lead => dottedWords lead path.toList
  | .applied container _ _ _ before bracket _ args, lead =>
    dottedWords lead container.toList ++ ⟨before.1, .opening bracket, [bracket.opener]⟩ ::
      (args.words args.lead.1 ++ [⟨args.tail.1, .closing bracket, [bracket.closer]⟩])

/-- The words of the arguments, with blanks before the first one. -/
def HostArgs.words : HostArgs l → List Char → List Word
  | .last _ arg _, lead => arg.words lead
  | .more _ arg after rest, lead => arg.words lead ++ ⟨after.1, .comma, [',']⟩ :: rest.words rest.lead.1

end

mutual

theorem HostToken.spelled_words (t : HostToken l) (lead : List Char) : spelled (t.words lead) = lead ++ t.text := by
  match t with
  | .word name .. => exact spelled_dottedWords lead name.toList
  | .named path .. => exact spelled_dottedWords lead path.toList
  | .applied container _ _ _ before bracket _ args =>
    have hargs := args.spelled_words args.lead.1
    simp only [HostToken.words, HostToken.text, spelled_append, spelled_cons, spelled_nil, spelled_dottedWords, hargs]
    simp

theorem HostArgs.spelled_words (args : HostArgs l) (lead : List Char) :
    spelled (args.words lead) = lead ++ args.core := by
  match args with
  | .last _ arg _ => exact arg.spelled_words lead
  | .more _ arg after rest =>
    have harg := arg.spelled_words lead
    have hrest := rest.spelled_words rest.lead.1
    simp only [HostArgs.words, HostArgs.core, spelled_append, spelled_cons, harg, hrest]
    simp

end

/-- The blanks before a text belong to its first word. -/
theorem HostToken.exists_words (t : HostToken l) :
    ∃ text ws, ∀ lead, t.words lead = ⟨lead, .identifier, text⟩ :: ws := by
  cases t with
  | word name => exact exists_dottedWords name.toList
  | named path => exact exists_dottedWords path.toList
  | applied container _ _ _ before bracket _ args =>
    obtain ⟨text, ws, hws⟩ := exists_dottedWords container.toList
    exact ⟨text, _, fun lead => by rw [HostToken.words, hws]; rfl⟩

theorem endsName_gap (gap : Gap) {c : Char} (hc : isNamePart c = false) (rest : List Char) :
    EndsName (gap.1 ++ c :: rest) := by
  obtain ⟨cs, hcs⟩ := gap
  cases cs with
  | nil =>
    rintro d ⟨⟩
    exact hc
  | cons d cs =>
    rintro e ⟨⟩
    rcases isGap_cases (hcs d List.mem_cons_self) with rfl | rfl | rfl | rfl <;> decide

/-- One character that is a token, with blanks before it. -/
theorem reads_spaced {token : Token} {c : Char} {rest : List Char} (gap : Gap)
    (h : (sign token c).ReadsBefore rest) : Word.ReadsBefore ⟨gap.1, token, [c]⟩ rest :=
  ⟨gap.2, h.read⟩

mutual

theorem HostToken.reads_words (t : HostToken l) {lead : List Char} (hlead : ∀ c ∈ lead, isGap c = true)
    {rest : List Char} (hr : EndsName rest) : Reads (t.words lead) rest := by
  match t with
  | .word _ _ dotted .. => exact reads_dottedWords hlead dotted hr
  | .named _ dotted .. => exact reads_dottedWords hlead dotted hr
  | .applied container _ dotted _ before bracket _ args =>
    have hcloser : EndsName (args.tail.1 ++ bracket.closer :: rest) :=
      endsName_gap _ (by cases bracket <;> decide) rest
    have hargs := args.reads_words args.lead.2 hcloser
    rw [HostToken.words]
    refine reads_append (reads_dottedWords hlead dotted ?_) ⟨reads_spaced before (reads_opener bracket _), ?_⟩
    · rw [spelled_cons, List.append_assoc, List.append_assoc]
      exact endsName_gap before (by cases bracket <;> decide) _
    · refine reads_append ?_ ⟨reads_spaced _ (reads_closer bracket _), trivial⟩
      simpa using hargs

theorem HostArgs.reads_words (args : HostArgs l) {lead : List Char} (hlead : ∀ c ∈ lead, isGap c = true)
    {rest : List Char} (hr : EndsName rest) : Reads (args.words lead) rest := by
  match args with
  | .last _ arg _ => exact arg.reads_words hlead hr
  | .more _ arg after more =>
    have hcomma : EndsName (after.1 ++ ',' :: (spelled (more.words more.lead.1) ++ rest)) :=
      endsName_gap after (by decide) _
    have harg := arg.reads_words hlead hcomma
    have hmore := more.reads_words more.lead.2 hr
    rw [HostArgs.words]
    refine reads_append ?_ ⟨reads_spaced after (reads_sign _ (by decide) fun _ => rfl), hmore⟩
    simpa using harg

end

mutual

theorem HostToken.nests_words (t : HostToken l) (lead : List Char) :
    Lexeme.Nests Lexeme.NoComma t.nesting ((t.words lead).map Word.token) := by
  match t with
  | .word name .. => exact nests_dottedWords lead name.toList
  | .named path .. => exact nests_dottedWords lead path.toList
  | .applied container _ _ _ before bracket _ args =>
    have hargs := args.nests_words args.lead.1
    have hpair : Lexeme.Nests Lexeme.NoComma (max (args.nesting + 1) 0)
        (.opening bracket :: ((args.words args.lead.1).map Word.token ++ .closing bracket :: [])) :=
      .bracketed bracket hargs .nil
    have hall := (nests_dottedWords lead container.toList).append hpair
    rw [Nat.zero_max, Nat.max_zero] at hall
    simpa [HostToken.words, HostToken.nesting] using hall

theorem HostArgs.nests_words (args : HostArgs l) (lead : List Char) :
    Lexeme.Nests (fun _ => True) args.nesting ((args.words lead).map Word.token) := by
  match args with
  | .last _ arg _ => exact (arg.nests_words lead).weaken fun _ _ => trivial
  | .more _ arg after more =>
    have harg := (arg.nests_words lead).weaken fun _ _ => trivial
    have hcomma : Lexeme.Nests (fun _ => True) more.nesting (.comma :: (more.words more.lead.1).map Word.token) :=
      .plain (Lexeme.noBracket (by decide)) trivial (more.nests_words more.lead.1)
    simpa [HostArgs.words, HostArgs.nesting] using harg.append hcomma

end

theorem sober_of_dotted {path : String} (h : Dotted path) : ∀ c ∈ path.toList, Sober c := by
  intro c hc
  rcases h.mem_cases hc with hname | rfl
  · refine ⟨?_, ?_, ?_⟩ <;>
    · rintro rfl
      exact absurd hname (by decide)
  · exact ⟨by decide, by decide, by decide⟩

theorem sober_of_gap (gap : Gap) : ∀ c ∈ gap.1, Sober c := by
  intro c hc
  rcases isGap_cases (gap.2 c hc) with rfl | rfl | rfl | rfl <;> exact ⟨by decide, by decide, by decide⟩

theorem sober_bracket (b : Bracket) : Sober b.opener ∧ Sober b.closer := by
  cases b <;> exact ⟨⟨by decide, by decide, by decide⟩, by decide, by decide, by decide⟩

mutual

theorem HostToken.sober (t : HostToken l) : ∀ c ∈ t.text, Sober c := by
  match t with
  | .word _ _ dotted .. => exact sober_of_dotted dotted
  | .named _ dotted .. => exact sober_of_dotted dotted
  | .applied container _ dotted _ before bracket _ args =>
    have hargs := args.sober
    intro c hc
    simp only [HostToken.text, List.mem_append, List.mem_cons, List.not_mem_nil, or_false, or_assoc] at hc
    rcases hc with hc | hc | rfl | hc | hc | hc | rfl
    · exact sober_of_dotted dotted c hc
    · exact sober_of_gap before c hc
    · exact (sober_bracket bracket).1
    · exact sober_of_gap args.lead c hc
    · exact hargs c hc
    · exact sober_of_gap args.tail c hc
    · exact (sober_bracket bracket).2

theorem HostArgs.sober (args : HostArgs l) : ∀ c ∈ args.core, Sober c := by
  match args with
  | .last _ arg _ => exact arg.sober
  | .more _ arg after more =>
    have harg := arg.sober
    have hmore := more.sober
    intro c hc
    simp only [HostArgs.core, List.mem_append, List.mem_cons] at hc
    rcases hc with hc | hc | rfl | hc | hc
    · exact harg c hc
    · exact sober_of_gap after c hc
    · exact ⟨by decide, by decide, by decide⟩
    · exact sober_of_gap more.lead c hc
    · exact hmore c hc

end

/-! ## Ends -/

/-- A token begins like a name. -/
theorem HostToken.exists_cons (t : HostToken l) : ∃ c cs, t.text = c :: cs ∧ isNameStart c = true := by
  cases t with
  | word _ _ dotted => exact dotted.exists_cons
  | named _ dotted => exact dotted.exists_cons
  | applied container _ dotted _ before bracket _ args =>
    obtain ⟨c, cs, hcs, hc⟩ := dotted.exists_cons
    exact ⟨c, _, by rw [HostToken.text, hcs]; rfl, hc⟩

theorem HostArgs.exists_cons (args : HostArgs l) : ∃ c cs, args.core = c :: cs ∧ isNameStart c = true := by
  cases args with
  | last _ arg _ => exact arg.exists_cons
  | more _ arg after rest =>
    obtain ⟨c, cs, hcs, hc⟩ := arg.exists_cons
    exact ⟨c, _, by rw [HostArgs.core, hcs]; rfl, hc⟩

theorem tight_of_exists_cons {cs : List Char} (h : ∃ c more, cs = c :: more ∧ isNameStart c = true)
    (hlast : ∀ c, cs.getLast? = some c → isBlank c = false) : Tight cs := by
  refine ⟨fun c hc => ?_, hlast⟩
  obtain ⟨d, more, rfl, hd⟩ := h
  cases hc
  exact not_isBlank_of_isNamePart (isNamePart_of_isNameStart hd)

theorem HostToken.tight (t : HostToken l) : Tight t.text := by
  refine tight_of_exists_cons t.exists_cons fun c hc => ?_
  cases t with
  | word _ _ dotted => exact dotted.tight.2 c hc
  | named _ dotted => exact dotted.tight.2 c hc
  | applied container _ _ _ before bracket _ args =>
    rw [HostToken.text, List.getLast?_concat] at hc
    cases hc
    cases bracket <;> decide

theorem HostArgs.tight (args : HostArgs l) : Tight args.core := by
  match args with
  | .last _ arg _ => exact arg.tight
  | .more before arg after rest =>
    refine tight_of_exists_cons (HostArgs.more before arg after rest).exists_cons fun c hc => rest.tight.2 c ?_
    obtain ⟨d, cs, hcs, -⟩ := rest.exists_cons
    have hcore : (HostArgs.more before arg after rest).core =
        (arg.text ++ (after.1 ++ ',' :: rest.lead.1)) ++ rest.core := by simp [HostArgs.core]
    rw [hcore, List.getLast?_append, hcs, List.getLast?_cons, Option.some_or] at hc
    rw [hcs, List.getLast?_cons, hc]

theorem HostToken.trimmed_token (t : HostToken l) : trimmed t.token = t.token := trimmed_of_tight t.tight

/-! ## Pieces -/

/-- The lexemes of a token spell it, whatever blanks are before them. -/
theorem HostToken.runText_eq (t : HostToken l) {lead : List Char} {xs : List Lexeme}
    (h : xs.map Lexeme.word = t.words lead) : Lexeme.runText xs = t.text := by
  obtain ⟨text, ws, hws⟩ := t.exists_words
  rw [hws lead] at h
  obtain ⟨x, ys, rfl, hx, hys⟩ := List.map_eq_cons_iff.1 h
  have htext : x.text = text := congrArg Word.text hx
  calc Lexeme.runText (x :: ys) = text ++ spelled ws := by
        rw [← hys, Lexeme.spelled_map_word, ← htext]
        rfl
    _ = spelled (t.words []) := by rw [hws []]; rfl
    _ = t.text := t.spelled_words []

theorem HostToken.nested (t : HostToken l) {lead : List Char} {xs : List Lexeme}
    (h : xs.map Lexeme.word = t.words lead) {limit : Nat} (hn : t.nesting ≤ limit) :
    Lexeme.Nested Lexeme.NoComma limit xs := by
  have htokens : xs.map Lexeme.token = (t.words lead).map Word.token := by
    rw [← h, List.map_map]
    rfl
  exact Lexeme.Nests.nested (htokens ▸ t.nests_words lead) hn

/-- The lexemes of the arguments are cut into those of each argument. -/
theorem HostArgs.separated (args : HostArgs l) {lead : List Char} {xs : List Lexeme}
    (h : xs.map Lexeme.word = args.words lead) {limit : Nat} (hn : args.nesting ≤ limit) :
    ∃ parts, Lexeme.Separated (Lexeme.Nested Lexeme.NoComma limit) xs parts ∧
      parts.map Lexeme.runText = args.texts := by
  match args with
  | .last _ arg _ =>
    refine ⟨[xs], .last (arg.nested h hn), ?_⟩
    rw [List.map_singleton, arg.runText_eq h]
    rfl
  | .more _ arg after rest =>
    obtain ⟨harg, hrest⟩ := Nat.max_le.1 hn
    obtain ⟨ys, zs, rfl, hys, hzs⟩ := List.map_eq_append_iff.1 h
    obtain ⟨comma, zs, rfl, hcomma, hzs⟩ := List.map_eq_cons_iff.1 hzs
    obtain ⟨parts, hparts, htexts⟩ := rest.separated hzs hrest
    refine ⟨ys :: parts, .comma (arg.nested hys harg) (congrArg Word.token hcomma) hparts, ?_⟩
    rw [List.map_cons, arg.runText_eq hys, htexts]
    rfl

/-- **The text between the brackets is cut into the arguments** if it nests within the limit. -/
theorem HostArgs.splitText_core (args : HostArgs l) {limit : Nat} (hn : args.nesting ≤ limit) :
    Lexeme.splitText limit args.core = .ok args.texts := by
  have hspelled : spelled (args.words []) = args.core := args.spelled_words []
  obtain ⟨xs, hxs, hwords⟩ := Lexeme.ofText_spelled (args.reads_words (List.forall_mem_nil _) endsName_nil)
  obtain ⟨parts, hparts, htexts⟩ := args.separated hwords hn
  rw [hspelled] at hxs
  have hne : xs ≠ [] := by
    rintro rfl
    obtain ⟨c, cs, hcore, -⟩ := args.exists_cons
    rw [← hspelled, ← hwords] at hcore
    cases hcore
  unfold Lexeme.splitText
  rw [hxs]
  show (Lexeme.pieces limit xs).map (fun parts => parts.map Lexeme.runText) = _
  rw [Lexeme.pieces_eq_ok_iff.2 (.inr ⟨hne, hparts⟩), ← htexts]
  rfl

end Lexicon
end CallSig
