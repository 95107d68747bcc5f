import CallSig.Proofs.Descriptor.Acceptance
import CallSig.Proofs.Rendering.Legality
import CallSig.Proofs.Variant.Hosts

/-!
# `CallSig.Proofs.Rendering.Arguments` — what is shown of a parameter is one argument

The item that a descriptor line has for a parameter is its name, a colon, its type and perhaps a default. If type and
default are pieces, so is the item, and it is read again as an argument with the same name, type and default. All types
and defaults of a variant are pieces if the tokens without a host type are quotable, and the number of brackets that
they open is the depth that reading them needs. That may be more than the line had: an array has become a tuple, and a
type with the default `None` has become optional.

## Contents
- **Items.** `StandsForArgument`, `defaultText`; `nests_item`, `reads_item`, `exists_argumentForm`;
  `standsForArgument_plain`, `standsForArgument_dots`.
- **Types.** `head_text`.
- **Parameters.** `ShownParam.type`, `ShownParam.nesting`, `ShownParam.unmappedTokens`; `ShownParam.ReadsBack`,
  `readsBack_of_tidy`.
- **Variants.** `named_render`, `tidy_render`, `readsBack_of_assemble`; `not_standsAlone_literal`, a string literal as a
  type.
-/

namespace CallSig

open Lexeme (ofText runText splitText)
open Word

/-! ## Items -/

/-- The text is read as one argument with this name, type and default; its kind depends on where it stands. The text is
one piece from this depth on, and from no smaller one. -/
structure StandsForArgument (n : Nat) (item : List Char) (name type : String) (default? : Option String)
    (toKind : ParamKind → ParamKind) : Prop where
  single : ∀ limit, splitText limit item = .ok [item] ↔ n ≤ limit
  read : ∃ first rest, ofText item = .ok (first :: rest) ∧ ∀ kind, ∃ arg,
    Descriptor.readArgument kind first rest = .ok arg ∧ arg.name = name ∧ arg.typeToken = type ∧
      arg.default? = default? ∧ arg.kind = toKind kind

/-- What stands behind a type: nothing, or an equals sign and a default. -/
def defaultText : Option String → String
  | some d => "=" ++ d
  | none => ""

/-- The words of a default, and what the lexemes with these words are. -/
theorem exists_defaultWords {default? : Option String} {m : Nat}
    (hdefault : ∀ d, default? = some d → Piece NoMark m d.toList) (hnone : default? = none → m = 0) :
    ∃ tail, spelled tail = (defaultText default?).toList ∧ Stops (spelled tail) ∧
      Lexeme.Nests Lexeme.NoComma m (tail.map Word.token) ∧ Reads tail [] ∧
      ∀ ys : List Lexeme, ys.map Lexeme.word = tail → ∃ found, ys = Grammar.marked found ∧
        (∀ equal part, found = some (equal, part) → equal.token = .equal ∧ part ≠ []) ∧
        found.map (fun e => String.ofList (runText e.2)) = default? := by
  cases default? with
  | none =>
    obtain rfl := hnone rfl
    refine ⟨[], rfl, stops_nil, .nil, trivial, fun ys hys => ⟨none, ?_, nofun, rfl⟩⟩
    exact List.map_eq_nil_iff.1 hys
  | some d =>
    obtain ⟨w, ws, hspelled, hgap, hnests, hreads⟩ := hdefault d rfl
    have hequal : "=".toList = ['='] := by decide
    refine ⟨sign .equal '=' :: w :: ws, ?_, stops_cons (by decide) _, ?_, ⟨?_, hreads [] stops_nil⟩, fun ys hys => ?_⟩
    · rw [spelled_cons, hspelled, defaultText, String.toList_append, hequal]
      rfl
    · have hmark : Token.equal ≠ .comma := by decide
      exact .plain (Lexeme.noBracket (by decide)) hmark (hnests.weaken fun _ ho => ho.1)
    · exact reads_sign _ (by decide) fun _ => rfl
    · obtain ⟨equal, part, rfl, he, hpart⟩ := List.map_eq_cons_iff.1 hys
      obtain ⟨x, rest, rfl, hx, -⟩ := List.map_eq_cons_iff.1 hpart
      refine ⟨some (equal, x :: rest), rfl, ?_, ?_⟩
      · rintro _ _ ⟨⟩
        exact ⟨congrArg Word.token he, List.cons_ne_nil x rest⟩
      · have hrun : runText (x :: rest) = d.toList := by
          rw [Descriptor.runText_eq_spelled (by rw [← hgap, ← hx]; rfl), hpart, hspelled]
        simp only [Option.map_some, hrun, String.ofList_toList]

/-- A text that begins with no dot does not begin with three dots. -/
theorem token_ne_ellipsis {w : Word} {ws : List Word} {rest : List Char} (hreads : Reads (w :: ws) rest)
    (hgap : w.gap = []) {c : Char} {cs : List Char} (hspelled : spelled (w :: ws) = c :: cs) (hdot : c ≠ '.') :
    w.token ≠ .ellipsis := by
  intro htoken
  rw [spelled_cons, hgap, ReadsBefore.text_of_ellipsis hreads.1 htoken] at hspelled
  obtain ⟨rfl, -⟩ := List.cons.inj hspelled
  exact hdot rfl

/-- A name, a colon, a type and a default behind it nest as deep as the deeper one of the two. -/
theorem nests_item {n m : Nat} {ts us : List Token} (htype : Lexeme.Nests NoMark n ts)
    (hdefault : Lexeme.Nests Lexeme.NoComma m us) :
    Lexeme.Nests Lexeme.NoComma (max n m) (.identifier :: .colon :: (ts ++ us)) := by
  have hback := (htype.weaken fun _ ho => ho.1).append hdefault
  have hname : Token.identifier ≠ .comma := by decide
  have hcolon : Token.colon ≠ .comma := by decide
  exact .plain (Lexeme.noBracket (by decide)) hname (.plain (Lexeme.noBracket (by decide)) hcolon hback)

/-- The words of an item are read as they are, if the type does not begin with a colon. -/
theorem reads_item {name : List Char} (hname : IsName name) {ws tail : List Word} {c : Char} {cs : List Char}
    (htype : ∀ rest, Stops rest → Reads ws rest) (hspelled : spelled ws = c :: cs) (hcolon : c ≠ ':')
    (htail : Reads tail []) (hstops : Stops (spelled tail)) :
    Reads (Word.name name :: sign .colon ':' :: (ws ++ tail)) [] := by
  refine ⟨reads_name hname (endsName_cons (by decide) _), reads_colon ?_, ?_⟩
  · rw [spelled_append, hspelled]
    exact fun heq => hcolon (Option.some.inj heq)
  · exact reads_append (by rw [List.append_nil]; exact htype _ hstops) htail

/-- A type that does not begin with three dots is not the type of a variadic argument. -/
theorem variadic_eq_false {form : Grammar.ArgumentForm} {x : Lexeme} {more : List Lexeme}
    (htype : form.type = x :: more) (h : x.token ≠ .ellipsis) : form.variadic = false := by
  unfold Grammar.ArgumentForm.variadic
  rw [htype]
  cases more with
  | nil => exact decide_eq_false h
  | cons => rfl

section Items

variable {name type : String} {default? : Option String} {n m : Nat} {c : Char} {cs : List Char}

/-- **The lexemes of an item** are those of an argument of the grammar. -/
theorem exists_argumentForm (hname : IsName name.toList) (htype : Piece NoMark n type.toList)
    (hhead : type.toList = c :: cs) (hcolon : c ≠ ':') (hdots : default? = none ∨ c ≠ '.')
    (hdefault : ∀ d, default? = some d → Piece NoMark m d.toList) (hnone : default? = none → m = 0) :
    ∃ form : Grammar.ArgumentForm, form.WellFormed n ∧
      ofText (name ++ ":" ++ type ++ defaultText default?).toList = .ok form.lexemes ∧
      (∀ limit, splitText limit (name ++ ":" ++ type ++ defaultText default?).toList =
        .ok [(name ++ ":" ++ type ++ defaultText default?).toList] ↔ max n m ≤ limit) ∧
      form.name.text = name.toList ∧ runText form.type = type.toList ∧ (c ≠ '.' → form.variadic = false) ∧
      form.default?.map (fun e => String.ofList (runText e.2)) = default? := by
  obtain ⟨w, ws, hspelled, hgap, hnests, hreads⟩ := htype
  obtain ⟨tail, htail, hstops, hnests', hreads', hform⟩ := exists_defaultWords hdefault hnone
  have hsign : ":".toList = [':'] := by decide
  have hitem : spelled (Word.name name.toList :: sign .colon ':' :: (w :: ws ++ tail)) =
      (name ++ ":" ++ type ++ defaultText default?).toList := by
    simp only [spelled_cons, spelled_append, String.toList_append, ← htail, ← hspelled, hsign]
    simp [Word.name, sign]
  have htokens : Lexeme.Nests Lexeme.NoComma (max n m)
      ((Word.name name.toList :: sign .colon ':' :: (w :: ws ++ tail)).map Word.token) := by
    have hback := nests_item hnests hnests'
    rw [← List.map_append] at hback
    exact hback
  obtain ⟨xs, hxs, hwords⟩ :=
    Lexeme.ofText_spelled (reads_item hname hreads (hspelled.trans hhead) hcolon hreads' hstops)
  have hsingle := splitText_iff rfl htokens (fun _ ho => ho) hxs hwords
  rw [hitem] at hxs hsingle
  -- the lexemes have the words of a name, a colon, a type and a default
  obtain ⟨first, rest, rfl, hfirst, hrest⟩ := List.map_eq_cons_iff.1 hwords
  obtain ⟨colon, body, rfl, hsigned, hbody⟩ := List.map_eq_cons_iff.1 hrest
  obtain ⟨types, ys, rfl, htypes, hys⟩ := List.map_eq_append_iff.1 hbody
  obtain ⟨found, rfl, hfound, hshown⟩ := hform ys hys
  obtain ⟨x, more, rfl, hx, -⟩ := List.map_eq_cons_iff.1 htypes
  let form : Grammar.ArgumentForm := ⟨first, colon, x :: more, found⟩
  have hvariadic : c ≠ '.' → form.variadic = false := by
    intro hdot
    have hword := token_ne_ellipsis (hreads _ stops_nil) hgap (hspelled.trans hhead) hdot
    rw [← hx] at hword
    exact variadic_eq_false rfl hword
  have htypeTokens : Lexeme.Nests NoMark n ((x :: more).map Lexeme.token) := by
    rw [← htypes, List.map_map] at hnests
    exact hnests
  refine ⟨form, ⟨congrArg Word.token hfirst, congrArg Word.token hsigned, List.cons_ne_nil x more, ?_, ?_⟩, hxs,
    hsingle, congrArg Word.text hfirst, ?_, hvariadic, hshown⟩
  · exact (htypeTokens.weaken fun _ ho => ho.2).nested (Nat.le_refl n)
  · intro equal part hsome
    have hsome : found = some (equal, part) := hsome
    refine ⟨(hfound equal part hsome).1, (hfound equal part hsome).2, hvariadic (hdots.resolve_left fun hnone => ?_)⟩
    rw [hsome, hnone] at hshown
    cases hshown
  · rw [Descriptor.runText_eq_spelled (by rw [← hgap, ← hx]; rfl), htypes, hspelled]

/-- **An item is read as the argument that it spells**, if its type and its default are pieces. -/
theorem standsForArgument_plain (hname : Clean name) (htype : Piece NoMark n type.toList)
    (hhead : type.toList = c :: cs) (hcolon : c ≠ ':') (hdot : c ≠ '.')
    (hdefault : ∀ d, default? = some d → Piece NoMark m d.toList) (hnone : default? = none → m = 0) :
    StandsForArgument (max n m) (name ++ ":" ++ type ++ defaultText default?).toList name
      (String.ofList (Text.collapse type.toList)) default? id := by
  obtain ⟨form, hform, hxs, hsingle, hfirst, hrun, hvariadic, hshown⟩ :=
    exists_argumentForm hname.1 htype hhead hcolon (.inr hdot) hdefault hnone
  have hread := form.readArgument_eq hform (Lexeme.fromText_of_ofText hxs)
  refine ⟨hsingle, form.name, _, hxs, fun kind => ⟨_, hread kind, ?_⟩⟩
  unfold Grammar.ArgumentForm.argument
  rw [hvariadic hdot]
  simp only [Bool.false_eq_true, if_false, hrun, hfirst, String.ofList_toList, id_eq, and_true, true_and]
  exact ⟨escapeReserved_of_not_reserved hname.2, hshown⟩

/-- A name with three dots is read as a variadic argument, which collects positional values if the name says so. -/
theorem standsForArgument_dots (hname : Clean name) :
    StandsForArgument 0 (name ++ ":...").toList (if "arg_".toList.isPrefixOf name.toList then "args" else name) "..."
      none fun _ => if "arg_".toList.isPrefixOf name.toList then .varPositional else .varKeyword := by
  have hdots : "...".toList = ['.', '.', '.'] := by decide
  have hpiece : Piece NoMark 0 "...".toList := piece_ink (by decide) (by simp [hdots, IsInk])
  have hdefault : ∀ d, (none : Option String) = some d → Piece NoMark 0 d.toList := by
    rintro _ ⟨⟩
  obtain ⟨form, hform, hxs, hsingle, hfirst, hrun, -, -⟩ :=
    exists_argumentForm hname.1 hpiece hdots (by decide) (.inl rfl) hdefault fun _ => rfl
  have hitem : name ++ ":" ++ "..." ++ defaultText none = name ++ ":..." := by
    rw [defaultText, String.append_empty, String.append_assoc]
    rfl
  rw [hitem] at hxs hsingle
  have hread := form.readArgument_eq hform (Lexeme.fromText_of_ofText hxs)
  have hvariadic : form.variadic = true := by
    rw [Grammar.ArgumentForm.variadic_iff hform.type_ne_nil
      (Grammar.ArgumentForm.fromText_type (Lexeme.fromText_of_ofText hxs)), hrun]
    decide
  have htype : String.ofList (Text.collapse "...".toList) = "..." := by decide
  refine ⟨hsingle, form.name, _, hxs, fun kind => ⟨_, hread kind, ?_⟩⟩
  unfold Grammar.ArgumentForm.argument
  simp only [hvariadic, if_true, hrun, hfirst, htype]
  split
  · simp
  · rw [String.ofList_toList]
    exact ⟨escapeReserved_of_not_reserved hname.2, rfl, rfl, rfl⟩

end Items

/-! ## Types -/

/-- A type begins like a name or with a quote. -/
theorem head_text {t : TypeExpr} (h : t.Tidy) :
    ∃ c cs, t.text.toList = c :: cs ∧ (isNameStart c = true ∨ c = '\'') := by
  have hname {s : String} (hs : ∃ c cs, s.toList = c :: cs ∧ isNameStart c = true) (more : String) :
      ∃ c cs, (s ++ more).toList = c :: cs ∧ (isNameStart c = true ∨ c = '\'') := by
    obtain ⟨c, cs, hcons, hstart⟩ := hs
    exact ⟨c, cs ++ more.toList, by rw [String.toList_append, hcons, List.cons_append], .inl hstart⟩
  have hisName {s : String} (hs : IsName s.toList) : ∃ c cs, s.toList = c :: cs ∧ isNameStart c = true := by
    obtain ⟨c, cs, hcons, hstart, -⟩ := hs
    exact ⟨c, cs, hcons, hstart⟩
  cases h with
  | builtin b =>
    obtain ⟨c, cs, hcons, hstart⟩ := hisName (isName_builtin b)
    exact ⟨c, cs, hcons, .inl hstart⟩
  | named hpath _ =>
    rw [TypeExpr.text]
    exact hname hpath.exists_cons _
  | @generic kind args _ =>
    by_cases hempty : kind = .tuple ∧ args = []
    · obtain ⟨rfl, rfl⟩ := hempty
      rw [TypeExpr.text]
      exact ⟨'T', "uple[()]".toList, by decide, .inl (by decide)⟩
    · rw [TypeExpr.text]
      · exact hname (hisName (isName_generic kind)) _
      · exact fun hkind hargs => hempty ⟨hkind, hargs⟩
  | optional _ =>
    rw [TypeExpr.text, String.append_assoc]
    exact hname ⟨'O', "ptional[".toList, by decide, by decide⟩ _
  | unmapped token =>
    rw [TypeExpr.text, String.append_assoc]
    exact ⟨'\'', (token ++ "'").toList, by rw [String.toList_append]; rfl, .inr rfl⟩

/-! ## Parameters -/

namespace ShownDefault

/-- All classes and constants in the default have dotted paths. -/
def Tidy : ShownDefault → Prop
  | value v => v.Tidy
  | ellipsis => True

/-- How many brackets are open at once in the spelling of the default. -/
def nesting : ShownDefault → Nat
  | value v => v.nesting
  | ellipsis => 0

/-- The native tokens in the types of the default that have no host type. -/
def unmappedTokens : ShownDefault → List String
  | value v => v.unmappedTokens
  | ellipsis => []

theorem piece_text {d : ShownDefault} (h : d.Tidy) (hquotable : ∀ token ∈ d.unmappedTokens, Quotable token = true) :
    Piece NoMark d.nesting d.text.toList := by
  cases d with
  | value v => exact piece_value h hquotable
  | ellipsis => exact piece_literal .ellipsis

end ShownDefault

namespace ShownParam

/-- The type that the item has; a parameter without a type is an object. -/
def type (p : ShownParam) : TypeExpr := p.hint?.getD (.builtin .object)

/-- How many brackets are open at once in the item, unless it is variadic. -/
def nesting (p : ShownParam) : Nat := max p.type.nesting ((p.default?.map ShownDefault.nesting).getD 0)

/-- The native tokens in the type and the default that have no host type. -/
def unmappedTokens (p : ShownParam) : List String :=
  p.type.unmappedTokens ++ (p.default?.map ShownDefault.unmappedTokens).getD []

/-- The type and the default stand alone, and the item is read as an argument with the name, the type and the default
of the parameter. A variadic parameter keeps its kind, any other one has the kind that its place gives it. -/
structure ReadsBack (p : ShownParam) : Prop where
  hint : ∀ t, p.hint? = some t → StandsAlone t.nesting t.text.toList
  default : ∀ d, p.default? = some d → StandsAlone d.nesting d.text.toList
  plain : p.kind.isVariadic = false → StandsForArgument p.nesting p.item.toList p.slot.1
    (String.ofList (Text.collapse p.type.text.toList)) (p.default?.map ShownDefault.text) id
  variadic : p.kind.isVariadic = true → StandsForArgument 0 p.item.toList p.slot.1 "..." none fun _ => p.kind

theorem item_of_plain {p : ShownParam} (h : p.kind.isVariadic = false) :
    p.item = p.slot.1 ++ ":" ++ p.type.text ++ defaultText (p.default?.map ShownDefault.text) := by
  have htype : (p.hint?.map TypeExpr.text).getD "object" = p.type.text := by
    unfold type
    cases p.hint? <;> rfl
  unfold item
  dsimp only
  rw [htype]
  cases hkind : p.kind with
  | varPositional | varKeyword =>
    rw [hkind] at h
    cases h
  | positionalOnly | positionalOrKeyword | keywordOnly => cases p.default? <;> rfl

/-- A parameter that is not variadic, with pieces for its type and its default. -/
theorem readsBack_plain {p : ShownParam} (hnamed : Named p.slot) (hkind : p.kind.isVariadic = false)
    (htidy : p.type.Tidy) (htype : Piece NoMark p.type.nesting p.type.text.toList)
    (hdefault : ∀ d, p.default? = some d → Piece NoMark d.nesting d.text.toList) :
    StandsForArgument p.nesting p.item.toList p.slot.1 (String.ofList (Text.collapse p.type.text.toList))
      (p.default?.map ShownDefault.text) id := by
  have hclean : Clean p.slot.1 := by
    unfold Named slot at hnamed
    revert hnamed hkind
    cases p.kind with
    | positionalOnly | positionalOrKeyword | keywordOnly => exact fun h _ => h
    | varPositional | varKeyword => exact nofun
  obtain ⟨c, cs, hcons, hhead⟩ := head_text htidy
  have hmark : c ≠ ':' ∧ c ≠ '.' := by
    constructor <;> rintro rfl <;> revert hhead <;> decide
  rw [item_of_plain hkind]
  refine standsForArgument_plain hclean htype hcons hmark.1 hmark.2 ?_ ?_
  · intro text htext
    obtain ⟨d, hd, rfl⟩ := Option.map_eq_some_iff.1 htext
    rw [hd]
    exact hdefault d hd
  · intro hnone
    rw [Option.map_eq_none_iff.1 hnone]
    rfl

/-- A variadic parameter, which has a name that its kind is read with. -/
theorem readsBack_variadic {p : ShownParam} (hnamed : Named p.slot) (hkind : p.kind.isVariadic = true) :
    StandsForArgument 0 p.item.toList p.slot.1 "..." none fun _ => p.kind := by
  unfold Named at hnamed
  have hslot : p.slot.2 = p.kind := rfl
  rw [hslot] at hnamed
  unfold item
  dsimp only
  cases hk : p.kind with
  | positionalOnly | positionalOrKeyword | keywordOnly =>
    rw [hk] at hkind
    cases hkind
  | varPositional =>
    have harg : "arg_".toList.isPrefixOf "arg__1".toList = true := by decide
    have hdots := standsForArgument_dots (show Clean "arg__1" from ⟨by decide, by decide⟩)
    rw [hk] at hnamed
    simp only [harg, if_true] at hdots
    rw [hnamed]
    exact hdots
  | varKeyword =>
    rw [hk] at hnamed
    have hdots := standsForArgument_dots hnamed.1
    simp only [hnamed.2, Bool.false_eq_true, if_false] at hdots
    exact hdots

/-- **What is shown of a parameter can be read back**, if its type and its default are tidy and their unmapped tokens
are quotable. -/
theorem readsBack_of_tidy {p : ShownParam} (hnamed : Named p.slot) (hhint : ∀ t, p.hint? = some t → t.Tidy)
    (hdefault : ∀ d, p.default? = some d → d.Tidy) (hquotable : ∀ token ∈ p.unmappedTokens, Quotable token = true) :
    p.ReadsBack := by
  obtain ⟨hq, hq'⟩ := List.forall_mem_append.1 hquotable
  have htidy : p.type.Tidy := by
    unfold type
    cases hh : p.hint? with
    | none => exact .builtin .object
    | some t => exact hhint t hh
  have htype := piece_text htidy hq
  have hpiece (d : ShownDefault) (hd : p.default? = some d) : Piece NoMark d.nesting d.text.toList := by
    rw [hd] at hq'
    exact ShownDefault.piece_text (hdefault d hd) hq'
  refine ⟨fun t ht => ?_, fun d hd => (hpiece d hd).standsAlone, fun hkind => ?_, readsBack_variadic hnamed⟩
  · have heq : p.type = t := by
      unfold type
      rw [ht]
      rfl
    exact (heq ▸ htype).standsAlone
  · exact readsBack_plain hnamed hkind htidy htype hpiece

end ShownParam

/-! ## Variants -/

namespace Variant

/-- Every parameter that a layout with names shows has a name that its kind is read with. -/
theorem named_render {v : Variant} (hnamed : ∀ p ∈ v.params, Named p.slot) (binding : Binding) {layout : Layout}
    (hnames : layout.names = true) : ∀ p ∈ (v.render binding layout).params, Named p.slot := by
  intro p hp
  rcases List.mem_append.1 hp with hp | hp
  · rw [implicitParams_eq, Option.mem_toList, Option.map_eq_some_iff] at hp
    obtain ⟨name, hname, rfl⟩ := hp
    have hclean : Clean name := by
      unfold addedName? at hname
      split at hname
      · cases binding with
        | method =>
          obtain rfl := Option.some.inj hname
          exact ⟨by decide, by decide⟩
        | classMethod =>
          obtain rfl := Option.some.inj hname
          exact ⟨by decide, by decide⟩
        | function | staticMethod => cases hname
      · cases hname
    rw [hnames]
    exact named_of_clean hclean v.isVariadic_addedKind
  · obtain ⟨i, hi, rfl⟩ := List.mem_mapIdx.1 hp
    have hslot : (shownParam layout v.params[i] (v.defaultAt i)).slot = v.params[i].slot := by
      unfold shownParam ShownParam.slot
      rw [hnames]
      rfl
    rw [hslot]
    exact hnamed _ (List.getElem_mem hi)

/-- What a layout shows of a variant that is made of tidy values is tidy. -/
theorem tidy_render {v : Variant} (h : v.MadeOf Value.Tidy) (binding : Binding) (layout : Layout) :
    ∀ p ∈ (v.render binding layout).params,
      (∀ t, p.hint? = some t → t.Tidy) ∧ ∀ d, p.default? = some d → d.Tidy := by
  intro p hp
  rcases List.mem_append.1 hp with hp | hp
  · rw [implicitParams_eq, Option.mem_toList, Option.map_eq_some_iff] at hp
    obtain ⟨name, -, rfl⟩ := hp
    exact ⟨nofun, nofun⟩
  · obtain ⟨i, hi, rfl⟩ := List.mem_mapIdx.1 hp
    refine ⟨fun t ht => tidy_of_hintOf (h.hints _ (List.getElem_mem hi) t ht), fun d hd => ?_⟩
    have hd : shownDefault layout (v.defaultAt i) = some d := hd
    unfold shownDefault at hd
    split at hd
    · obtain ⟨value, hvalue, rfl⟩ := Option.map_eq_some_iff.1 hd
      split
      · trivial
      · exact h.defaults i value hvalue
    · cases hd

/-- **What is shown of an assembled line can be read back**, over the baseline with any classes and constants under
dotted paths, and after any resolutions: types and defaults stand alone, and the items are arguments. The depth that
they need is how deep they are written, and the unmapped tokens in them must be quotable. -/
theorem readsBack_of_assemble {line : String} {depth depth' : Nat} {descriptor : Descriptor}
    (hparse : Descriptor.parse depth line = .ok descriptor) {history : List Lexicon.Event}
    (hhistory : ∀ e ∈ history, e.Hosts) {optionalReturns : List String} {scope? : Option String} {v : Variant}
    (hassemble : (assemble depth' optionalReturns scope? descriptor (Lexicon.baseline.after history)).1 = .ok v)
    (binding : Binding) {layout : Layout} (hnames : layout.names = true) :
    ∀ p ∈ (v.render binding layout).params, (∀ token ∈ p.unmappedTokens, Quotable token = true) → p.ReadsBack := by
  have hnamed : ∀ p ∈ v.params, Named p.slot := by
    intro p hp
    have hmem := (comesFrom_of_assemble hassemble).params.subset (List.mem_map_of_mem hp)
    obtain ⟨arg, harg, hslot⟩ := List.mem_map.1 hmem
    rw [← hslot]
    exact (Descriptor.named_of_parse hparse).2 arg harg
  have hmade := madeOf_of_assemble Lexicon.preserved_tidy (Lexicon.hosted_after hhistory).holds hassemble
  intro p hp hquotable
  obtain ⟨hhint, hdefault⟩ := tidy_render hmade binding layout p hp
  exact ShownParam.readsBack_of_tidy (named_render hnamed binding hnames p hp) hhint hdefault hquotable

/-- What the line `f(a:core.Foo[]=None,b:Widget<int>=core.kOne,*,c:int[2]=0)` says. -/
def hostLine : Descriptor where
  index? := none
  scope := []
  name := "f"
  arguments :=
    [⟨"a", "core.Foo[]", some "None", .positionalOrKeyword, ⟨2, 19⟩⟩,
      ⟨"b", "Widget<int>", some "core.kOne", .positionalOrKeyword, ⟨20, 43⟩⟩,
      ⟨"c", "int[2]", some "0", .keywordOnly, ⟨46, 56⟩⟩]
  result? := none
  nameSpan := ⟨0, 1⟩

/-- A class and a constant of a host module. -/
def hostHistory : List Lexicon.Event :=
  [.define "core.Foo" (.type (.ofPath "core.Foo")), .define "core.kOne" (.constant "core.kOne")]

theorem readsBack_hostLine :
    Descriptor.parse 3 "f(a:core.Foo[]=None,b:Widget<int>=core.kOne,*,c:int[2]=0)" = .ok hostLine ∧
      (∀ e ∈ hostHistory, e.Hosts) ∧
      ∃ v, (assemble 3 [] none hostLine (Lexicon.baseline.after hostHistory)).1 = .ok v ∧ Layout.full.names = true ∧
        (v.render .method .full).params.map ShownParam.item = ["self:object", "a:Optional[Sequence[core.Foo]]=None",
          "b:'Widget<int>'=core.kOne", "c:Optional[Tuple[int, int]]=None"] ∧
        (∀ p ∈ (v.render .method .full).params, ∀ token ∈ p.unmappedTokens, Quotable token = true) ∧
        ∀ p ∈ (v.render .method .full).params, p.ReadsBack := by
  have hparse : Descriptor.parse 3 "f(a:core.Foo[]=None,b:Widget<int>=core.kOne,*,c:int[2]=0)" = .ok hostLine :=
    eq_ok_of_toOption (by decide +kernel)
  have hhistory : ∀ e ∈ hostHistory, e.Hosts := by
    simp only [hostHistory, List.forall_mem_cons]
    have hfoo : Dotted "core.Foo" := by
      unfold Dotted
      decide
    have hone : Dotted "core.kOne" := by
      unfold Dotted
      decide
    exact ⟨⟨hfoo, .inl rfl⟩, ⟨hone, .inr rfl⟩, List.forall_mem_nil _⟩
  have hvariant : ((assemble 3 [] none hostLine (Lexicon.baseline.after hostHistory)).1.toOption.map fun v =>
      ((v.render .method .full).params.map ShownParam.item,
        (v.render .method .full).params.flatMap ShownParam.unmappedTokens)) =
      some (["self:object", "a:Optional[Sequence[core.Foo]]=None", "b:'Widget<int>'=core.kOne",
        "c:Optional[Tuple[int, int]]=None"], ["Widget<int>"]) := by decide +kernel
  obtain ⟨v, hv, hshown⟩ := Option.map_eq_some_iff.1 hvariant
  obtain ⟨hitems, htokens⟩ := Prod.mk.inj hshown
  have hassemble := eq_ok_of_toOption hv
  have hquotable : ∀ p ∈ (v.render .method .full).params, ∀ token ∈ p.unmappedTokens, Quotable token = true := by
    intro p hp token htoken
    have hmem : token ∈ ["Widget<int>"] := htokens ▸ List.mem_flatMap.2 ⟨p, hp, htoken⟩
    rw [List.mem_singleton.1 hmem]
    exact quotable_of_notMem (by decide) (by decide)
  have hnames : Layout.full.names = true := rfl
  have hback := readsBack_of_assemble hparse hhistory hassemble .method hnames
  exact ⟨hparse, hhistory, v, hassemble, hnames, hitems, hquotable, fun p hp => hback p hp (hquotable p hp)⟩

/-- What the line `f(a:"p,q")` says. -/
def literalLine : Descriptor where
  index? := none
  scope := []
  name := "f"
  arguments := [⟨"a", "\"p,q\"", none, .positionalOrKeyword, ⟨2, 9⟩⟩]
  result? := none
  nameSpan := ⟨0, 1⟩

/-- **A string literal as a type** is not one piece: it has single quotes of its own, and the quotes that every
unmapped token is shown between do not escape them. -/
theorem not_standsAlone_literal :
    Descriptor.parse 3 "f(a:\"p,q\")" = .ok literalLine ∧
      ∃ v p t, (assemble 3 [] none literalLine Lexicon.baseline).1 = .ok v ∧
        (v.render .function .full).params = [p] ∧ p.hint? = some t ∧
        (∀ limit, splitText limit t.text.toList = .ok ["''p".toList, "q''".toList]) ∧
        (∀ n, ¬StandsAlone n t.text.toList) ∧ ¬p.ReadsBack := by
  have hvariant : ((assemble 3 [] none literalLine Lexicon.baseline).1.toOption.map fun v =>
      (v.render .function .full).params.map fun p => p.hint?.map TypeExpr.text) = some [some "''p,q''"] := by
    decide +kernel
  obtain ⟨v, hv, hhints⟩ := Option.map_eq_some_iff.1 hvariant
  obtain ⟨p, hp, hhint⟩ := List.map_eq_singleton_iff.1 hhints
  obtain ⟨t, ht, htext⟩ := Option.map_eq_some_iff.1 hhint
  have hlexes : ofText "''p,q''".toList = .ok [⟨.stringLiteral, [], "''".toList, 0⟩, ⟨.identifier, [], ['p'], 2⟩,
      ⟨.comma, [], [','], 3⟩, ⟨.identifier, [], ['q'], 4⟩, ⟨.stringLiteral, [], "''".toList, 5⟩] :=
    eq_ok_of_toOption (by decide +kernel)
  have hpieces (limit : Nat) : splitText limit t.text.toList = .ok ["''p".toList, "q''".toList] := by
    unfold splitText
    rw [htext, hlexes]
    rfl
  have halone (n : Nat) : ¬StandsAlone n t.text.toList := by
    intro h
    have hsingle := (h.single n).2 (Nat.le_refl n)
    rw [hpieces] at hsingle
    have hlength : 2 = 1 := congrArg List.length (Except.ok.inj hsingle)
    omega
  exact ⟨eq_ok_of_toOption (by decide +kernel), v, p, t, eq_ok_of_toOption hv, hp, ht, hpieces, halone,
    fun hback => halone _ (hback.hint t ht)⟩

end Variant

end CallSig
