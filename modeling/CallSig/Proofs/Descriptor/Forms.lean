import CallSig.Proofs.Descriptor.Places
import CallSig.Proofs.Lexeme.Collapsing

/-!
# `CallSig.Proofs.Descriptor.Forms` — the arguments of a line, one by one

The arguments that a line declares are read off its items from left to right, with the markers folded into their kinds.
Each of them comes from one derivation, and but for its kind and its place it says what the words of this derivation say.
So an argument that is read from the same words elsewhere is the same one, and a variadic argument is of the same kind.

## Contents
- **Arguments among items.** `forms`, `DeclaredBy`, `forall₂_argumentsFrom`, `map_eq_of_declared`.
- **Spans.** `ArgumentForm.span`, `flatten_forms_sublist`, `run_of_mem_forms`.
- **The same words.** `ArgumentForm.Alike`, with `variadic_eq`, `wellFormed`, `content_eq`; `exists_alike`.
-/

namespace CallSig.Grammar

open Lexeme

/-! ## Arguments among items -/

/-- The derivations of the arguments among the items. -/
def forms : List Item → List ArgumentForm
  | [] => []
  | .argument form :: items => form :: forms items
  | _ :: items => forms items

theorem mem_forms {form : ArgumentForm} {items : List Item} : form ∈ forms items ↔ .argument form ∈ items := by
  induction items with
  | nil => simp [forms]
  | cons item items ih => cases item <;> simp [forms, ih]

/-- The argument comes from this derivation; the markers around it decide about its kind. -/
def DeclaredBy (arg : Argument) (form : ArgumentForm) : Prop :=
  ∃ star slash, arg = form.argument (kindAt star slash)

theorem forall₂_argumentsFrom (star : Bool) (items : List Item) :
    List.Forall₂ DeclaredBy (argumentsFrom star items) (forms items) := by
  induction items generalizing star with
  | nil => exact .nil
  | cons item items ih =>
    cases item with
    | slash mark => exact ih star
    | star mark => exact ih true
    | argument form => exact .cons ⟨star, items.any Item.isSlash, rfl⟩ (ih star)

/-- What is the same for an argument and its derivation is the same for all of them. -/
theorem map_eq_of_declared {α : Type} {f : Argument → α} {g : ArgumentForm → α}
    (h : ∀ arg form, DeclaredBy arg form → f arg = g form) (star : Bool) (items : List Item) :
    (argumentsFrom star items).map f = (forms items).map g := by
  have hall : List.Forall₂ (fun arg form => f arg = g form) (argumentsFrom star items) (forms items) :=
    (forall₂_argumentsFrom star items).imp h
  rw [← List.forall₂_eq_eq_eq]
  exact List.forall₂_map_left_iff.2 (List.forall₂_map_right_iff.2 hall)

theorem exists_declared {star : Bool} {items : List Item} {arg : Argument} (h : arg ∈ argumentsFrom star items) :
    ∃ form ∈ forms items, DeclaredBy arg form := by
  have hall := forall₂_argumentsFrom star items
  generalize argumentsFrom star items = args, forms items = found at h hall
  induction hall with
  | nil => cases h
  | @cons _ form _ _ hfirst _ ih =>
    rcases List.mem_cons.1 h with rfl | h
    · exact ⟨form, List.mem_cons_self, hfirst⟩
    · obtain ⟨other, hmem, hother⟩ := ih h
      exact ⟨other, List.mem_cons_of_mem _ hmem, hother⟩

/-! ## Spans -/

/-- Where the argument stands. -/
def ArgumentForm.span (form : ArgumentForm) : Span :=
  runSpan form.name (form.colon :: (form.type ++ marked form.default?))

theorem span_argument (kind : ParamKind) (form : ArgumentForm) : (form.argument kind).span = form.span := by
  unfold ArgumentForm.argument
  split
  · split <;> rfl
  · rfl

/-- The parts of a run are found in it one after the other. -/
theorem Separated.flatten_sublist {P : List Lexeme → Prop} {xs : List Lexeme} {parts : List (List Lexeme)}
    (h : Separated P xs parts) : parts.flatten.Sublist xs := by
  induction h with
  | last => simp
  | comma _ _ _ ih =>
    rw [List.flatten_cons]
    exact (List.Sublist.refl _).append (ih.cons _)

theorem flatten_forms_sublist_items (items : List Item) :
    ((forms items).map ArgumentForm.lexemes).flatten.Sublist (items.map Item.lexemes).flatten := by
  induction items with
  | nil => exact .slnil
  | cons item items ih =>
    rw [List.map_cons, List.flatten_cons]
    cases item with
    | slash mark => exact ih.trans (List.sublist_append_right _ _)
    | star mark => exact ih.trans (List.sublist_append_right _ _)
    | argument form => exact (List.Sublist.refl _).append ih

/-- The arguments of a list are found in it one after the other. -/
theorem flatten_forms_sublist {depth : Nat} {inner : List Lexeme} {items : List Item} (h : IsList depth inner items) :
    ((forms items).map ArgumentForm.lexemes).flatten.Sublist inner := by
  rcases h with ⟨rfl, rfl⟩ | h
  · exact .slnil
  · exact (flatten_forms_sublist_items items).trans (Separated.flatten_sublist h)

theorem isInfix_inner (g : Line) : g.inner <:+: g.lexemes :=
  ⟨indexed g.index? ++ g.first :: (dotted g.more ++ [g.opened]), g.closed :: marked g.result?, by simp [Line.lexemes]⟩

/-- Every argument is a nested run of the line. -/
theorem run_of_mem_forms {depth : Nat} {g : Line} (h : g.WellFormed depth) {form : ArgumentForm}
    (hform : form ∈ forms g.items) : Nested NoComma depth form.lexemes ∧ form.lexemes <:+: g.lexemes := by
  have hmem := mem_forms.1 hform
  rcases h.list with ⟨-, hnil⟩ | hparts
  · rw [hnil] at hmem
    cases hmem
  · obtain ⟨hnested, hinfix⟩ := hparts.forall_mem _ (List.mem_map_of_mem hmem)
    exact ⟨hnested, List.IsInfix.trans hinfix (isInfix_inner g)⟩

/-! ## The same words -/

namespace ArgumentForm

/-- The arguments have the same words, up to blanks before the name and the colon. -/
structure Alike (form form' : ArgumentForm) : Prop where
  name : form'.name.token = form.name.token
  spelling : form'.name.text = form.name.text
  colon : form'.colon.token = form.colon.token
  type : form'.type.map word = form.type.map word
  default : (marked form'.default?).map word = (marked form.default?).map word

variable {form form' : ArgumentForm}

theorem map_token_of_map_word {xs ys : List Lexeme} (h : ys.map word = xs.map word) : ys.map token = xs.map token := by
  have htokens := congrArg (List.map Word.token) h
  rwa [List.map_map, List.map_map] at htokens

theorem runText_of_map_word {xs ys : List Lexeme} (h : ys.map word = xs.map word) : runText ys = runText xs := by
  rw [← spelled_bare, bare_eq_of_map_word h, spelled_bare]

theorem variadic_iff_tokens : form.variadic = true ↔ form.type.map token = [.ellipsis] := by
  unfold variadic
  rcases form.type with _ | ⟨x, _ | ⟨y, xs⟩⟩ <;> simp

theorem Alike.variadic_eq (h : Alike form form') : form'.variadic = form.variadic := by
  rw [Bool.eq_iff_iff, variadic_iff_tokens, variadic_iff_tokens, map_token_of_map_word h.type]

/-- A default is found among the same words. -/
theorem Alike.default_cases (h : Alike form form') :
    form'.default? = none ∧ form.default? = none ∨ ∃ mark part mark' part', form'.default? = some (mark', part') ∧
      form.default? = some (mark, part) ∧ mark'.token = mark.token ∧ part'.map word = part.map word := by
  have hwords := h.default
  cases hd : form.default? with
  | none =>
    cases hd' : form'.default? with
    | none => exact .inl ⟨rfl, rfl⟩
    | some found =>
      rw [hd, hd'] at hwords
      cases hwords
  | some found =>
    cases hd' : form'.default? with
    | none =>
      rw [hd, hd'] at hwords
      cases hwords
    | some found' =>
      rw [hd, hd'] at hwords
      obtain ⟨hmark, hpart⟩ := List.cons.inj hwords
      exact .inr ⟨found.1, found.2, found'.1, found'.2, rfl, rfl, congrArg Word.token hmark, hpart⟩

theorem Alike.wellFormed {depth : Nat} (h : Alike form form') (hw : form.WellFormed depth) :
    form'.WellFormed depth where
  name := h.name.trans hw.name
  colon := h.colon.trans hw.colon
  type_ne_nil := by
    intro hnil
    have hwords := h.type
    rw [hnil] at hwords
    exact hw.type_ne_nil (List.map_eq_nil_iff.1 hwords.symm)
  type_nested := hw.type_nested.congr (map_token_of_map_word h.type)
  default := by
    intro equal part hdefault
    rcases h.default_cases with ⟨hnone, -⟩ | ⟨mark, part₀, mark', part', hsome', hsome, htoken, hwords⟩
    · rw [hnone] at hdefault
      cases hdefault
    · obtain ⟨rfl, rfl⟩ := Prod.mk.inj (Option.some.inj (hsome'.symm.trans hdefault))
      obtain ⟨hequal, hne, hvariadic⟩ := hw.default mark part₀ hsome
      refine ⟨htoken.trans hequal, ?_, h.variadic_eq.trans hvariadic⟩
      rintro rfl
      exact hne (List.map_eq_nil_iff.1 hwords.symm)

theorem Alike.default_eq (h : Alike form form') :
    form'.default?.map (runText ∘ Prod.snd) = form.default?.map (runText ∘ Prod.snd) := by
  rcases h.default_cases with ⟨hnone', hnone⟩ | ⟨mark, part, mark', part', hsome', hsome, -, hwords⟩
  · rw [hnone', hnone]
  · rw [hsome', hsome]
    exact congrArg some (runText_of_map_word hwords)

/-- The same words declare the same, where their kind is decided alike. -/
theorem Alike.content_eq (h : Alike form form') (kind : ParamKind) :
    (form'.argument kind).content = (form.argument kind).content := by
  have hname := h.spelling
  have htype : runText form'.type = runText form.type := runText_of_map_word h.type
  have hdefault := congrArg (Option.map String.ofList) h.default_eq
  rw [Option.map_map, Option.map_map] at hdefault
  unfold argument
  dsimp only
  rw [h.variadic_eq, hname, htype]
  split
  · split <;> rfl
  · exact congrArg (fun default? => (escapeReserved _, String.ofList _, default?, kind)) hdefault

/-- The name, the type and the default do not depend on the kind, nor does the kind of a variadic argument. -/
theorem content_argument (form : ArgumentForm) (kind kind' : ParamKind) :
    (form.argument kind).name = (form.argument kind').name ∧
      (form.argument kind).typeToken = (form.argument kind').typeToken ∧
      (form.argument kind).default? = (form.argument kind').default? ∧
      (form.variadic = true → (form.argument kind).kind = (form.argument kind').kind) := by
  unfold argument
  by_cases hv : form.variadic = true
  · rw [if_pos hv, if_pos hv]
    split <;> exact ⟨rfl, rfl, rfl, fun _ => rfl⟩
  · rw [if_neg hv, if_neg hv]
    exact ⟨rfl, rfl, rfl, fun h => absurd h hv⟩

/-- The markers around an argument do not make it variadic. -/
theorem variadic_of_isVariadic {star slash : Bool}
    (h : (form.argument (kindAt star slash)).kind.isVariadic = true) : form.variadic = true := by
  by_contra hv
  unfold argument at h
  rw [if_neg hv] at h
  have hplain : (kindAt star slash).isVariadic = false := by cases star <;> cases slash <;> rfl
  exact absurd h (by simp [hplain])

/-- Lexemes with the words of an argument are an argument with these words. -/
theorem exists_alike {ys : List Lexeme} (h : ys.map word = bare form.lexemes) :
    ∃ form' : ArgumentForm, form'.lexemes = ys ∧ Alike form form' := by
  obtain ⟨name, ys, rfl, hname, h⟩ := List.map_eq_cons_iff.1 h
  obtain ⟨colon, ys, rfl, hcolon, h⟩ := List.map_eq_cons_iff.1 h
  rw [List.map_append] at h
  obtain ⟨type, back, rfl, htype, hback⟩ := List.map_eq_append_iff.1 h
  have hspelling : name.text = form.name.text := congrArg Word.text hname
  have hmarked : ∃ default?, back = marked default? := by
    cases back with
    | nil => exact ⟨none, rfl⟩
    | cons mark part => exact ⟨some (mark, part), rfl⟩
  obtain ⟨default?, rfl⟩ := hmarked
  exact ⟨⟨name, colon, type, default?⟩, rfl,
    ⟨congrArg Word.token hname, hspelling, congrArg Word.token hcolon, htype, hback⟩⟩

end ArgumentForm

end CallSig.Grammar
