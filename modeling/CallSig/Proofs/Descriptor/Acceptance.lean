import CallSig.Proofs.Descriptor.Grammar
import CallSig.Proofs.Descriptor.Names
import CallSig.Proofs.Lexeme.Scanning

/-!
# `CallSig.Proofs.Descriptor.Acceptance` — the parser accepts its grammar

The parser reads a line with four scanners: one looks for the closing round bracket and sees no others, one cuts at
commas and pairs all brackets, one looks for an equals sign and only counts brackets, and the last goes through the
items with a state. On a line with a derivation they all stop where the derivation says. On any other line one of
them fails, since what they return together is a derivation.

For each part of a line there are two statements: what the grammar has is read, and what is read the grammar has.

## Contents
- **Arguments.** `ArgumentForm.readArgument_eq`, `exists_form`.
- **Items.** `FitAfter`, `stateAfter`; `add_item` and `exists_item` (one item), `addAll_eq_ok_iff` (all items).
- **Lists.** `readArguments_eq_ok_iff`.
- **Heads and results.** `readIndex_indexed` and `exists_indexed`, `readSegments_dotted` and `exists_dotted`,
  `exists_closed`, `readResult_eq_ok_iff`.
- **Lines.** `parse_lexemes`, `exists_line`, `parse_eq_ok_iff`.
-/

namespace CallSig.Grammar

open Descriptor Lexeme

/-! ## Arguments -/

namespace ArgumentForm

variable {depth : Nat} {form : ArgumentForm}

theorem variadic_iff (hn : form.type ≠ []) (hf : FromText form.type) :
    form.variadic = true ↔ String.ofList (Text.collapse (runText form.type)) = "..." := by
  obtain ⟨x, xs, htype⟩ := List.exists_cons_of_ne_nil hn
  rw [htype] at hf
  unfold variadic
  rw [htype, collapse_runText_eq_dots_iff hf]
  cases xs <;> simp

theorem fromText_type (hf : FromText form.lexemes) : FromText form.type :=
  hf.infix ⟨[form.name, form.colon], marked form.default?, by simp [lexemes]⟩

/-- The type of a well-formed argument ends where its default begins. -/
theorem splitDefault_body (h : form.WellFormed depth) :
    splitDefault 0 (form.type ++ marked form.default?) = (form.type, form.default?.map Prod.snd) := by
  rw [h.type_nested.splitDefault_append (.inr fun _ ho => ho)]
  unfold marked
  cases hdefault : form.default? with
  | none => simp [splitDefault]
  | some found =>
    obtain ⟨equal, part⟩ := found
    obtain ⟨hequal, -, -⟩ := h.default equal part hdefault
    simp [splitDefault, hequal]

theorem WellFormed.default?_eq_none (h : form.WellFormed depth) (hv : form.variadic = true) : form.default? = none := by
  cases hd : form.default? with
  | none => rfl
  | some found =>
    obtain ⟨equal, part⟩ := found
    rw [(h.default equal part hd).2.2] at hv
    cases hv

/-- A well-formed argument is read as what it declares. -/
theorem readArgument_eq (h : form.WellFormed depth) (hf : FromText form.lexemes) (kind : ParamKind) :
    readArgument kind form.name (form.colon :: (form.type ++ marked form.default?)) = .ok (form.argument kind) := by
  have hvariadic := variadic_iff h.type_ne_nil (fromText_type hf)
  have hdefault : form.default?.map Prod.snd ≠ some [] := by
    intro hd
    obtain ⟨⟨equal, part⟩, hsome, rfl⟩ := Option.map_eq_some_iff.1 hd
    exact (h.default equal [] hsome).2.1 rfl
  unfold readArgument readTyped
  simp only [h.name, h.colon, ne_eq, not_true_eq_false, if_false, splitDefault_body h]
  rw [if_neg (by simpa using h.type_ne_nil), if_neg hdefault]
  by_cases hv : form.variadic = true
  · rw [if_pos (hvariadic.1 hv), if_neg (by simp [h.default?_eq_none hv]), argument, if_pos hv]
    split
    · rfl
    · rfl
  · rw [if_neg fun hdots => hv (hvariadic.2 hdots)]
    simp only [argument, hv, Option.map_map]
    rfl

end ArgumentForm

/-- The lexemes after the colon of an argument are divided into its type and its default. -/
theorem exists_division {depth : Nat} {body : List Lexeme} (h : Nested NoComma depth body) (name colon : Lexeme) :
    ∃ form : ArgumentForm, form.name = name ∧ form.colon = colon ∧ body = form.type ++ marked form.default? ∧
      Nested NoEqual depth form.type ∧ splitDefault 0 body = (form.type, form.default?.map Prod.snd) ∧
      ∀ equal part, form.default? = some (equal, part) → equal.token = .equal := by
  rcases splitDefault_eq h with ⟨hall, hsplit⟩ | ⟨front, equal, back, rfl, hequal, hfront, hsplit⟩
  · exact ⟨⟨name, colon, body, none⟩, rfl, rfl, (List.append_nil _).symm, hall, hsplit, nofun⟩
  · refine ⟨⟨name, colon, front, some (equal, back)⟩, rfl, rfl, rfl, hfront, hsplit, ?_⟩
    rintro _ _ ⟨⟩
    exact hequal

/-- What is read as an argument is a well-formed one. -/
theorem exists_form {kind : ParamKind} {depth : Nat} {first : Lexeme} {rest : List Lexeme} {arg : Argument}
    (hn : Nested NoComma depth (first :: rest)) (hf : FromText (first :: rest))
    (h : readArgument kind first rest = .ok arg) :
    ∃ form : ArgumentForm, form.lexemes = first :: rest ∧ form.WellFormed depth := by
  unfold readArgument at h
  dsimp only at h
  split at h
  · cases h
  next hfirst =>
  have hname : first.token = .identifier := Decidable.of_not_not hfirst
  split at h
  · cases h
  next x body =>
  split at h
  · cases h
  next hx =>
  have hcolon : x.token = .colon := Decidable.of_not_not hx
  have hbody : Nested NoComma depth body :=
    (hn.of_plain fun b => by simp [hname]).of_plain fun b => by simp [hcolon]
  obtain ⟨form, rfl, rfl, rfl, htype, hsplit, hequal⟩ := exists_division hbody first x
  -- the reader refuses an empty type, an empty default, and a default after three dots
  unfold readTyped at h
  rw [hsplit] at h
  dsimp only at h
  split at h
  · cases h
  next hne =>
  have hne : form.type ≠ [] := by simpa using hne
  split at h
  · cases h
  next hdefault =>
  refine ⟨form, rfl, hname, hcolon, hne, htype, fun equal part hsome => ⟨hequal equal part hsome, ?_, ?_⟩⟩
  · rintro rfl
    exact hdefault (by rw [hsome]; rfl)
  · rw [← Bool.not_eq_true, ArgumentForm.variadic_iff hne (ArgumentForm.fromText_type hf)]
    intro hdots
    rw [if_pos hdots, if_pos (by simp [hsome])] at h
    cases h

/-! ## Items -/

theorem lexemes_ne_nil (item : Item) : item.lexemes ≠ [] := by
  cases item with
  | slash | star => exact List.cons_ne_nil _ _
  | argument form => exact List.cons_ne_nil _ _

theorem isEmpty_argumentsFrom (star : Bool) (items : List Item) :
    (argumentsFrom star items).isEmpty = !items.any Item.isArgument := by
  induction items generalizing star with
  | nil => rfl
  | cons item items ih =>
    cases item with
    | slash => simp [argumentsFrom, Item.isArgument, ih]
    | star => simp [argumentsFrom, Item.isArgument, ih]
    | argument => rfl

theorem argumentsFrom_star (star : Bool) (items : List Item) (mark : Lexeme) :
    argumentsFrom star (items ++ [.star mark]) = argumentsFrom star items := by
  induction items generalizing star with
  | nil => rfl
  | cons item items ih =>
    cases item with
    | slash | star => exact ih _
    | argument => simp [argumentsFrom, Item.isSlash, ih]

theorem argumentsFrom_argument (star : Bool) (items : List Item) (form : ArgumentForm) :
    argumentsFrom star (items ++ [.argument form]) =
      argumentsFrom star items ++ [form.argument (kindAt (star || items.any Item.isStar) false)] := by
  induction items generalizing star with
  | nil => simp [argumentsFrom]
  | cons item items ih =>
    cases item with
    | slash => simp [argumentsFrom, Item.isStar, ih]
    | star => simp [argumentsFrom, Item.isStar, ih]
    | argument => simp [argumentsFrom, Item.isSlash, Item.isStar, ih]

/-- A slash makes an argument positional only, a variadic one excepted. -/
theorem beforeSlash_argument (form : ArgumentForm) (slash : Bool) :
    ItemState.beforeSlash (form.argument (kindAt false slash)) = form.argument (kindAt false true) := by
  unfold ItemState.beforeSlash ArgumentForm.argument
  by_cases hv : form.variadic = true
  · simp only [hv, if_true]
    split
    · rfl
    · rfl
  · simp only [hv]
    cases slash with
    | true => rfl
    | false => rfl

theorem argumentsFrom_slash {items : List Item} (h : items.any Item.isStar = false) (mark : Lexeme) :
    argumentsFrom false (items ++ [.slash mark]) = (argumentsFrom false items).map ItemState.beforeSlash := by
  induction items with
  | nil => rfl
  | cons item items ih =>
    rw [List.any_cons, Bool.or_eq_false_iff] at h
    cases item with
    | slash => exact ih h.2
    | star => cases h.1
    | argument form =>
      simp only [argumentsFrom, List.cons_append, List.map_cons, ih h.2, beforeSlash_argument]
      simp [Item.isSlash]

/-- The items may stand where they are, after these. -/
def FitAfter (front : List Item) : List Item → Prop
  | [] => True
  | item :: items => item.Fits front ∧ FitAfter (front ++ [item]) items

theorem fitAfter_iff {front items : List Item} :
    FitAfter front items ↔ ∀ before item after, items = before ++ item :: after → item.Fits (front ++ before) := by
  induction items generalizing front with
  | nil => simp [FitAfter]
  | cons item items ih =>
    rw [FitAfter, ih]
    constructor
    · rintro ⟨hitem, hitems⟩ before other after h
      cases before with
      | nil =>
        cases h
        rwa [List.append_nil]
      | cons _ before =>
        cases h
        simpa using hitems before other after rfl
    · intro h
      refine ⟨by simpa using h [] item items rfl, ?_⟩
      rintro before other after rfl
      simpa using h (item :: before) other after rfl

theorem fitAfter_nil_iff {items : List Item} : FitAfter [] items ↔ MarkersInPlace items := fitAfter_iff

/-- The state of the reader after these items. -/
def stateAfter (items : List Item) : ItemState :=
  ⟨argumentsFrom false items, items.any Item.isSlash, items.any Item.isStar⟩

variable {depth : Nat} {front : List Item} {first : Lexeme} {rest : List Lexeme} {s : ItemState}

/-- **One item**: where it may stand, the reader takes it. -/
theorem add_item {item : Item} (hi : item.lexemes = first :: rest) (hw : item.WellFormed depth)
    (hp : item.Fits front) (hf : FromText (first :: rest)) :
    (stateAfter front).add first rest = .ok (stateAfter (front ++ [item])) := by
  unfold ItemState.add
  cases item with
  | slash mark =>
    cases hi
    obtain ⟨hslash, hstar, hargument⟩ := hp
    have hempty : (argumentsFrom false front).isEmpty = false := by
      rw [isEmpty_argumentsFrom, hargument]
      rfl
    rw [if_pos ⟨rfl, hw⟩, if_neg (by simp [stateAfter, hslash, hstar, hempty])]
    simp [stateAfter, argumentsFrom_slash hstar, hstar, Item.isSlash, Item.isStar]
  | star mark =>
    cases hi
    have hw : first.token = .star := hw
    have hp : front.any Item.isStar = false := hp
    rw [if_neg (by simp [hw]), if_pos ⟨rfl, hw⟩, if_neg (by simp [stateAfter, hp])]
    simp [stateAfter, argumentsFrom_star, Item.isSlash, Item.isStar]
  | argument form =>
    cases hi
    rw [if_neg (by simp), if_neg (by simp)]
    have hkind : (if (stateAfter front).star then ParamKind.keywordOnly else .positionalOrKeyword) =
        kindAt (front.any Item.isStar) false := rfl
    simp only [hkind, form.readArgument_eq hw hf]
    simp [Except.map, stateAfter, argumentsFrom_argument, Item.isSlash, Item.isStar]

/-- **One item**: what the reader takes is an item that may stand there. -/
theorem exists_item (hn : Nested NoComma depth (first :: rest)) (hf : FromText (first :: rest))
    (h : (stateAfter front).add first rest = .ok s) :
    ∃ item : Item, item.lexemes = first :: rest ∧ item.WellFormed depth ∧ item.Fits front := by
  unfold ItemState.add at h
  split at h
  · next hmark =>
    obtain ⟨hrest, htoken⟩ := hmark
    obtain rfl : rest = [] := List.isEmpty_iff.1 hrest
    split at h
    · cases h
    · next hfree =>
      refine ⟨.slash first, rfl, htoken, ?_⟩
      simpa [stateAfter, isEmpty_argumentsFrom, Item.Fits] using hfree
  split at h
  · next hmark =>
    obtain ⟨hrest, htoken⟩ := hmark
    obtain rfl : rest = [] := List.isEmpty_iff.1 hrest
    split at h
    · cases h
    · next hfree => exact ⟨.star first, rfl, htoken, by simpa [stateAfter, Item.Fits] using hfree⟩
  · obtain ⟨arg, harg, -⟩ := eq_ok_of_map_eq_ok h
    obtain ⟨form, hform, hw⟩ := exists_form hn hf harg
    exact ⟨.argument form, hform, hw, trivial⟩

/-- **All items**: the reader goes through the parts of a list if and only if they are items that may stand there,
and its state is the one after them. -/
theorem addAll_eq_ok_iff (anchor : Span) {parts : List (List Lexeme)}
    (hn : ∀ part ∈ parts, Nested NoComma depth part) (hf : ∀ part ∈ parts, FromText part) :
    (stateAfter front).addAll anchor parts = .ok s ↔
      ∃ items, parts = items.map Item.lexemes ∧ (∀ item ∈ items, item.WellFormed depth) ∧ FitAfter front items ∧
        s = stateAfter (front ++ items) := by
  induction parts generalizing front with
  | nil =>
    constructor
    · intro h
      cases h
      exact ⟨[], rfl, List.forall_mem_nil _, trivial, by simp⟩
    · rintro ⟨items, hitems, -, -, rfl⟩
      obtain rfl := List.map_eq_nil_iff.1 hitems.symm
      simp [ItemState.addAll]
  | cons part parts ih =>
    obtain ⟨hpart, hparts⟩ := List.forall_mem_cons.1 hn
    obtain ⟨htext, htexts⟩ := List.forall_mem_cons.1 hf
    cases part with
    | nil =>
      -- no item is empty
      refine ⟨nofun, ?_⟩
      rintro ⟨items, hitems, -⟩
      obtain ⟨item, -, -, hitem, -⟩ := List.map_eq_cons_iff.1 hitems.symm
      exact absurd hitem (lexemes_ne_nil item)
    | cons first rest =>
      rw [ItemState.addAll]
      constructor
      · intro h
        split at h
        · next s₁ hadd =>
          obtain ⟨item, hitem, hw, hp⟩ := exists_item hpart htext hadd
          rw [add_item hitem hw hp htext] at hadd
          cases hadd
          obtain ⟨items, rfl, hitems, hfit, rfl⟩ := (ih hparts htexts).1 h
          refine ⟨item :: items, by rw [List.map_cons, hitem], ?_, ⟨hp, hfit⟩, by simp⟩
          exact List.forall_mem_cons.2 ⟨hw, hitems⟩
        · cases h
      · rintro ⟨items, hitems, hw, hfit, rfl⟩
        obtain ⟨item, items, rfl, hitem, rfl⟩ := List.map_eq_cons_iff.1 hitems.symm
        obtain ⟨hitemWell, hitemsWell⟩ := List.forall_mem_cons.1 hw
        rw [add_item hitem hitemWell hfit.1 htext]
        exact (ih hparts htexts).2 ⟨items, rfl, hitemsWell, hfit.2, by simp⟩

/-! ## Lists -/

theorem IsList.nested {inner : List Lexeme} {items : List Item} (h : IsList depth inner items) :
    Nested (fun _ => True) depth inner := by
  rcases h with ⟨rfl, -⟩ | h
  · exact .nil
  · exact h.nested

/-- **The list** between the round brackets is read if and only if it follows the grammar. -/
theorem readArguments_eq_ok_iff {inner : List Lexeme} {arguments : List Argument} (hf : FromText inner) :
    readArguments depth inner = .ok arguments ↔
      ∃ items, IsList depth inner items ∧ (∀ item ∈ items, item.WellFormed depth) ∧ MarkersInPlace items ∧
        arguments = argumentsFrom false items := by
  have hrun {parts : List (List Lexeme)} {s : ItemState} (anchor : Span)
      (hparts : ∀ part ∈ parts, Nested NoComma depth part ∧ part <:+: inner) :
      ItemState.start.addAll anchor parts = .ok s ↔ ∃ items, parts = items.map Item.lexemes ∧
        (∀ item ∈ items, item.WellFormed depth) ∧ FitAfter [] items ∧ s = stateAfter ([] ++ items) := by
    show (stateAfter []).addAll anchor parts = .ok s ↔ _
    exact addAll_eq_ok_iff anchor (fun part hp => (hparts part hp).1) fun part hp => hf.infix (hparts part hp).2
  constructor
  · intro h
    obtain ⟨parts, hpieces, h⟩ := eq_ok_of_bind_eq_ok h
    obtain ⟨s, hall, h⟩ := eq_ok_of_bind_eq_ok h
    cases h
    rcases pieces_eq_ok_iff.1 hpieces with ⟨rfl, rfl⟩ | ⟨-, hparts⟩
    · cases hall
      exact ⟨[], .inl ⟨rfl, rfl⟩, List.forall_mem_nil _, fitAfter_nil_iff.1 trivial, rfl⟩
    · obtain ⟨items, rfl, hw, hfit, rfl⟩ := (hrun _ hparts.forall_mem).1 hall
      exact ⟨items, .inr hparts, hw, fitAfter_nil_iff.1 hfit, rfl⟩
  · rintro ⟨items, hlist, hw, hmarkers, rfl⟩
    rcases hlist with ⟨rfl, rfl⟩ | hparts
    · rfl
    · -- the one part of an empty run would be an empty item
      have hinner : inner ≠ [] := by
        rintro rfl
        obtain ⟨item, -, -, hitem, -⟩ := List.map_eq_cons_iff.1 hparts.of_nil
        exact lexemes_ne_nil item hitem
      have hall := (hrun ((inner.head?.map Lexeme.span).getD ⟨0, 0⟩) hparts.forall_mem).2
        ⟨items, rfl, hw, fitAfter_nil_iff.2 hmarkers, rfl⟩
      unfold readArguments
      rw [pieces_eq_ok_iff.2 (.inr ⟨hinner, hparts⟩)]
      simp only [bind, Except.bind]
      rw [hall]
      rfl

/-! ## Heads and results -/

theorem naturalFrom?_digits {cs : List Char} (h : ∀ c ∈ cs, c.isDigit = true) (n : Nat) :
    Text.naturalFrom? 10 n cs = some (cs.foldl (fun n c => 10 * n + (c.toNat - '0'.toNat)) n) := by
  induction cs generalizing n with
  | nil => rfl
  | cons c cs ih =>
    obtain ⟨hc, hcs⟩ := List.forall_mem_cons.1 h
    have hbounds : 48 ≤ c.toNat ∧ c.toNat ≤ 57 := by simpa [Char.isDigit, UInt32.le_iff_toNat_le] using hc
    have hdigit : Text.digitValue? 10 c = some (c.toNat - '0'.toNat) := by
      unfold Text.digitValue?
      rw [if_pos hc]
      exact if_pos (by simp only [Char.reduceToNat]; omega)
    rw [Text.naturalFrom?, hdigit, Option.bind_some, ih hcs, List.foldl_cons, Nat.mul_comm]

/-- The word that digits write is their number, if a machine word holds it. -/
theorem word?_digits {cs : List Char} (hne : cs ≠ []) (h : ∀ c ∈ cs, c.isDigit = true) :
    Text.word? cs = if decimal cs < Text.wordBound then some (decimal cs) else none := by
  have hsign : ∀ rest, cs ≠ '+' :: rest := by
    rintro rest rfl
    exact absurd (h '+' List.mem_cons_self) (by decide)
  have hnatural : Text.natural? 10 cs = some (decimal cs) := by
    unfold Text.natural?
    rw [if_neg (by simpa using hne), naturalFrom?_digits h]
    rfl
  unfold Text.word?
  split
  · exact absurd rfl (hsign _)
  · dsimp only
    rw [hnatural, Option.bind_some]

theorem word?_of_integer {x : Lexeme} {xs : List Lexeme} (hf : FromText (x :: xs)) (hx : x.token = .integer) :
    Text.word? x.text = if decimal x.text < Text.wordBound then some (decimal x.text) else none := by
  obtain ⟨tail, hreads, -⟩ := hf
  obtain ⟨hne, hdigits⟩ := hreads.isDigit hx
  exact word?_digits hne hdigits

theorem readIndex_indexed {index? : Option (Lexeme × Lexeme)} (h : IsIndex index?) {first : Lexeme}
    (hfirst : first.token = .identifier) {rest : List Lexeme} (hf : FromText (indexed index?)) :
    readIndex (indexed index? ++ first :: rest) =
      .ok (index?.map fun (digits, _) => decimal digits.text, first :: rest) := by
  cases index? with
  | none => exact readIndex_name hfirst rest
  | some found =>
    obtain ⟨digits, colon⟩ := found
    obtain ⟨hdigits, hbound, hcolon⟩ := h digits colon rfl
    have hbound : decimal digits.text < Text.wordBound := hbound
    have hword : Text.word? digits.text = some (decimal digits.text) := by
      rw [word?_of_integer hf hdigits, if_pos hbound]
    simp only [indexed, List.cons_append, List.nil_append, readIndex, hdigits, hcolon, and_self, if_true, hword]
    rfl

theorem exists_indexed {xs rest : List Lexeme} {n? : Option Nat} (hf : FromText xs)
    (h : readIndex xs = .ok (n?, rest)) : ∃ index?, xs = indexed index? ++ rest ∧ IsIndex index? := by
  unfold readIndex at h
  split at h
  · next digits colon rest' =>
    split at h
    · next htokens =>
      rw [word?_of_integer hf htokens.1] at h
      by_cases hbound : decimal digits.text < Text.wordBound
      · rw [if_pos hbound] at h
        cases h
        refine ⟨some (digits, colon), rfl, ?_⟩
        rintro _ _ ⟨⟩
        exact ⟨htokens.1, hbound, htokens.2⟩
      · rw [if_neg hbound] at h
        cases h
    · cases h
      exact ⟨none, rfl, isIndex_none⟩
  · cases h
    exact ⟨none, rfl, isIndex_none⟩

theorem readSegments_dotted (stop : Nat) {more : List (Lexeme × Lexeme)} (h : AreDotted more) {opened : Lexeme}
    (ho : opened.token = .opening .round) (rest : List Lexeme) :
    readSegments stop (dotted more ++ opened :: rest) = .ok (more.map Prod.snd, opened :: rest) := by
  induction more with
  | nil =>
    have hdot : opened.token ≠ .dot := by simp [ho]
    cases rest <;> simp [dotted, readSegments, hdot]
  | cons found more ih =>
    obtain ⟨dot, name⟩ := found
    obtain ⟨hdot, hname⟩ := h dot name List.mem_cons_self
    have hmore := ih fun dot name hmem => h dot name (List.mem_cons_of_mem _ hmem)
    show readSegments stop (dot :: name :: (dotted more ++ opened :: rest)) = _
    rw [readSegments, if_pos hdot, if_pos hname, hmore]
    rfl

theorem exists_dotted {stop : Nat} {xs : List Lexeme} :
    ∀ {names rest : List Lexeme}, readSegments stop xs = .ok (names, rest) →
      ∃ more, xs = dotted more ++ rest ∧ AreDotted more := by
  fun_induction readSegments stop xs with
  | case1 =>
    intro names rest h
    cases h
    exact ⟨[], rfl, areDotted_nil⟩
  | case2 | case5 =>
    intro names rest h
    cases h
  | case3 | case6 =>
    intro names rest h
    cases h
    exact ⟨[], rfl, areDotted_nil⟩
  | case4 dot name tail hdot hname ih =>
    intro names rest h
    obtain ⟨⟨names, rest⟩, htail, he⟩ := eq_ok_of_map_eq_ok h
    cases he
    obtain ⟨more, rfl, hmore⟩ := ih htail
    refine ⟨(dot, name) :: more, rfl, ?_⟩
    intro dot' name' hmem
    rcases List.mem_cons.1 hmem with he | hmem
    · cases he
      exact ⟨hdot, hname⟩
    · exact hmore dot' name' hmem

theorem exists_closed {open_ : Nat} {xs : List Lexeme} :
    ∀ {inner rest : List Lexeme}, untilClose? open_ xs = some (inner, rest) →
      ∃ closed, xs = inner ++ closed :: rest ∧ closed.token = .closing .round := by
  fun_induction untilClose? open_ xs with
  | case1 =>
    intro inner rest h
    cases h
  | case2 open_ x xs hx =>
    intro inner rest h
    cases h
    exact ⟨x, rfl, hx.1⟩
  | case3 open_ x xs _ _ =>
    rename_i ih
    intro inner rest h
    obtain ⟨⟨inner, rest⟩, htail, he⟩ := Option.map_eq_some_iff.1 h
    cases he
    obtain ⟨closed, rfl, hclosed⟩ := ih htail
    exact ⟨closed, rfl, hclosed⟩

/-- The rest of a line is read if and only if it is a result. -/
theorem readResult_eq_ok_iff (stop : Nat) {xs : List Lexeme} {token? : Option String} :
    readResult stop xs = .ok token? ↔
      ∃ result?, xs = marked result? ∧ IsResult result? ∧
        token? = result?.map fun (_, part) => String.ofList (Text.collapse (runText part)) := by
  constructor
  · intro h
    unfold readResult at h
    split at h
    · cases h
      exact ⟨none, rfl, isResult_none, rfl⟩
    · next arrow part =>
      split at h
      · next harrow =>
        split at h
        · cases h
        · next hne =>
          cases h
          refine ⟨some (arrow, part), rfl, ?_, rfl⟩
          rintro _ _ ⟨⟩
          exact ⟨harrow, by simpa using hne⟩
      · cases h
  · rintro ⟨result?, rfl, hresult, rfl⟩
    cases result? with
    | none => rfl
    | some found =>
      obtain ⟨arrow, part⟩ := found
      obtain ⟨harrow, hne⟩ := hresult arrow part rfl
      rw [marked, readResult, if_pos harrow, if_neg (by simpa using hne)]
      rfl

/-! ## Lines -/

/-- **A line of the grammar** is read as what it declares. -/
theorem parse_lexemes {depth : Nat} {line : String} {g : Line} (hline : ofText line.toList = .ok g.lexemes)
    (h : g.WellFormed (parserDepth depth)) : parse depth line = .ok g.descriptor := by
  have hf : FromText g.lexemes := fromText_of_ofText hline
  have hindex : FromText (indexed g.index?) := hf.infix (List.prefix_append _ _).isInfix
  have hinner : FromText g.inner := hf.infix ⟨indexed g.index? ++ g.first :: (dotted g.more ++ [g.opened]),
    g.closed :: marked g.result?, by simp [Line.lexemes]⟩
  have hname (stop : Nat) : readName stop
      (g.first :: (dotted g.more ++ g.opened :: (g.inner ++ g.closed :: marked g.result?))) =
        .ok (g.first, g.more.map Prod.snd, g.opened :: (g.inner ++ g.closed :: marked g.result?)) := by
    unfold readName
    rw [expect_cons h.first]
    simp only [bind, Except.bind, readSegments_dotted stop h.more h.opened]
    rfl
  have hclose : untilClose? 0 (g.inner ++ g.closed :: marked g.result?) = some (g.inner, marked g.result?) := by
    rw [h.list.nested.untilClose?_append, untilClose?, if_pos ⟨h.closed, rfl⟩]
    simp
  have harguments := (readArguments_eq_ok_iff hinner).2 ⟨g.items, h.list, h.items, h.markers, rfl⟩
  have hresult := (readResult_eq_ok_iff (Text.width line.toList)).2 ⟨g.result?, rfl, h.result, rfl⟩
  unfold parse
  simp only [bind, Except.bind, hline, Line.lexemes, readIndex_indexed h.index h.first hindex, hname,
    expect_cons h.opened, hclose, harguments, hresult]
  rfl

/-- **A line that is read** is a line of the grammar. -/
theorem exists_line {depth : Nat} {line : String} {d : Descriptor} (h : parse depth line = .ok d) :
    ∃ g : Line, ofText line.toList = .ok g.lexemes ∧ g.WellFormed (parserDepth depth) := by
  obtain ⟨xs, hline, h⟩ := eq_ok_of_bind_eq_ok h
  have hf : FromText xs := fromText_of_ofText hline
  obtain ⟨⟨n?, xs₁⟩, readIndex, h⟩ := eq_ok_of_bind_eq_ok h
  obtain ⟨⟨first, names, xs₂⟩, readName, h⟩ := eq_ok_of_bind_eq_ok h
  obtain ⟨⟨opened, xs₃⟩, readOpened, h⟩ := eq_ok_of_bind_eq_ok h
  dsimp only at h
  split at h
  · next found readInner =>
    obtain ⟨inner, xs₄⟩ := found
    obtain ⟨arguments, readList, h⟩ := eq_ok_of_bind_eq_ok (r := readArguments (parserDepth depth) inner) h
    obtain ⟨token?, readResult, -⟩ := eq_ok_of_bind_eq_ok h
    obtain ⟨⟨first', xs₁'⟩, readFirst, readName⟩ := eq_ok_of_bind_eq_ok readName
    obtain ⟨⟨names', xs₂'⟩, readMore, readName⟩ := eq_ok_of_bind_eq_ok readName
    cases readName
    -- each step says what it has taken off the line, from the left to the right
    obtain ⟨index?, rfl, hindex⟩ := exists_indexed hf readIndex
    obtain ⟨rfl, hfirst⟩ := of_expect readFirst
    obtain ⟨more, rfl, hmore⟩ := exists_dotted readMore
    obtain ⟨rfl, hopened⟩ := of_expect readOpened
    obtain ⟨closed, rfl, hclosed⟩ := exists_closed readInner
    obtain ⟨result?, rfl, hresult, -⟩ := (readResult_eq_ok_iff _).1 readResult
    have hinner : FromText inner := hf.infix
      ⟨indexed index? ++ first :: (dotted more ++ [opened]), closed :: marked result?, by simp⟩
    obtain ⟨items, hlist, hitems, hmarkers, -⟩ := (readArguments_eq_ok_iff hinner).1 readList
    exact ⟨⟨index?, first, more, opened, inner, items, closed, result?⟩, hline,
      ⟨hindex, hfirst, hmore, hopened, hlist, hitems, hmarkers, hclosed, hresult⟩⟩
  · cases h

/-- **Acceptance**: a line is read if and only if it has a derivation, and what is read is what the derivation
declares. -/
theorem parse_eq_ok_iff {depth : Nat} {line : String} {d : Descriptor} :
    parse depth line = .ok d ↔
      ∃ g : Line, ofText line.toList = .ok g.lexemes ∧ g.WellFormed (parserDepth depth) ∧ d = g.descriptor := by
  constructor
  · intro h
    obtain ⟨g, hline, hw⟩ := exists_line h
    rw [parse_lexemes hline hw] at h
    cases h
    exact ⟨g, hline, hw, rfl⟩
  · rintro ⟨g, hline, hw, rfl⟩
    exact parse_lexemes hline hw

theorem default?_eq_none_of_variadic {star : Bool} {items : List Item} {arg : Argument}
    (hmem : arg ∈ argumentsFrom star items) (hv : arg.kind.isVariadic = true) : arg.default? = none := by
  induction items generalizing star with
  | nil => cases hmem
  | cons item items ih =>
    cases item with
    | slash | star => exact ih hmem
    | argument form =>
      rcases List.mem_cons.1 hmem with rfl | hmem
      · unfold ArgumentForm.argument at hv ⊢
        split
        · split
          · rfl
          · rfl
        · next hplain =>
          -- no place in a list makes an argument variadic
          rw [if_neg hplain] at hv
          exact absurd hv (by unfold kindAt; split <;> (try split) <;> exact Bool.false_ne_true)
      · exact ih hmem

/-- A variadic argument of a line has no default. -/
theorem default?_eq_none_of_parse {depth : Nat} {line : String} {d : Descriptor} (h : parse depth line = .ok d)
    {arg : Argument} (hmem : arg ∈ d.arguments) (hv : arg.kind.isVariadic = true) : arg.default? = none := by
  obtain ⟨g, -, -, rfl⟩ := parse_eq_ok_iff.1 h
  exact default?_eq_none_of_variadic hmem hv

end CallSig.Grammar
