import CallSig.Lexicon.Modules
import CallSig.Proofs.Descriptor.Spans
import CallSig.Proofs.Variant.Rejection

/-!
# `CallSig.Proofs.Variant.Duplicates` — which names become the same

Before the names of a line are compared, they are made names of the host language: a reserved word gets an underscore,
and every variadic argument that collects positional values is called `args`. Both are mappings that are one-to-one but
for what is written in the line under the new name already. So names that are spelled differently are taken for the same
only where one of them is renamed to the other, or two arguments collect positional values.

## Contents
- **Escapes.** `escapeReserved_eq_iff`, `escapeReserved_eq_args_iff`, `plain_of_arg`.
- **Spelled names.** `Text.afterBytes`, `Argument.spelling`; `takeWhile_of_isLongest`, `spelling_of_declared`.
- **Renaming.** `Argument.Renamed`, `renamed_of_parse`.
- **Clashes.** `Argument.BecomesNameOf`, `Argument.Clash`, `name_eq_iff_clash`, `nodup_names_iff`.
- **Lines.** `not_duplicate_of_nodup`, `error_of_not_nodup`; `duplicates_only_by_clash`.
-/

namespace CallSig

open Text

/-! ## Escapes -/

/-- **Two names are escaped to the same** only if they are the same, or one is a reserved word and the other is its
escape. -/
theorem escapeReserved_eq_iff {x y : String} :
    escapeReserved x = escapeReserved y ↔
      x = y ∨ (isReserved x = true ∧ y = x ++ "_") ∨ (isReserved y = true ∧ x = y ++ "_") := by
  have hescaped {x : String} (hx : isReserved x = true) : isReserved (x ++ "_") = false :=
    not_reserved_escaped x (mem_reservedWords hx)
  constructor
  · intro h
    unfold escapeReserved at h
    by_cases hx : isReserved x = true
    · by_cases hy : isReserved y = true
      · rw [if_pos hx, if_pos hy] at h
        exact .inl (String.append_left_inj "_" |>.1 h)
      · rw [if_pos hx, if_neg hy] at h
        exact .inr (.inl ⟨hx, h.symm⟩)
    · by_cases hy : isReserved y = true
      · rw [if_neg hx, if_pos hy] at h
        exact .inr (.inr ⟨hy, h⟩)
      · rw [if_neg hx, if_neg hy] at h
        exact .inl h
  · rintro (rfl | ⟨hx, rfl⟩ | ⟨hy, rfl⟩)
    · rfl
    · rw [escapeReserved_of_not_reserved (hescaped hx), escapeReserved, if_pos hx]
    · rw [escapeReserved_of_not_reserved (hescaped hy), escapeReserved, if_pos hy]

theorem escapeReserved_eq_args_iff {x : String} : escapeReserved x = "args" ↔ x = "args" := by
  have hargs : escapeReserved "args" = "args" := by decide +kernel
  have hword : ∀ word ∈ reservedWords, word ++ "_" ≠ "args" := by decide +kernel
  constructor
  · intro h
    unfold escapeReserved at h
    split at h
    · next hx => exact absurd h (hword x (mem_reservedWords hx))
    · exact h
  · rintro rfl
    exact hargs

/-- A name that begins like one that collects positional values is no reserved word, is none's escape, and is not what
such names become. -/
theorem plain_of_arg {x : String} (h : "arg_".toList.isPrefixOf x.toList = true) :
    x ≠ "args" ∧ isReserved x = false ∧ ∀ word, isReserved word = true → x ≠ word ++ "_" := by
  have hwords : ∀ word ∈ reservedWords, "arg_".toList.isPrefixOf word.toList = false := by decide +kernel
  refine ⟨?_, ?_, fun word hword => ?_⟩
  · rintro rfl
    revert h
    decide +kernel
  · rw [← Bool.not_eq_true]
    intro hx
    rw [hwords x (mem_reservedWords hx)] at h
    cases h
  · rintro rfl
    rw [not_arg_escaped word (mem_reservedWords hword)] at h
    cases h

/-! ## Spelled names -/

/-- What is left of a text behind so many bytes. -/
def Text.afterBytes (n : Nat) : List Char → List Char
  | [] => []
  | c :: cs => if n = 0 then c :: cs else afterBytes (n - c.utf8Size) cs

theorem Text.afterBytes_width (before rest : List Char) : afterBytes (width before) (before ++ rest) = rest := by
  induction before with
  | nil => cases rest <;> rfl
  | cons c before ih =>
    have hpos := c.utf8Size_pos
    have hrest : width (c :: before) - c.utf8Size = width before := by
      rw [width_cons]
      omega
    rw [List.cons_append, afterBytes, if_neg (by rw [width_cons]; omega), hrest, ih]

/-- The name that the argument begins with in its line. -/
def Argument.spelling (cs : List Char) (arg : Argument) : String :=
  String.ofList ((afterBytes arg.span.start cs).takeWhile isNamePart)

namespace Lexeme

theorem isName_of_spells {text : List Char} (h : Spells .identifier text) : IsName text := by
  cases h with
  | identifier h => exact h
  | sign h => exact absurd h (ofChar?_ne_identifier _)

/-- An identifier ends where its characters end. -/
theorem takeWhile_of_isLongest {text after : List Char} (h : IsLongest .identifier text after) :
    (text ++ after).takeWhile isNamePart = text := by
  obtain ⟨c, more, rfl, hc, hmore⟩ := isName_of_spells h.1
  have hall : ∀ d ∈ c :: more, isNamePart d = true :=
    List.forall_mem_cons.2 ⟨Word.isNamePart_of_isNameStart hc, hmore⟩
  have hnext : ∀ d ∈ more ++ after.takeWhile isNamePart, isNamePart d = true :=
    List.forall_mem_append.2 ⟨hmore, fun d hd => List.all_eq_true.1 List.all_takeWhile d hd⟩
  -- with what follows it would be a longer identifier
  have hlonger := h.2 .identifier (c :: (more ++ after.takeWhile isNamePart)) (.identifier ⟨c, _, rfl, hc, hnext⟩) ?_
  · have hnone : after.takeWhile isNamePart = [] := by
      apply List.eq_nil_of_length_eq_zero
      simp only [List.length_cons, List.length_append] at hlonger
      omega
    rw [List.takeWhile_append_of_pos hall, hnone, List.append_nil]
  · rw [List.cons_append, List.cons_prefix_cons]
    exact ⟨rfl, List.prefix_append_right_inj more |>.2 (List.takeWhile_prefix _)⟩

end Lexeme

/-! ## Renaming -/

/-- **What a name becomes**: the name of the argument as it follows from the spelled one. -/
structure Argument.Renamed (cs : List Char) (arg : Argument) : Prop where
  name : arg.name = if arg.kind = .varPositional then "args" else escapeReserved (arg.spelling cs)
  /-- Only a name that begins so collects positional values. -/
  collects : arg.kind = .varPositional → "arg_".toList.isPrefixOf (arg.spelling cs).toList = true

namespace Grammar

open Lexeme

theorem renamed_argument {cs : List Char} {form : ArgumentForm} {star slash : Bool}
    (h : (form.argument (kindAt star slash)).spelling cs = String.ofList form.name.text) :
    (form.argument (kindAt star slash)).Renamed cs := by
  have hplain : kindAt star slash ≠ .varPositional := by cases star <;> cases slash <;> decide
  by_cases hv : form.variadic = true
  · by_cases harg : "arg_".toList.isPrefixOf form.name.text = true
    · have hform : form.argument (kindAt star slash) =
          ⟨"args", String.ofList (collapse (runText form.type)), none, .varPositional, form.span⟩ := by
        rw [ArgumentForm.argument, if_pos hv, if_pos harg, ArgumentForm.span]
      have hlist : (String.ofList form.name.text).toList = form.name.text := String.toList_ofList
      have hspelled : "arg_".toList.isPrefixOf (String.ofList form.name.text).toList = true := by rw [hlist, harg]
      rw [hform] at h ⊢
      exact ⟨rfl, fun _ => h ▸ hspelled⟩
    · have hform : form.argument (kindAt star slash) =
          ⟨escapeReserved (String.ofList form.name.text), String.ofList (collapse (runText form.type)), none,
            .varKeyword, form.span⟩ := by
        rw [ArgumentForm.argument, if_pos hv, if_neg harg, ArgumentForm.span]
      have hkind : ParamKind.varKeyword ≠ .varPositional := by decide
      rw [hform] at h ⊢
      refine ⟨?_, fun hcollects => absurd hcollects hkind⟩
      rw [if_neg hkind, h]
  · have hkind : (form.argument (kindAt star slash)).kind = kindAt star slash := by
      rw [ArgumentForm.argument, if_neg hv]
    refine ⟨?_, fun hcollects => absurd (hkind ▸ hcollects) hplain⟩
    rw [hkind, if_neg hplain, h, ArgumentForm.argument, if_neg hv]

/-- An argument begins with its name. -/
theorem spelling_of_declared {cs : List Char} {xs : List Lexeme} (ht : Tiled [] 0 cs xs) {depth : Nat}
    {form : ArgumentForm} (hw : form.WellFormed depth) (hform : form.lexemes <:+: xs) (kind : ParamKind) :
    (form.argument kind).spelling cs = String.ofList form.name.text := by
  have hname : form.name ∈ xs := hform.subset List.mem_cons_self
  obtain ⟨before, after, htext, hspan, hlongest⟩ := ht.placed [] rfl _ hname
  have hspan' : form.span = ⟨form.name.span.start, _⟩ := runSpan_eq_of_sublist ht hform.sublist
  have hstart : (form.argument kind).span.start = width before := by rw [span_argument, hspan', hspan]
  rw [hw.name, List.append_nil] at hlongest
  unfold Argument.spelling
  rw [hstart, show cs = before ++ (form.name.text ++ after) by simpa using htext, afterBytes_width,
    takeWhile_of_isLongest hlongest]

theorem renamed_of_parse {depth : Nat} {line : String} {d : Descriptor} (h : Descriptor.parse depth line = .ok d) :
    ∀ arg ∈ d.arguments, arg.Renamed line.toList := by
  obtain ⟨g, hline, hw⟩ := exists_line h
  rw [parse_lexemes hline hw] at h
  cases h
  intro arg harg
  obtain ⟨form, hform, star, slash, rfl⟩ := exists_declared harg
  apply renamed_argument
  exact spelling_of_declared (scan_eq_ok_iff.1 hline) (hw.items _ (mem_forms.1 hform)) (run_of_mem_forms hw hform).2 _

end Grammar

/-! ## Clashes -/

namespace Argument

variable {cs : List Char} {a b : Argument}

/-- The first argument is renamed to what the second one is called: to `args`, where the second one is called so, or to a
reserved word with an underscore, where this is how the second one is spelled. -/
def BecomesNameOf (cs : List Char) (a b : Argument) : Prop :=
  (a.kind = .varPositional ∧ (b.kind = .varPositional ∨ b.spelling cs = "args")) ∨
    (isReserved (a.spelling cs) = true ∧ b.spelling cs = a.spelling cs ++ "_")

instance (cs : List Char) (a b : Argument) : Decidable (BecomesNameOf cs a b) := inferInstanceAs (Decidable (_ ∨ _))

/-- One of the two is renamed to what the other one is called. -/
def Clash (cs : List Char) (a b : Argument) : Prop := BecomesNameOf cs a b ∨ BecomesNameOf cs b a

instance (cs : List Char) (a b : Argument) : Decidable (Clash cs a b) := inferInstanceAs (Decidable (_ ∨ _))

theorem clash_comm : Clash cs a b ↔ Clash cs b a := Or.comm

/-- An argument that collects positional values is called like another one only if that one does so too, or is spelled
like it. -/
theorem name_eq_iff_clash_of_collects (ha : a.Renamed cs) (hb : b.Renamed cs) (hkind : a.kind = .varPositional) :
    a.name = b.name ↔ Clash cs a b := by
  obtain ⟨-, hreserved, hescape⟩ := plain_of_arg (ha.collects hkind)
  rw [ha.name, if_pos hkind, hb.name]
  by_cases hkind' : b.kind = .varPositional
  · rw [if_pos hkind']
    exact iff_of_true rfl (.inl (.inl ⟨hkind, .inl hkind'⟩))
  · rw [if_neg hkind', eq_comm, escapeReserved_eq_args_iff]
    constructor
    · intro hargs
      exact .inl (.inl ⟨hkind, .inr hargs⟩)
    · rintro ((⟨-, hcollects | hargs⟩ | ⟨hword, -⟩) | (⟨hcollects, -⟩ | ⟨hword, hspelled⟩))
      · exact absurd hcollects hkind'
      · exact hargs
      · rw [hreserved] at hword
        cases hword
      · exact absurd hcollects hkind'
      · exact absurd hspelled (hescape _ hword)

/-- **Arguments spelled differently are called the same** exactly if they clash. -/
theorem name_eq_iff_clash (ha : a.Renamed cs) (hb : b.Renamed cs) (hne : a.spelling cs ≠ b.spelling cs) :
    a.name = b.name ↔ Clash cs a b := by
  by_cases hkind : a.kind = .varPositional
  · exact name_eq_iff_clash_of_collects ha hb hkind
  · by_cases hkind' : b.kind = .varPositional
    · rw [eq_comm, clash_comm]
      exact name_eq_iff_clash_of_collects hb ha hkind'
    · rw [ha.name, hb.name, if_neg hkind, if_neg hkind', escapeReserved_eq_iff]
      simp [Clash, BecomesNameOf, hkind, hkind', hne]

/-- The names that a list of arguments is given are distinct exactly if no two of them clash. -/
theorem nodup_names_iff {args : List Argument} (h : ∀ arg ∈ args, arg.Renamed cs)
    (hspelled : (args.map (spelling cs)).Nodup) :
    (args.map Argument.name).Nodup ↔ args.Pairwise fun a b => ¬Clash cs a b := by
  unfold List.Nodup at hspelled ⊢
  rw [List.pairwise_map] at hspelled ⊢
  induction args with
  | nil => simp
  | cons a args ih =>
    obtain ⟨ha, hargs⟩ := List.forall_mem_cons.1 h
    obtain ⟨hfirst, hrest⟩ := List.pairwise_cons.1 hspelled
    rw [List.pairwise_cons, List.pairwise_cons, ih hargs hrest]
    refine and_congr_left fun _ => forall₂_congr fun b hb => not_congr ?_
    exact name_eq_iff_clash ha (hargs b hb) (hfirst b hb)

end Argument

/-! ## Lines -/

namespace Variant

variable {descriptor : Descriptor}

/-- Where names are distinct, none is refused as taken. -/
theorem not_duplicate_of_nodup (h : (descriptor.arguments.map Argument.name).Nodup) (depth : Nat)
    (optionalReturns : List String) (scope? : Option String) (l : Lexicon) (name : String) (span : Span) :
    (assemble depth optionalReturns scope? descriptor l).1 ≠ .error (.duplicateParameter name span) := by
  have hverdict := assemble_verdict depth optionalReturns scope? descriptor l
  generalize assemble depth optionalReturns scope? descriptor l = run at hverdict ⊢
  obtain ⟨verdict, l'⟩ := run
  rintro rfl
  obtain ⟨hrejected, -⟩ := hverdict
  cases hrejected with
  | @misplaced front arg _ hbreak hmisplaced =>
    cases hmisplaced with
    | name htaken =>
      have hfront : ((front ++ [arg]).map Argument.name).Nodup := h.sublist (hbreak.inside.sublist.map _)
      rw [List.map_append, List.nodup_append] at hfront
      exact hfront.2.2 _ htaken _ (List.mem_singleton_self _) rfl

/-- Where a name is repeated, the line is refused. -/
theorem error_of_not_nodup (h : ¬(descriptor.arguments.map Argument.name).Nodup) (depth : Nat)
    (optionalReturns : List String) (scope? : Option String) (l : Lexicon) :
    ∃ e, (assemble depth optionalReturns scope? descriptor l).1 = .error e := by
  have hverdict := assemble_verdict depth optionalReturns scope? descriptor l
  generalize assemble depth optionalReturns scope? descriptor l = run at hverdict ⊢
  obtain ⟨verdict, l'⟩ := run
  cases verdict with
  | ok v => exact absurd hverdict.1.names h
  | error e => exact ⟨e, rfl⟩

/-- **Only names that clash are duplicates.** The arguments of a line that are spelled differently are never refused as
duplicates if no two of them clash, whatever the lexicon holds; and if two of them clash, the line is refused. -/
theorem duplicates_only_by_clash {depth : Nat} {line : String} {d : Descriptor}
    (h : Descriptor.parse depth line = .ok d)
    (hspelled : (d.arguments.map (Argument.spelling line.toList)).Nodup) (limit : Nat) (optionalReturns : List String)
    (scope? : Option String) (l : Lexicon) :
    ((d.arguments.Pairwise fun a b => ¬Argument.Clash line.toList a b) → ∀ name span,
        (assemble limit optionalReturns scope? d l).1 ≠ .error (.duplicateParameter name span)) ∧
      (¬(d.arguments.Pairwise fun a b => ¬Argument.Clash line.toList a b) →
        ∃ e, (assemble limit optionalReturns scope? d l).1 = .error e) := by
  have hnodup := Argument.nodup_names_iff (Grammar.renamed_of_parse h) hspelled
  rw [← hnodup]
  exact ⟨fun hnames => not_duplicate_of_nodup hnames limit optionalReturns scope? l,
    fun hnames => error_of_not_nodup hnames limit optionalReturns scope? l⟩

/-- What `f(class:int,arg_x:...)` declares. -/
def renamed : Descriptor where
  index? := none
  scope := []
  name := "f"
  arguments := [⟨"class_", "int", none, .positionalOrKeyword, ⟨2, 11⟩⟩, ⟨"args", "...", none, .varPositional, ⟨12, 21⟩⟩]
  result? := none
  nameSpan := ⟨0, 1⟩

/-- Both arguments get new names, and neither takes the name of the other. -/
theorem duplicates_only_by_clash_renamed :
    let line := "f(class:int,arg_x:...)"
    Descriptor.parse 3 line = .ok renamed ∧
      renamed.arguments.map (Argument.spelling line.toList) = ["class", "arg_x"] ∧
      (renamed.arguments.Pairwise fun a b => ¬Argument.Clash line.toList a b) ∧
      ∀ name span, (assemble 3 [] none renamed .baseline).1 ≠ .error (.duplicateParameter name span) := by
  intro line
  have hparse : Descriptor.parse 3 line = .ok renamed := eq_ok_of_toOption (by decide +kernel)
  have hspelled : renamed.arguments.map (Argument.spelling line.toList) = ["class", "arg_x"] := by decide +kernel
  have hapart : renamed.arguments.Pairwise fun a b => ¬Argument.Clash line.toList a b := by decide +kernel
  have hnodup : (renamed.arguments.map (Argument.spelling line.toList)).Nodup := by
    rw [hspelled]
    decide
  exact ⟨hparse, hspelled, hapart, (duplicates_only_by_clash hparse hnodup 3 [] none .baseline).1 hapart⟩

/-- What `f(class:int,class_:int)` declares. -/
def escaped : Descriptor where
  index? := none
  scope := []
  name := "f"
  arguments := [⟨"class_", "int", none, .positionalOrKeyword, ⟨2, 11⟩⟩,
    ⟨"class_", "int", none, .positionalOrKeyword, ⟨12, 22⟩⟩]
  result? := none
  nameSpan := ⟨0, 1⟩

/-- A reserved word beside its own escape: the names are spelled differently, and the second one is refused. -/
theorem duplicate_beside_escape :
    let line := "f(class:int,class_:int)"
    Descriptor.parse 3 line = .ok escaped ∧
      (escaped.arguments.map (Argument.spelling line.toList)).Nodup ∧
      (assemble 3 [] none escaped .baseline).1 = .error (.duplicateParameter "class_" ⟨12, 22⟩) := by
  intro line
  have hparse : Descriptor.parse 3 line = .ok escaped := eq_ok_of_toOption (by decide +kernel)
  have hspelled : (escaped.arguments.map (Argument.spelling line.toList)).Nodup := by decide +kernel
  exact ⟨hparse, hspelled, rfl⟩

end Variant
end CallSig
