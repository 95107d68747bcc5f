import CallSig.Descriptor.Parser
import CallSig.Proofs.Lexeme.Reading
import CallSig.Proofs.Lexeme.Spelling

/-!
# `CallSig.Proofs.Descriptor.Names` — the names a parsed line has

Every name in a parsed line is an identifier that is no reserved word, since reserved words are escaped; an
argument that collects positional values is always called `args`, and one that collects keywords has no name that
would make it collect positional values. So the names can be written into a line and read again.

## Contents
- **Names.** `Clean`, `clean_escapeReserved`; `Argument.slot`, `Named`
  (the names that go with a kind).
- **Scanning.** `Scanned`, `scanned_scan`.
- **Lines.** `named_of_readArguments`, `parts_of_parse`, `named_of_parse`.
-/

namespace CallSig

theorem eq_ok_of_bind_eq_ok {ε α β : Type} {r : Except ε α} {f : α → Except ε β} {b : β} (h : r >>= f = .ok b) :
    ∃ a, r = .ok a ∧ f a = .ok b := by
  cases r with
  | error e => cases h
  | ok a => exact ⟨a, rfl, h⟩

theorem eq_ok_of_toOption {ε α : Type} {r : Except ε α} {a : α} (h : r.toOption = some a) : r = .ok a := by
  cases r with
  | error e => cases h
  | ok b => exact congrArg _ (Option.some.inj h)

/-! ## Names -/

/-- An identifier that is no reserved word. -/
def Clean (name : String) : Prop := IsName name.toList ∧ isReserved name = false

theorem isName_concat_underscore {cs : List Char} (h : IsName cs) : IsName (cs ++ ['_']) := by
  obtain ⟨c, more, rfl, hc, hmore⟩ := h
  refine ⟨c, more ++ ['_'], rfl, hc, ?_⟩
  intro x hx
  rcases List.mem_append.1 hx with hx | hx
  · exact hmore x hx
  · obtain rfl := List.mem_singleton.1 hx
    decide

theorem not_reserved_escaped : ∀ word ∈ reservedWords, isReserved (word ++ "_") = false := by decide +kernel

theorem not_arg_escaped : ∀ word ∈ reservedWords, "arg_".toList.isPrefixOf (word ++ "_").toList = false := by
  decide +kernel

theorem mem_reservedWords {name : String} (h : isReserved name = true) : name ∈ reservedWords := by
  unfold isReserved at h
  simpa using h

/-- A name that is escaped needs no escape any more. -/
theorem clean_escapeReserved {cs : List Char} (h : IsName cs) : Clean (escapeReserved (String.ofList cs)) := by
  unfold escapeReserved
  -- no reserved word ends with the underscore that an escape adds
  by_cases hr : isReserved (String.ofList cs) = true
  · rw [if_pos hr]
    refine ⟨?_, not_reserved_escaped _ (mem_reservedWords hr)⟩
    rw [String.toList_append, String.toList_ofList]
    exact isName_concat_underscore h
  · rw [if_neg hr]
    refine ⟨?_, by simpa using hr⟩
    rwa [String.toList_ofList]

/-- The name and the kind of an argument. -/
def Argument.slot (arg : Argument) : String × ParamKind := (arg.name, arg.kind)

/-- The name is one that an argument of this kind is read with. -/
def Named (slot : String × ParamKind) : Prop :=
  match slot.2 with
  | .varPositional => slot.1 = "args"
  | .varKeyword => Clean slot.1 ∧ "arg_".toList.isPrefixOf slot.1.toList = false
  | _ => Clean slot.1

theorem named_varKeyword {cs : List Char} (h : IsName cs) (harg : "arg_".toList.isPrefixOf cs = false) :
    Named (escapeReserved (String.ofList cs), .varKeyword) := by
  refine ⟨clean_escapeReserved h, ?_⟩
  show "arg_".toList.isPrefixOf (escapeReserved (String.ofList cs)).toList = false
  unfold escapeReserved
  by_cases hr : isReserved (String.ofList cs) = true
  · rw [if_pos hr]
    exact not_arg_escaped _ (mem_reservedWords hr)
  · have hlist : (String.ofList cs).toList = cs := String.toList_ofList
    rw [if_neg hr, hlist]
    exact harg

theorem named_of_clean {name : String} {kind : ParamKind} (h : Clean name) (hkind : kind.isVariadic = false) :
    Named (name, kind) := by
  cases kind with
  | positionalOnly | positionalOrKeyword | keywordOnly => exact h
  | varPositional | varKeyword => cases hkind

/-! ## Scanning -/

namespace Lexeme

/-- What is read as an identifier is spelled as one. -/
def Scanned (xs : List Lexeme) : Prop := ∀ x ∈ xs, x.token = .identifier → IsName x.text

theorem ofChar?_ne_identifier (c : Char) : Token.ofChar? c ≠ some .identifier := by
  intro h
  unfold Token.ofChar? at h
  split at h
  all_goals try cases h
  split at h
  · cases h
  · cases h

theorem isName_of_read? {c : Char} {rest : List Char} {n : Nat} (h : Token.read? c rest = some (.identifier, n)) :
    IsName (c :: rest.take n) := by
  unfold Token.read? at h
  split at h
  · next hc =>
    cases h
    refine ⟨c, _, rfl, hc, ?_⟩
    intro x hx
    rw [← List.prefix_iff_eq_take.1 (List.takeWhile_prefix isNamePart)] at hx
    exact List.all_eq_true.1 List.all_takeWhile x hx
  · -- every other token is no identifier
    iterate 5
      split at h
      · first | cases h | (obtain ⟨m, -, hm⟩ := Option.map_eq_some_iff.1 h; cases hm)
    obtain ⟨token, htoken, he⟩ := Option.map_eq_some_iff.1 h
    cases he
    exact absurd htoken (ofChar?_ne_identifier c)

/-- **The scanner reads identifiers only where they stand.** -/
theorem scanned_scan {start : Nat} {cs : List Char} : ∀ {xs : List Lexeme}, scan start cs = .ok xs → Scanned xs := by
  fun_induction scan start cs with
  | case1 =>
    intro xs h
    cases h
    exact List.forall_mem_nil _
  | case2 =>
    intro xs h
    cases h
  | case3 start cs gap c rest hd here token n hr text =>
    rename_i ih
    intro xs h
    obtain ⟨ys, hys, rfl⟩ := eq_ok_of_map_eq_ok h
    intro x hx htoken
    rcases List.mem_cons.1 hx with rfl | hx
    · obtain rfl : token = .identifier := htoken
      exact isName_of_read? hr
    · exact ih hys x hx htoken

end Lexeme

namespace Descriptor

open Lexeme

/-! ## Lines -/

theorem mem_of_readIndex {xs rest : List Lexeme} {index? : Option Nat} (h : readIndex xs = .ok (index?, rest)) :
    rest ⊆ xs := by
  unfold readIndex at h
  split at h
  · split at h
    · split at h
      · cases h
        exact fun x hx => List.mem_cons_of_mem _ (List.mem_cons_of_mem _ hx)
      · cases h
    · cases h
      exact List.Subset.refl _
  · cases h
    exact List.Subset.refl _

theorem readIndex_name {x : Lexeme} (h : x.token = .identifier) (xs : List Lexeme) :
    readIndex (x :: xs) = .ok (none, x :: xs) := by
  cases xs with
  | nil => rfl
  | cons y xs => rw [readIndex, if_neg (by simp [h])]

theorem expect_cons {token : Token} {x : Lexeme} (h : x.token = token) (stop : Nat) (xs : List Lexeme) :
    expect stop token (x :: xs) = .ok (x, xs) := by
  rw [expect, if_pos h]

theorem of_expect {stop : Nat} {token : Token} {xs rest : List Lexeme} {x : Lexeme}
    (h : expect stop token xs = .ok (x, rest)) : xs = x :: rest ∧ x.token = token := by
  unfold expect at h
  split at h
  · cases h
  · split at h
    · next htoken =>
      cases h
      exact ⟨rfl, htoken⟩
    · cases h

theorem of_readSegments {stop : Nat} {xs : List Lexeme} :
    ∀ {more rest : List Lexeme}, readSegments stop xs = .ok (more, rest) →
      (∀ y ∈ more, y ∈ xs ∧ y.token = .identifier) ∧ rest ⊆ xs := by
  fun_induction readSegments stop xs with
  | case1 =>
    intro more rest h
    cases h
    exact ⟨List.forall_mem_nil _, List.Subset.refl _⟩
  | case2 | case5 =>
    intro more rest h
    cases h
  | case3 | case6 =>
    intro more rest h
    cases h
    exact ⟨List.forall_mem_nil _, List.Subset.refl _⟩
  | case4 x y tail hx hy ih =>
    intro more rest h
    obtain ⟨⟨more, rest⟩, htail, he⟩ := eq_ok_of_map_eq_ok h
    cases he
    obtain ⟨hmore, hrest⟩ := ih htail
    refine ⟨?_, fun z hz => List.mem_cons_of_mem _ (List.mem_cons_of_mem _ (hrest hz))⟩
    intro z hz
    rcases List.mem_cons.1 hz with rfl | hz
    · exact ⟨List.mem_cons_of_mem _ List.mem_cons_self, hy⟩
    · exact ⟨List.mem_cons_of_mem _ (List.mem_cons_of_mem _ (hmore z hz).1), (hmore z hz).2⟩

theorem named_of_readTyped {kind : ParamKind} {name : List Char} {span : Span} {body : List Lexeme} {arg : Argument}
    (hname : IsName name) (hkind : kind.isVariadic = false) (h : readTyped kind name span body = .ok arg) :
    Named arg.slot := by
  unfold readTyped at h
  dsimp only at h
  split at h
  · cases h
  · split at h
    · cases h
    · split at h
      · split at h
        · cases h
        · split at h
          · cases h
            rfl
          · next harg =>
            cases h
            exact named_varKeyword hname (eq_false_of_ne_true harg)
      · cases h
        exact named_of_clean (clean_escapeReserved hname) hkind

theorem named_of_readArgument {kind : ParamKind} {first : Lexeme} {rest : List Lexeme} {arg : Argument}
    (hfirst : first.token = .identifier → IsName first.text) (hkind : kind.isVariadic = false)
    (h : readArgument kind first rest = .ok arg) : Named arg.slot := by
  unfold readArgument at h
  dsimp only at h
  split at h
  · cases h
  · next htoken =>
    split at h
    · cases h
    · split at h
      · cases h
      · exact named_of_readTyped (hfirst (Decidable.of_not_not htoken)) hkind h

theorem named_beforeSlash {arg : Argument} (h : Named arg.slot) : Named (ItemState.beforeSlash arg).slot := by
  unfold ItemState.beforeSlash
  split
  · next hkind =>
    have hclean : Clean arg.name := by
      unfold Named Argument.slot at h
      rw [hkind] at h
      exact h
    exact hclean
  · exact h

/-- One item keeps the names of the arguments read so far, and adds one that is named as its kind asks. -/
theorem named_of_add {s s' : ItemState} {first : Lexeme} {rest : List Lexeme}
    (hs : ∀ arg ∈ s.arguments, Named arg.slot) (hfirst : first.token = .identifier → IsName first.text)
    (h : s.add first rest = .ok s') : ∀ arg ∈ s'.arguments, Named arg.slot := by
  unfold ItemState.add at h
  -- a slash changes kinds, a star changes nothing that is read, any other item is an argument
  split at h
  · split at h
    · cases h
    · cases h
      intro arg harg
      obtain ⟨before, hbefore, rfl⟩ := List.mem_map.1 harg
      exact named_beforeSlash (hs before hbefore)
  · split at h
    · split at h
      · cases h
      · cases h
        exact hs
    · obtain ⟨new, hread, rfl⟩ := eq_ok_of_map_eq_ok h
      have hnew : Named new.slot := by
        refine named_of_readArgument hfirst ?_ hread
        split
        · rfl
        · rfl
      intro arg harg
      rcases List.mem_append.1 harg with harg | harg
      · exact hs arg harg
      · obtain rfl := List.mem_singleton.1 harg
        exact hnew

theorem named_of_addAll {anchor : Span} {items : List (List Lexeme)} (hitems : ∀ item ∈ items, Scanned item) :
    ∀ {s s' : ItemState}, (∀ arg ∈ s.arguments, Named arg.slot) → s.addAll anchor items = .ok s' →
      ∀ arg ∈ s'.arguments, Named arg.slot := by
  induction items with
  | nil =>
    intro s s' hs h
    cases h
    exact hs
  | cons item items ih =>
    intro s s' hs h
    cases item with
    | nil => cases h
    | cons first rest =>
      unfold ItemState.addAll at h
      split at h
      · next s₁ hadd =>
        have hfirst := hitems (first :: rest) List.mem_cons_self first List.mem_cons_self
        exact ih (fun other hmem => hitems other (List.mem_cons_of_mem _ hmem)) (named_of_add hs hfirst hadd) h
      · cases h

theorem named_of_readArguments {limit : Nat} {xs : List Lexeme} {args : List Argument} (hxs : Scanned xs)
    (h : readArguments limit xs = .ok args) : ∀ arg ∈ args, Named arg.slot := by
  obtain ⟨items, hitems, h⟩ := eq_ok_of_bind_eq_ok h
  obtain ⟨s, hall, h⟩ := eq_ok_of_bind_eq_ok h
  cases h
  refine named_of_addAll ?_ (List.forall_mem_nil fun arg : Argument => Named arg.slot) hall
  intro item hmem x hx
  exact hxs x ((pieces_sublist hitems item hmem).subset hx)

theorem untilClose?_subset {depth : Nat} {xs : List Lexeme} :
    ∀ {inner rest : List Lexeme}, untilClose? depth xs = some (inner, rest) → inner ⊆ xs := by
  fun_induction untilClose? depth xs with
  | case1 =>
    intro inner rest h
    cases h
  | case2 =>
    intro inner rest h
    cases h
    exact List.nil_subset _
  | case3 depth x xs _ _ =>
    rename_i ih
    intro inner rest h
    obtain ⟨⟨inner, rest⟩, htail, he⟩ := Option.map_eq_some_iff.1 h
    cases he
    exact List.cons_subset_cons x (ih htail)

/-- What a parsed line is made of: its name comes from identifiers of the line, its arguments from lexemes of the
line. -/
theorem parts_of_parse {depth : Nat} {line : String} {d : Descriptor} (h : parse depth line = .ok d) :
    ∃ xs first more inner, ofText line.toList = .ok xs ∧
      (∀ x ∈ first :: more, x ∈ xs ∧ x.token = .identifier) ∧
      d.name = escapeReserved (((first :: more).map fun x => String.ofList x.text).getLastD "") ∧
      inner ⊆ xs ∧ readArguments (parserDepth depth) inner = .ok d.arguments := by
  obtain ⟨xs, hxs, h⟩ := eq_ok_of_bind_eq_ok h
  obtain ⟨⟨index?, xs₁⟩, hindex, h⟩ := eq_ok_of_bind_eq_ok h
  obtain ⟨⟨first, more, xs₂⟩, hname, h⟩ := eq_ok_of_bind_eq_ok h
  obtain ⟨⟨opened, xs₃⟩, hopen, h⟩ := eq_ok_of_bind_eq_ok h
  dsimp only at h
  split at h
  · next found hinner =>
    obtain ⟨inner, xs₄⟩ := found
    -- the step before is a result already, so the first bind to open is the next one
    obtain ⟨arguments, hargs, h⟩ := eq_ok_of_bind_eq_ok (r := readArguments (parserDepth depth) inner) h
    obtain ⟨result?, -, h⟩ := eq_ok_of_bind_eq_ok h
    cases h
    obtain ⟨⟨first', xs₁'⟩, hfirst, hname⟩ := eq_ok_of_bind_eq_ok hname
    obtain ⟨⟨more', xs₂'⟩, hmore, hname⟩ := eq_ok_of_bind_eq_ok hname
    cases hname
    obtain ⟨rfl, hfirstToken⟩ := of_expect hfirst
    obtain ⟨hmoreNames, hrest⟩ := of_readSegments hmore
    obtain ⟨rfl, -⟩ := of_expect hopen
    have hsub := mem_of_readIndex hindex
    have htail : xs₁' ⊆ xs := fun x hx => hsub (List.mem_cons_of_mem _ hx)
    refine ⟨xs, first, more, inner, hxs, ?_, rfl, ?_, hargs⟩
    · intro x hx
      rcases List.mem_cons.1 hx with rfl | hx
      · exact ⟨hsub List.mem_cons_self, hfirstToken⟩
      · exact ⟨htail (hmoreNames x hx).1, (hmoreNames x hx).2⟩
    · intro x hx
      exact htail (hrest (List.mem_cons_of_mem _ (untilClose?_subset hinner hx)))
  · cases h

/-- **The names of a parsed line**: its own name is an identifier that is no reserved word, and so are the names of
its arguments, as far as their kinds leave them a choice. -/
theorem named_of_parse {depth : Nat} {line : String} {d : Descriptor} (h : parse depth line = .ok d) :
    Clean d.name ∧ ∀ arg ∈ d.arguments, Named arg.slot := by
  obtain ⟨xs, first, more, inner, hxs, hnames, hname, hinner, hargs⟩ := parts_of_parse h
  have hscanned : Scanned xs := scanned_scan hxs
  constructor
  · -- the name is the last segment, whichever identifier that is
    have hlast : ((first :: more).map fun x => String.ofList x.text).getLastD "" ∈
        (first :: more).map fun x => String.ofList x.text := by
      rw [List.map_cons, List.getLastD_cons]
      exact List.getLastD_mem_cons
    obtain ⟨x, hx, htext⟩ := List.mem_map.1 hlast
    obtain ⟨hmem, htoken⟩ := hnames x hx
    rw [hname, ← htext]
    exact clean_escapeReserved (hscanned x hmem htoken)
  · exact named_of_readArguments (fun x hx => hscanned x (hinner hx)) hargs

end Descriptor
end CallSig
