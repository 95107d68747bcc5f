import CallSig.Proofs.Descriptor.Spans
import CallSig.Proofs.Text.Collapse

/-!
# `CallSig.Proofs.Descriptor.Declares` — what a line declares, by rules

A derivation says which part of the grammar every lexeme of a line stands for. What the line then declares is laid down
here by rules over its text: a default is the text that stands there, a type or a result is that text with its white
space collapsed, and a name that the host keeps for itself gets an underscore. The rules have their own list of such
words, their own white space and their own places, and take nothing from the parser. They allow one descriptor for a
derivation, which is the one that the parser returns.

## Contents
- **Names.** `hostWords`, `Escapes`; `escapes_iff`.
- **Places.** `Spanning`, `Verbatim`; `spanning_iff`, `verbatim_iff`.
- **Arguments.** `ArgumentForm.Slot`, `ArgumentForm.Declares`; `ArgumentForm.declares_iff`.
- **Items.** `ItemsDeclare`, `itemsDeclare_iff`.
- **Lines.** `Line.Derives`, `Line.Declares`, `Line.declares_iff`; `accepts_exactly`.
-/

namespace CallSig.Grammar

open Descriptor Lexeme Text

/-! ## Names -/

/-- The words that the host keeps for itself. -/
def hostWords : List String :=
  ["None", "True", "False",
   -- expressions
   "not", "and", "or", "is", "in", "lambda", "await", "yield",
   -- branches and loops
   "if", "elif", "else", "while", "for", "break", "continue", "return", "pass",
   -- blocks
   "try", "except", "finally", "raise", "assert", "with",
   -- declarations
   "def", "class", "async", "import", "from", "as", "global", "nonlocal", "del"]

/-- A word that the host keeps for itself becomes a name by an underscore behind it, any other word is one. -/
inductive Escapes : String → String → Prop
  | kept {word : String} (h : word ∈ hostWords) : Escapes word (word ++ "_")
  | free {word : String} (h : word ∉ hostWords) : Escapes word word

theorem hostWords_perm : hostWords.Perm reservedWords := by decide +kernel

theorem isReserved_iff {word : String} : isReserved word = true ↔ word ∈ hostWords := by
  unfold isReserved
  rw [List.contains_iff_mem, hostWords_perm.mem_iff]

theorem escapes_iff {word name : String} : Escapes word name ↔ name = escapeReserved word := by
  unfold escapeReserved
  constructor
  · rintro (h | h)
    · rw [if_pos (isReserved_iff.2 h)]
    · rw [if_neg (mt isReserved_iff.1 h)]
  · rintro rfl
    split
    · next h => exact .kept (isReserved_iff.1 h)
    · next h => exact .free (mt isReserved_iff.2 h)

/-! ## Places -/

/-- The bytes from the beginning of the first lexeme to the end of the last one. -/
def Spanning (run : List Lexeme) (span : Span) : Prop :=
  ∃ first last, run.head? = some first ∧ run.getLast? = some last ∧ span = ⟨first.span.start, last.span.stop⟩

/-- What stands in the line from the first lexeme to the last one. -/
def Verbatim (cs : List Char) (run : List Lexeme) (text : List Char) : Prop :=
  ∃ span, Spanning run span ∧ span.Shows cs text

section Places

variable {cs : List Char} {xs : List Lexeme} (htiled : Tiled [] 0 cs xs)
include htiled

theorem spanning_iff {first : Lexeme} {rest : List Lexeme} (hrun : (first :: rest).Sublist xs) {span : Span} :
    Spanning (first :: rest) span ↔ span = runSpan first rest := by
  have hlast : (first :: rest).getLast? = some (rest.getLastD first) := by
    rw [List.getLast?_cons, List.getLastD_eq_getLast?]
  rw [runSpan_eq_of_sublist htiled hrun]
  constructor
  · rintro ⟨x, y, hx, hy, rfl⟩
    rw [hlast] at hy
    cases hx
    cases hy
    rfl
  · rintro rfl
    exact ⟨_, _, rfl, hlast, rfl⟩

theorem verbatim_iff {run : List Lexeme} (hne : run ≠ []) (hrun : run <:+: xs) {text : List Char} :
    Verbatim cs run text ↔ text = runText run := by
  obtain ⟨first, rest, rfl⟩ := List.exists_cons_of_ne_nil hne
  have hshows := shows_runSpan htiled hrun
  constructor
  · rintro ⟨span, hspan, htext⟩
    rw [spanning_iff htiled hrun.sublist] at hspan
    rw [hspan] at htext
    exact htext.unique hshows
  · rintro rfl
    exact ⟨_, (spanning_iff htiled hrun.sublist).2 rfl, hshows⟩

end Places

theorem toList_eq_iff {s : String} {cs : List Char} : s.toList = cs ↔ s = String.ofList cs := by
  rw [← String.toList_inj, String.toList_ofList]

/-- A relation that is a function at what an option holds is this function over the option. -/
theorem optionRel_iff {α β : Type} {r : α → β → Prop} {f : α → β} {a? : Option α} {b? : Option β}
    (h : ∀ a, a? = some a → ∀ b, r a b ↔ b = f a) : Option.Rel r a? b? ↔ b? = a?.map f := by
  constructor
  · rintro (hr | _)
    · rw [(h _ rfl _).1 hr]
      rfl
    · rfl
  · rintro rfl
    cases a? with
    | none => exact .none
    | some a => exact .some ((h a rfl _).2 rfl)

/-! ## Arguments -/

namespace ArgumentForm

/-- The name and the kind of an argument. Three dots stand for values that are passed by position if the name begins
with `arg_`, and for keywords if not; any other argument has the kind that its place gives to it. -/
inductive Slot (kind : ParamKind) (form : ArgumentForm) : String → ParamKind → Prop
  | single {name : String} (hv : form.variadic = false) (hname : Escapes (String.ofList form.name.text) name) :
      Slot kind form name kind
  | values (hv : form.variadic = true) (harg : "arg_".toList <+: form.name.text) : Slot kind form "args" .varPositional
  | keywords {name : String} (hv : form.variadic = true) (harg : ¬"arg_".toList <+: form.name.text)
      (hname : Escapes (String.ofList form.name.text) name) : Slot kind form name .varKeyword

/-- The argument is what the derivation declares in this line; `kind` is the kind that its place gives to it. -/
structure Declares (cs : List Char) (kind : ParamKind) (form : ArgumentForm) (arg : Argument) : Prop where
  slot : form.Slot kind arg.name arg.kind
  type : ∃ text, Verbatim cs form.type text ∧ Collapses text arg.typeToken.toList
  default : Option.Rel (fun part token => Verbatim cs part.2 token.toList) form.default? arg.default?
  span : Spanning form.lexemes arg.span

variable {form : ArgumentForm} {kind : ParamKind}

theorem slot_iff {name : String} {kind' : ParamKind} :
    form.Slot kind name kind' ↔ name = (form.argument kind).name ∧ kind' = (form.argument kind).kind := by
  constructor
  · rintro (⟨hv, hname⟩ | ⟨hv, harg⟩ | ⟨hv, harg, hname⟩)
    · simp [argument, hv, escapes_iff.1 hname]
    · rw [argument, if_pos hv, if_pos (List.isPrefixOf_iff_prefix.2 harg)]
      exact ⟨rfl, rfl⟩
    · rw [argument, if_pos hv, if_neg (mt List.isPrefixOf_iff_prefix.1 harg)]
      exact ⟨escapes_iff.1 hname, rfl⟩
  · rintro ⟨rfl, rfl⟩
    unfold argument
    split
    · next hv =>
      split
      · next harg => exact .values hv (List.isPrefixOf_iff_prefix.1 harg)
      · next harg => exact .keywords hv (mt List.isPrefixOf_iff_prefix.2 harg) (escapes_iff.2 rfl)
    · next hv => exact .single (by simpa using hv) (escapes_iff.2 rfl)

theorem default?_argument {depth : Nat} (hw : form.WellFormed depth) :
    (form.argument kind).default? = form.default?.map fun part => String.ofList (runText part.2) := by
  unfold argument
  split
  · next hv =>
    rw [hw.default?_eq_none hv]
    split <;> rfl
  · rfl

variable {cs : List Char} {xs : List Lexeme}

theorem isInfix_type (hform : form.lexemes <:+: xs) : form.type <:+: xs :=
  List.IsInfix.trans ⟨[form.name, form.colon], marked form.default?, by simp [lexemes]⟩ hform

theorem isInfix_default (hform : form.lexemes <:+: xs) {equal : Lexeme} {part : List Lexeme}
    (hd : form.default? = some (equal, part)) : part <:+: xs :=
  List.IsInfix.trans ⟨form.name :: form.colon :: (form.type ++ [equal]), [], by simp [lexemes, marked, hd]⟩ hform

/-- **The rules allow one argument** for a derivation in a line. -/
theorem declares_iff (htiled : Tiled [] 0 cs xs) (hform : form.lexemes <:+: xs) {depth : Nat}
    (hw : form.WellFormed depth) {arg : Argument} : form.Declares cs kind arg ↔ arg = form.argument kind := by
  have htype : (∃ text, Verbatim cs form.type text ∧ Collapses text arg.typeToken.toList) ↔
      arg.typeToken = (form.argument kind).typeToken := by
    simp only [verbatim_iff htiled hw.type_ne_nil (isInfix_type hform), collapses_iff, exists_eq_left]
    rw [toList_eq_iff, typeToken_argument]
  have hdefault : Option.Rel (fun part token => Verbatim cs part.2 token.toList) form.default? arg.default? ↔
      arg.default? = (form.argument kind).default? := by
    rw [default?_argument hw]
    refine optionRel_iff fun part hd token => ?_
    obtain ⟨-, hne, -⟩ := hw.default part.1 part.2 hd
    rw [verbatim_iff htiled hne (isInfix_default hform hd), toList_eq_iff]
  have hspan : Spanning form.lexemes arg.span ↔ arg.span = (form.argument kind).span := by
    rw [span_argument]
    exact spanning_iff htiled hform.sublist
  constructor
  · intro h
    obtain ⟨hname, hkind⟩ := slot_iff.1 h.slot
    show (⟨arg.name, arg.typeToken, arg.default?, arg.kind, arg.span⟩ : Argument) = _
    rw [hname, htype.1 h.type, hdefault.1 h.default, hkind, hspan.1 h.span]
  · rintro rfl
    exact ⟨slot_iff.2 ⟨rfl, rfl⟩, htype.2 rfl, hdefault.2 rfl, hspan.2 rfl⟩

end ArgumentForm

/-! ## Items -/

/-- The arguments are what the items declare in this line; `star` says whether a star stands before these items. -/
inductive ItemsDeclare (cs : List Char) : Bool → List Item → List Argument → Prop
  | nil (star : Bool) : ItemsDeclare cs star [] []
  | slash {star : Bool} {items : List Item} {args : List Argument} (mark : Lexeme)
      (h : ItemsDeclare cs star items args) : ItemsDeclare cs star (.slash mark :: items) args
  | star {star : Bool} {items : List Item} {args : List Argument} (mark : Lexeme)
      (h : ItemsDeclare cs true items args) : ItemsDeclare cs star (.star mark :: items) args
  | argument {star : Bool} {items : List Item} {args : List Argument} {form : ArgumentForm} {arg : Argument}
      (harg : form.Declares cs (kindAt star (items.any Item.isSlash)) arg) (h : ItemsDeclare cs star items args) :
      ItemsDeclare cs star (.argument form :: items) (arg :: args)

theorem itemsDeclare_iff {cs : List Char} {items : List Item}
    (hforms : ∀ form ∈ forms items, ∀ kind arg, form.Declares cs kind arg ↔ arg = form.argument kind) {star : Bool}
    {args : List Argument} : ItemsDeclare cs star items args ↔ args = argumentsFrom star items := by
  constructor
  · intro h
    induction h with
    | nil => rfl
    | slash _ _ ih | star _ _ ih => exact ih hforms
    | argument harg _ ih =>
      obtain ⟨hform, hmore⟩ := List.forall_mem_cons.1 hforms
      rw [(hform _ _).1 harg, ih hmore]
      rfl
  · rintro rfl
    induction items generalizing star with
    | nil => exact .nil star
    | cons item items ih =>
      cases item with
      | slash mark => exact .slash mark (ih hforms)
      | star mark => exact .star mark (ih hforms)
      | argument form =>
        obtain ⟨hform, hmore⟩ := List.forall_mem_cons.1 hforms
        exact .argument ((hform _ _).2 rfl) (ih hmore)

/-! ## Lines -/

namespace Line

/-- The line of text has this derivation. Between the round brackets of the list, brackets nest up to `depth`, or up to
one if this is zero. -/
def Derives (depth : Nat) (line : String) (g : Line) : Prop :=
  ofText line.toList = .ok g.lexemes ∧ g.WellFormed (max depth 1)

/-- The descriptor is what the derivation declares in this line. -/
structure Declares (cs : List Char) (g : Line) (d : Descriptor) : Prop where
  index : d.index? = g.index?.map fun index => decimal index.1.text
  name : ∃ last, (g.names.map fun name => String.ofList name.text) = d.scope ++ [last] ∧ Escapes last d.name
  arguments : ItemsDeclare cs false g.items d.arguments
  result : Option.Rel (fun part token => ∃ text, Verbatim cs part.2 text ∧ Collapses text token.toList)
    g.result? d.result?
  nameSpan : Spanning g.names d.nameSpan

variable {g : Line} {depth : Nat}

theorem names_sublist (g : Line) : g.names.Sublist g.lexemes :=
  (((dotted_names_sublist g.more).trans (List.sublist_append_left _ _)).cons_cons g.first).trans
    (List.sublist_append_right _ _)

theorem isInfix_result {arrow : Lexeme} {part : List Lexeme} (hr : g.result? = some (arrow, part)) :
    part <:+: g.lexemes :=
  ⟨indexed g.index? ++ g.first :: (dotted g.more ++ g.opened :: (g.inner ++ [g.closed, arrow])), [],
    by simp [lexemes, marked, hr]⟩

theorem name_iff {names scope : List String} {name : String} (hne : names ≠ []) :
    (∃ last, names = scope ++ [last] ∧ Escapes last name) ↔
      scope = names.dropLast ∧ name = escapeReserved (names.getLastD "") := by
  obtain ⟨front, last, rfl⟩ := (List.eq_nil_or_concat' names).resolve_left hne
  rw [List.dropLast_concat, List.getLastD_concat]
  constructor
  · rintro ⟨last', hnames, hname⟩
    obtain ⟨rfl, hlast⟩ := List.append_inj' hnames rfl
    cases hlast
    exact ⟨rfl, escapes_iff.1 hname⟩
  · rintro ⟨rfl, rfl⟩
    exact ⟨last, rfl, escapes_iff.2 rfl⟩

/-- **The rules allow one descriptor** for a derivation of a line. -/
theorem declares_iff {cs : List Char} (hline : ofText cs = .ok g.lexemes) (hw : g.WellFormed depth) {d : Descriptor} :
    g.Declares cs d ↔ d = g.descriptor := by
  have htiled := scan_eq_ok_iff.1 hline
  have hname : (∃ last, (g.names.map fun name => String.ofList name.text) = d.scope ++ [last] ∧ Escapes last d.name) ↔
      d.scope = g.descriptor.scope ∧ d.name = g.descriptor.name := name_iff (List.cons_ne_nil _ _)
  have harguments : ItemsDeclare cs false g.items d.arguments ↔ d.arguments = g.descriptor.arguments := by
    refine itemsDeclare_iff fun form hform kind arg => ?_
    exact ArgumentForm.declares_iff htiled (run_of_mem_forms hw hform).2 (hw.items _ (mem_forms.1 hform))
  have hresult : Option.Rel (fun part token => ∃ text, Verbatim cs part.2 text ∧ Collapses text token.toList)
      g.result? d.result? ↔ d.result? = g.descriptor.result? := by
    refine optionRel_iff fun part hr token => ?_
    obtain ⟨-, hne⟩ := hw.result part.1 part.2 hr
    simp only [verbatim_iff htiled hne (isInfix_result hr), collapses_iff, exists_eq_left]
    exact toList_eq_iff
  have hspan : Spanning g.names d.nameSpan ↔ d.nameSpan = g.descriptor.nameSpan :=
    spanning_iff htiled (names_sublist g)
  constructor
  · intro h
    have hindex : d.index? = g.descriptor.index? := h.index
    obtain ⟨hscope, hlast⟩ := hname.1 h.name
    show (⟨d.index?, d.scope, d.name, d.arguments, d.result?, d.nameSpan⟩ : Descriptor) = _
    rw [hindex, hscope, hlast, harguments.1 h.arguments, hresult.1 h.result, hspan.1 h.nameSpan]
  · rintro rfl
    exact ⟨rfl, hname.2 ⟨rfl, rfl⟩, harguments.2 rfl, hresult.2 rfl, hspan.2 rfl⟩

end Line

/-- **The parser accepts exactly its grammar**: a line is read if and only if it has a derivation, and what is read is
what the derivation declares in the line. -/
theorem accepts_exactly (depth : Nat) (line : String) :
    ((∃ d, parse depth line = .ok d) ↔ ∃ g : Line, g.Derives depth line) ∧
      ∀ (g : Line) (d : Descriptor), g.Derives depth line → (parse depth line = .ok d ↔ g.Declares line.toList d) := by
  refine ⟨⟨?_, ?_⟩, ?_⟩
  · rintro ⟨d, h⟩
    exact exists_line h
  · rintro ⟨g, hline, hw⟩
    exact ⟨g.descriptor, parse_lexemes hline hw⟩
  · rintro g d ⟨hline, hw⟩
    rw [parse_lexemes hline hw, Line.declares_iff hline hw, Except.ok.injEq, eq_comm]

/-- What the line `2:m.class(if:List<  int >=f( 1 ),/,arg__1:...,def:...)->unsigned   int` says. -/
def reservedLine : Descriptor where
  index? := some 2
  scope := ["m"]
  name := "class_"
  arguments :=
    [⟨"if_", "List< int >", some "f( 1 )", .positionalOnly, ⟨10, 32⟩⟩, ⟨"args", "...", none, .varPositional, ⟨35, 45⟩⟩,
     ⟨"def_", "...", none, .varKeyword, ⟨46, 53⟩⟩]
  result? := some "unsigned int"
  nameSpan := ⟨2, 9⟩

theorem accepts_reservedLine :
    ∃ g : Line, g.Derives 3 "2:m.class(if:List<  int >=f( 1 ),/,arg__1:...,def:...)->unsigned   int" ∧
      g.Declares "2:m.class(if:List<  int >=f( 1 ),/,arg__1:...,def:...)->unsigned   int".toList reservedLine := by
  have hparse : parse 3 "2:m.class(if:List<  int >=f( 1 ),/,arg__1:...,def:...)->unsigned   int" = .ok reservedLine :=
    eq_ok_of_toOption (by decide +kernel)
  obtain ⟨haccepts, hdeclares⟩ := accepts_exactly 3 _
  obtain ⟨g, hg⟩ := haccepts.1 ⟨_, hparse⟩
  exact ⟨g, hg, (hdeclares g _ hg).1 hparse⟩

end CallSig.Grammar
