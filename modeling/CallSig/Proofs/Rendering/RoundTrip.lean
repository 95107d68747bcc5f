import CallSig.Proofs.Rendering.Line
import CallSig.Proofs.Resolution.Installation
import CallSig.Proofs.Resolution.Plan

/-!
# `CallSig.Proofs.Rendering.RoundTrip` — descriptor lines of variants read back

A variant that was assembled from a line is rendered as a line of its own. If all types that are left are builtin
types and all defaults are integers, booleans or `None`, that line can be read, and its arguments have the names of
the parameters. They have the kinds of the parameters too, unless there is a parameter that collects positional
values and a keyword-only one after it: the line writes no star for the latter, and the reader wants one.

## Contents
- **Lines.** `readName_single`, `parse_line`, `parse_descriptorLine`.
- **Variants.** `Variant.Simple`, `legible_render`, `demote`, `parse_render`, `map_demote_eq_iff`.
- **Lines of integers.** `assemble_int`: what assembly makes of arguments of type `int`.
- **Reading again.** `descriptorLine_reread`; `starred_demoted`, a line that loses a kind.
-/

namespace CallSig

open Descriptor

/-! ## Lines -/

namespace Descriptor

open Word Lexeme

/-- A name without dots. -/
theorem readName_single {x y : Lexeme} (hx : x.token = .identifier) (hy : y.token ≠ .dot) (stop : Nat)
    (xs : List Lexeme) : readName stop (x :: y :: xs) = .ok (x, [], y :: xs) := by
  have hmore : readSegments stop (y :: xs) = .ok ([], y :: xs) := by
    cases xs <;> simp [readSegments, hy]
  unfold readName
  rw [expect_cons hx]
  simp only [bind, Except.bind]
  rw [hmore]
  rfl

theorem readResult_words {xs : List Lexeme} {tail : List Word} (h : xs.map Lexeme.word = tail)
    (htail : tail = [] ∨ ∃ w ws, tail = arrow :: w :: ws) (stop : Nat) :
    ∃ result?, readResult stop xs = .ok result? := by
  rcases htail with rfl | ⟨w, ws, rfl⟩
  · obtain rfl := List.map_eq_nil_iff.1 h
    exact ⟨none, rfl⟩
  · obtain ⟨x, xs, rfl, hx, h⟩ := List.map_eq_cons_iff.1 h
    obtain ⟨y, xs, rfl, -, -⟩ := List.map_eq_cons_iff.1 h
    have htoken : x.token = .arrow := congrArg Word.token hx
    simp [readResult, htoken]

/-- **A line of words**: a name, items between round brackets, and perhaps an arrow and more. Its arguments are what
the items come to. -/
theorem parse_line {name : List Char} {items : List Item} {tail : List Word} (hname : IsName name)
    (hgood : ∀ item ∈ items, item.Good) (htail : tail = [] ∨ ∃ w ws, tail = arrow :: w :: ws) (hreads : Reads tail [])
    {line : String}
    (hline : line.toList = Word.spelled
      (Word.name name :: sign (.opening .round) '(' :: (joined items ++ sign (.closing .round) ')' :: tail)))
    {m : Marks} (hm : Item.applyAll Marks.start items = some m) (depth : Nat) :
    ∃ d, parse depth line = .ok d ∧ d.arguments.map Argument.slot = m.slots := by
  -- first the scanner: the whole line is read as its words
  have hwhole : Reads
      (Word.name name :: sign (.opening .round) '(' :: (joined items ++ sign (.closing .round) ')' :: tail)) [] := by
    refine ⟨reads_name hname (endsName_cons (by decide) _), reads_sign _ (by decide) fun _ => rfl, ?_⟩
    refine reads_append (reads_joined hgood (endsName_cons (by decide) _)) ⟨?_, hreads⟩
    exact reads_sign _ (by decide) fun _ => rfl
  obtain ⟨xs, hxs, hwords⟩ := ofText_spelled hwhole
  obtain ⟨x, xs, rfl, hx, hwords⟩ := List.map_eq_cons_iff.1 hwords
  obtain ⟨opened, xs, rfl, ho, hwords⟩ := List.map_eq_cons_iff.1 hwords
  obtain ⟨inner, xs, rfl, hinner, hwords⟩ := List.map_eq_append_iff.1 hwords
  obtain ⟨closed, after, rfl, hc, hafter⟩ := List.map_eq_cons_iff.1 hwords
  have hx : x.token = .identifier := congrArg Word.token hx
  have ho : opened.token = .opening .round := congrArg Word.token ho
  have hc : closed.token = .closing .round := congrArg Word.token hc
  -- then the parser, part by part
  obtain ⟨args, hargs, hslots⟩ := readArguments_joined hgood (Nat.le_max_right depth 1) hinner hm
  obtain ⟨result?, hresult⟩ := readResult_words hafter htail (Text.width line.toList)
  refine ⟨⟨none, [], escapeReserved (String.ofList x.text), args, result?, Lexeme.runSpan x []⟩, ?_, hslots⟩
  rw [← hline] at hxs
  unfold parse
  simp only [bind, Except.bind, hxs, readIndex_name hx, readName_single hx (by simp [ho] : opened.token ≠ .dot),
    expect_cons ho, untilClose?_joined hinner hc, parserDepth, hargs, hresult]
  rfl

end Descriptor

/-- **The line of a rendering can be read** if its parameters are legible and in order and its result is built from
builtin types; what comes back are the names, and the kinds that the line has stars for. -/
theorem Rendering.parse_descriptorLine {r : Rendering} (hlegible : ∀ p ∈ r.params, p.Legible)
    (horder : r.params.Pairwise fun p q => p.kind.Before q.kind) (hresult : ∀ t, r.result? = some t → t.OfBuiltins)
    {name : String} (hname : IsName name.toList) (depth : Nat) :
    ∃ d, parse depth (r.descriptorLine name) = .ok d ∧
      d.arguments.map Argument.slot = r.params.map (ShownParam.reread (collects r.params)) := by
  obtain ⟨m, hrun, hslots⟩ := applyAll_lineForms (fun p hp => (hlegible p hp).named) horder
  rw [← hslots]
  have hopen : "(".toList = ['('] := by decide
  have hclose : ")".toList = [')'] := by decide
  have harrow : "->".toList = ['-', '>'] := by decide
  unfold Rendering.descriptorLine
  cases hr : r.result? with
  | none =>
    refine parse_line hname (good_lineForms true hlegible) (.inl rfl) trivial ?_ hrun depth
    simp [spelled_joined_lineForms, Word.name, Word.sign, hopen, hclose]
  | some t =>
    obtain ⟨w, ws, htext, hreads⟩ := readable_text (hresult t hr)
    have htail : Word.Reads (Word.arrow :: w :: ws) [] := ⟨Word.reads_arrow _, hreads [] endsName_nil⟩
    refine parse_line hname (good_lineForms true hlegible) (.inr ⟨w, ws, rfl⟩) htail ?_ hrun depth
    simp only [String.toList_append, Word.spelled_cons, Word.spelled_append, spelled_joined_lineForms, ← htext, hopen,
      hclose, harrow, Word.name, Word.sign, Word.arrow]
    simp

/-! ## Variants -/

/-- The name and kind with which a slot comes back, if the stars are lost or not. -/
def demote (lost : Bool) (slot : String × ParamKind) : String × ParamKind :=
  (slot.1, if lost && slot.2 == .keywordOnly then .positionalOrKeyword else slot.2)

namespace Variant

/-- The types that are left are builtin types, and the defaults are integers, booleans or `None`. -/
structure Simple (v : Variant) : Prop where
  hints : ∀ p ∈ v.params, ∀ t, p.hint? = some t → t.Short
  defaults : ∀ value ∈ v.defaults, value.Short
  keywordDefaults : ∀ entry ∈ v.keywordDefaults, entry.2.Short
  result : ∀ t, v.result? = some t → t.OfBuiltins

theorem short_defaultAt {v : Variant} (h : v.Simple) {i : Nat} {value : Value} (hd : v.defaultAt i = some value) :
    value.Short := by
  unfold defaultAt at hd
  obtain ⟨p, -, hd⟩ := Option.bind_eq_some_iff.1 hd
  dsimp only at hd
  split at hd
  · split at hd
    · cases hd
    · exact h.defaults value (List.mem_of_getElem? hd)
  · obtain ⟨entry, hentry, rfl⟩ := Option.map_eq_some_iff.1 hd
    exact h.keywordDefaults entry (List.mem_of_find?_eq_some hentry)

theorem params_render (v : Variant) :
    (v.render .function .full).params = v.params.mapIdx fun i p => shownParam .full p (v.defaultAt i) := rfl

theorem slots_render (v : Variant) :
    (v.render .function .full).params.map ShownParam.slot = v.params.map Parameter.slot := by
  rw [params_render]
  apply List.ext_getElem?
  intro i
  simp only [List.getElem?_map, List.getElem?_mapIdx, Option.map_map]
  rfl

/-- **Every shown parameter of a simple variant can be read again.** -/
theorem legible_render {v : Variant} (h : v.Simple) (hnamed : ∀ p ∈ v.params, Named p.slot) :
    ∀ p ∈ (v.render .function .full).params, p.Legible := by
  rw [params_render]
  intro shown hshown
  obtain ⟨i, hi, rfl⟩ := List.mem_mapIdx.1 hshown
  have hmem : v.params[i] ∈ v.params := List.getElem_mem hi
  refine ⟨hnamed _ hmem, h.hints _ hmem, ?_⟩
  intro d hd
  obtain ⟨value, hvalue, rfl⟩ := Option.map_eq_some_iff.1 (show (v.defaultAt i).map _ = some d from hd)
  exact ⟨value, rfl, short_defaultAt h hvalue⟩

/-- Whether some parameter collects positional values. -/
def collects (v : Variant) : Bool := v.params.any fun p => p.kind == .varPositional

/-- **What the line of a simple variant says**: the names of its parameters, and their kinds except that keyword-only
ones are demoted if the variant collects positional values. -/
theorem parse_render {descriptor : Descriptor} {v : Variant} (hfrom : ComesFrom descriptor v)
    (hname : Clean descriptor.name) (hnamed : ∀ arg ∈ descriptor.arguments, Named arg.slot) (h : v.Simple)
    (depth : Nat) :
    ∃ d, Descriptor.parse depth ((v.render .function .full).descriptorLine v.shortName) = .ok d ∧
      d.arguments.map Argument.slot = (v.params.map Parameter.slot).map (demote v.collects) := by
  have hparams : ∀ p ∈ v.params, Named p.slot := by
    intro p hp
    obtain ⟨arg, harg, hslot⟩ := List.mem_map.1 (hfrom.params.subset (List.mem_map_of_mem hp))
    rw [← hslot]
    exact hnamed arg harg
  have horder : (v.render .function .full).params.Pairwise fun p q => p.kind.Before q.kind := by
    have hslots : (v.params.map Parameter.slot).Pairwise fun a b => a.2.Before b.2 := List.pairwise_map.2 hfrom.order
    rwa [← slots_render, List.pairwise_map] at hslots
  have hcollects : Rendering.collects (v.render .function .full).params = v.collects := by
    have hany := congrArg (fun slots => slots.any fun slot => slot.2 == .varPositional) (slots_render v)
    simp only [List.any_map] at hany
    exact hany
  have hshort : IsName v.shortName.toList := by
    rw [hfrom.name]
    exact hname.1
  obtain ⟨d, hparse, hslots⟩ :=
    Rendering.parse_descriptorLine (legible_render h hparams) horder h.result hshort depth
  refine ⟨d, hparse, ?_⟩
  rw [hslots, hcollects, ← slots_render, List.map_map]
  rfl

/-- Demotion changes nothing exactly if there is nothing to demote. -/
theorem map_demote_eq_iff (v : Variant) :
    ((v.params.map Parameter.slot).map (demote v.collects)).map Prod.snd = v.params.map Parameter.kind ↔
      ¬((∃ p ∈ v.params, p.kind = .varPositional) ∧ ∃ p ∈ v.params, p.kind = .keywordOnly) := by
  have hcollects : v.collects = true ↔ ∃ p ∈ v.params, p.kind = .varPositional := by
    simp [collects]
  rw [← hcollects, List.map_map, List.map_map, List.map_inj_left]
  -- a demoted parameter is keyword-only, and the variant collects positional values
  constructor
  · rintro hkept ⟨hlost, p, hp, hkind⟩
    have hp' := hkept p hp
    simp [demote, Parameter.slot, hlost, hkind] at hp'
  · intro hnone p hp
    show (demote v.collects p.slot).2 = p.kind
    unfold demote Parameter.slot
    split
    · next hdemoted =>
      obtain ⟨hlost, hkind⟩ := (Bool.and_eq_true _ _).mp hdemoted
      exact absurd ⟨hlost, p, hp, eq_of_beq hkind⟩ hnone
    · rfl

/-! ## Lines of integers -/

open Lexicon

theorem known_int : baseline.known? "int" = some (.builtin .int) := by
  rw [known?_baseline]
  rfl

theorem resolveType_int {l : Lexicon} (h : l.known? "int" = some (.builtin .int)) (depth : Nat)
    (scope? : Option String) : resolveType depth scope? "int" l = (.builtin .int, (l.cached "int").2) := by
  have htrim : Text.trimmed "int" = "int" := by decide +kernel
  unfold resolveType
  rw [htrim]
  exact typeAt_hit h depth scope? maxHops

/-- The parameter that an argument of type `int`, or a variadic one, becomes. -/
def intParam (arg : Argument) : Parameter :=
  ⟨arg.name, arg.kind, if arg.kind.isVariadic then none else some (.builtin .int)⟩

/-- An argument of type `int` without a default, or a variadic one. -/
def IntArgument (arg : Argument) : Prop :=
  arg.kind.isVariadic = true ∨ (arg.kind.isVariadic = false ∧ arg.typeToken = "int" ∧ arg.default? = none)

theorem add_int {l : Lexicon} (h : l.known? "int" = some (.builtin .int)) {arg : Argument} (harg : IntArgument arg)
    {d : Draft} (hd : d.defaults = []) (depth : Nat) (declaring? : Option String) :
    ∃ l', d.add depth declaring? arg l = (.ok { d with params := d.params ++ [intParam arg] }, l') ∧
      l'.known? "int" = some (.builtin .int) := by
  unfold Draft.add intParam
  rcases harg with hv | ⟨hv, htype, hdefault⟩
  · refine ⟨l, ?_, h⟩
    rw [if_pos hv, if_pos hv]
    rfl
  · have hrequired : d.addTyped arg (.builtin .int) none =
        .ok { d with params := d.params ++ [⟨arg.name, arg.kind, some (.builtin .int)⟩] } := by
      unfold Draft.addTyped
      simp only [hd, List.isEmpty_nil, Bool.not_true, Bool.false_eq_true, and_false, if_false]
      rfl
    refine ⟨(l.cached "int").2, ?_, by rw [(counted_cached l "int").known?, h]⟩
    rw [if_neg (by simp [hv]), if_neg (by simp [hv]), htype, ← hrequired]
    simp only [bind, StateT.bind, resolveType_int h, Draft.resolveDefault, hdefault]
    rfl

theorem addAll_int {args : List Argument} (hargs : ∀ arg ∈ args, IntArgument arg) (depth : Nat)
    (declaring? : Option String) :
    ∀ {d : Draft} {l : Lexicon}, d.defaults = [] → l.known? "int" = some (.builtin .int) →
      ∃ l', d.addAll depth declaring? args l = (.ok { d with params := d.params ++ args.map intParam }, l') := by
  induction args with
  | nil =>
    intro d l _ _
    exact ⟨l, by simp [Draft.addAll]; rfl⟩
  | cons arg args ih =>
    intro d l hd hl
    obtain ⟨harg, hargs⟩ := List.forall_mem_cons.1 hargs
    obtain ⟨l₁, hadd, hl₁⟩ := add_int hl harg hd depth declaring?
    obtain ⟨l', hall⟩ := ih hargs (d := { d with params := d.params ++ [intParam arg] }) hd hl₁
    refine ⟨l', ?_⟩
    simp only [Draft.addAll, bind, StateT.bind, hadd]
    rw [hall, List.append_assoc]
    rfl

/-- The variant of a line with arguments of type `int`. -/
def ofInts (descriptor : Descriptor) : Variant :=
  ⟨descriptor.name, descriptor.fullName, descriptor.index?, descriptor.arguments.map intParam, [], [], none, []⟩

theorem assemble_int {l : Lexicon} (h : l.known? "int" = some (.builtin .int)) {descriptor : Descriptor}
    (hcheck : checkStructure descriptor.arguments = .ok ()) (hargs : ∀ arg ∈ descriptor.arguments, IntArgument arg)
    (hresult : descriptor.result? = none) (depth : Nat) :
    (assemble depth [] none descriptor l).1 = .ok (ofInts descriptor) := by
  obtain ⟨l', hall⟩ := addAll_int hargs depth (descriptor.owner?.or none) (d := Draft.empty) rfl h
  have hfull : qualifiedName descriptor none = descriptor.fullName := by
    unfold qualifiedName
    split
    · next hscope => cases hscope
    · rfl
  unfold assemble
  rw [hcheck]
  simp only [bind, StateT.bind, hall, naturalResult, hresult, hfull]
  rfl

theorem simple_ofInts (descriptor : Descriptor) : (ofInts descriptor).Simple := by
  refine ⟨?_, List.forall_mem_nil _, List.forall_mem_nil _, nofun⟩
  intro p hp t ht
  obtain ⟨arg, -, rfl⟩ := List.mem_map.1 hp
  unfold intParam at ht
  split at ht
  · cases ht
  · cases ht
    trivial

/-! ## Reading again -/

/-- **The line of a variant reads back**, whatever kinds of parameters are mixed in it: a variant that was assembled
from a line, with nothing but builtin types and short defaults left, has a line of its own, whose arguments have the
names of its parameters. They have the kinds of its parameters exactly if it does not both collect positional values
and have a keyword-only parameter. -/
theorem descriptorLine_reread {line : String} {depth : Nat} {descriptor : Descriptor}
    (hparse : Descriptor.parse depth line = .ok descriptor) {l : Lexicon} {depth' : Nat}
    {optionalReturns : List String} {scope? : Option String} {v : Variant}
    (hassemble : (assemble depth' optionalReturns scope? descriptor l).1 = .ok v) (hsimple : v.Simple)
    (depth'' : Nat) :
    ∃ d, Descriptor.parse depth'' ((v.render .function .full).descriptorLine v.shortName) = .ok d ∧
      d.arguments.map Argument.name = v.params.map Parameter.name ∧
      (d.arguments.map Argument.kind = v.params.map Parameter.kind ↔
        ¬((∃ p ∈ v.params, p.kind = .varPositional) ∧ ∃ p ∈ v.params, p.kind = .keywordOnly)) := by
  obtain ⟨hname, hnamed⟩ := named_of_parse hparse
  obtain ⟨d, hd, hslots⟩ := parse_render (comesFrom_of_assemble hassemble) hname hnamed hsimple depth''
  refine ⟨d, hd, ?_, ?_⟩
  · have hnames := congrArg (List.map Prod.fst) hslots
    simpa [Function.comp_def, Argument.slot, Parameter.slot, demote] using hnames
  · have hkinds : d.arguments.map Argument.kind =
        ((v.params.map Parameter.slot).map (demote v.collects)).map Prod.snd := by
      rw [← hslots, List.map_map]
      rfl
    rw [hkinds]
    exact map_demote_eq_iff v

/-- What the line `f(a:int,/,b:int,*,k:int,kw:...)` says. -/
def mixed : Descriptor where
  index? := none
  scope := []
  name := "f"
  arguments :=
    [⟨"a", "int", none, .positionalOnly, ⟨2, 7⟩⟩, ⟨"b", "int", none, .positionalOrKeyword, ⟨10, 15⟩⟩,
     ⟨"k", "int", none, .keywordOnly, ⟨18, 23⟩⟩, ⟨"kw", "...", none, .varKeyword, ⟨24, 30⟩⟩]
  result? := none
  nameSpan := ⟨0, 1⟩

theorem descriptorLine_reread_mixed :
    Descriptor.parse 3 "f(a:int,/,b:int,*,k:int,kw:...)" = .ok mixed ∧
      (assemble 3 [] none mixed baseline).1 = .ok (ofInts mixed) ∧ (ofInts mixed).Simple ∧
      ∃ d, Descriptor.parse 3 (((ofInts mixed).render .function .full).descriptorLine "f") = .ok d ∧
        d.arguments.map Argument.name = ["a", "b", "k", "kw"] ∧
        (d.arguments.map Argument.kind = [.positionalOnly, .positionalOrKeyword, .keywordOnly, .varKeyword] ↔
          ¬((∃ p ∈ (ofInts mixed).params, p.kind = .varPositional) ∧
            ∃ p ∈ (ofInts mixed).params, p.kind = .keywordOnly)) := by
  have hparse : Descriptor.parse 3 "f(a:int,/,b:int,*,k:int,kw:...)" = .ok mixed :=
    eq_ok_of_toOption (by decide +kernel)
  have hargs : ∀ arg ∈ mixed.arguments, IntArgument arg := by
    unfold IntArgument
    decide
  have hassemble : (assemble 3 [] none mixed baseline).1 = .ok (ofInts mixed) :=
    assemble_int known_int rfl hargs rfl 3
  have hsimple := simple_ofInts mixed
  exact ⟨hparse, hassemble, hsimple, descriptorLine_reread hparse hassemble hsimple 3⟩

/-- What the line `f(arg__1:...,*,k:int)` says. -/
def starred : Descriptor where
  index? := none
  scope := []
  name := "f"
  arguments := [⟨"args", "...", none, .varPositional, ⟨2, 12⟩⟩, ⟨"k", "int", none, .keywordOnly, ⟨15, 20⟩⟩]
  result? := none
  nameSpan := ⟨0, 1⟩

/-- **A lost kind**: the line of `f(arg__1:...,*,k:int)` is `f(arg__1:...,k:int)`, where `k` may be passed by
position. -/
theorem starred_demoted :
    Descriptor.parse 3 "f(arg__1:...,*,k:int)" = .ok starred ∧
      (assemble 3 [] none starred baseline).1 = .ok (ofInts starred) ∧ (ofInts starred).Simple ∧
      ∃ d, Descriptor.parse 3 (((ofInts starred).render .function .full).descriptorLine "f") = .ok d ∧
        d.arguments.map Argument.kind = [.varPositional, .positionalOrKeyword] ∧
        (ofInts starred).params.map Parameter.kind = [.varPositional, .keywordOnly] := by
  have hparse : Descriptor.parse 3 "f(arg__1:...,*,k:int)" = .ok starred := eq_ok_of_toOption (by decide +kernel)
  have hargs : ∀ arg ∈ starred.arguments, IntArgument arg := by
    unfold IntArgument
    decide
  have hline : ((ofInts starred).render .function .full).descriptorLine "f" = "f(arg__1:...,k:int)" := by
    decide +kernel
  let demoted : Descriptor :=
    { starred with
      arguments :=
        [⟨"args", "...", none, .varPositional, ⟨2, 12⟩⟩, ⟨"k", "int", none, .positionalOrKeyword, ⟨13, 18⟩⟩] }
  have hdemoted : Descriptor.parse 3 "f(arg__1:...,k:int)" = .ok demoted := eq_ok_of_toOption (by decide +kernel)
  refine ⟨hparse, assemble_int known_int rfl hargs rfl 3, simple_ofInts starred, demoted, ?_, rfl, rfl⟩
  rw [hline]
  exact hdemoted

end Variant

end CallSig
