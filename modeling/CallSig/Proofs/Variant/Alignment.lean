import CallSig.Proofs.Descriptor.Acceptance
import CallSig.Proofs.Variant.Origin

/-!
# `CallSig.Proofs.Variant.Alignment` — what becomes of each argument

Assembly asks the lexicon about the arguments one after the other. What it is told of each of them, its reading, is
all that the variant depends on: an output goes into the result, any other argument becomes a parameter. A draft
keeps the defaults of positional parameters without their names, in a list that counts from the right. Three checks
make this enough: kinds do not decrease, so the positional parameters come first; once one of them has a default,
all later ones have; and names are distinct, so that the other defaults are found by name.

## Contents
- **Readings.** `Reading`, `read`, `readAll`; `Reading.Of`, `returns_readAll`.
- **Drafts.** `Draft.addReadings`, `addAll_fst`, `addAll_snd`; `Draft.Gathers`, `gathers_of_addReadings`.
- **Order.** `countP_le_one`, `eq_filter_append_filter`.
- **Defaults.** `find?_keywordDefaults`, `defaultAt_eq`.
- **Results.** `Joined`, `Bundled`, `bundled_resultType`, `exists_joined`, `naturalResult_fst`.
- **Variants.** `Aligned`, `Collected`, `aligned_of_assemble`.
-/

namespace CallSig
namespace Variant

/-! ## Readings -/

/-- What the lexicon makes of an argument. -/
inductive Reading
  | variadic
  | output (t : TypeExpr)
  | typed (value : Value) (default? : Option Value)

namespace Reading

/-- The type that is written through an output. -/
def output? : Reading → Option TypeExpr
  | output t => some t
  | _ => none

/-- The resolved default. -/
def default? : Reading → Option Value
  | typed _ default? => default?
  | _ => none

/-- Whether the argument becomes a parameter. -/
def isParam (r : Reading) : Bool := r.output?.isNone

end Reading

/-- Asks the lexicon about an argument: what its type token is, from where the line is declared, and then what its
default token is as a value of this type. A variadic argument has no type to resolve, and the default of an output is
not looked at. -/
def read (depth : Nat) (declaring? : Option String) (arg : Argument) : LexiconM Reading := do
  if arg.kind.isVariadic then return .variadic
  else
    match ← Lexicon.resolveType depth declaring? arg.typeToken with
    | .output t => return .output t
    | value =>
      match arg.default? with
      | none => return .typed value none
      | some token => return .typed value (some (← Lexicon.resolveValue depth (some arg.typeToken) token))

/-- Asks the lexicon about arguments, from left to right. -/
def readAll (depth : Nat) (declaring? : Option String) : List Argument → LexiconM (List (Argument × Reading))
  | [] => return []
  | arg :: args => do
    let r ← read depth declaring? arg
    let rest ← readAll depth declaring? args
    return (arg, r) :: rest

theorem readAll_cons (depth : Nat) (declaring? : Option String) (arg : Argument) (args : List Argument) (l : Lexicon) :
    readAll depth declaring? (arg :: args) l =
      ((arg, (read depth declaring? arg l).1) :: (readAll depth declaring? args (read depth declaring? arg l).2).1,
        (readAll depth declaring? args (read depth declaring? arg l).2).2) := rfl

/-- What is known of the reading of an argument, whatever the lexicon holds. -/
inductive Reading.Of (arg : Argument) : Reading → Prop
  | variadic (h : arg.kind.isVariadic = true) : Of arg .variadic
  | output (t : TypeExpr) (h : arg.kind.isVariadic = false) : Of arg (.output t)
  | typed (value : Value) (default? : Option Value) (h : arg.kind.isVariadic = false)
      (hd : default?.isSome = arg.default?.isSome) : Of arg (.typed value default?)

theorem returns_read (depth : Nat) (declaring? : Option String) (arg : Argument) :
    Returns (read depth declaring? arg) (Reading.Of arg) := by
  unfold read
  split
  · next hv => exact returns_pure (.variadic hv)
  · next hv =>
    have hv : arg.kind.isVariadic = false := by simpa using hv
    refine returns_bind (returns_true _) fun value _ => ?_
    split
    · exact returns_pure (.output _ hv)
    · split
      · next hnone => exact returns_pure (.typed _ _ hv (by rw [hnone]; rfl))
      · next token hsome =>
        exact returns_bind (returns_true _) fun default _ => returns_pure (.typed _ _ hv (by rw [hsome]; rfl))

theorem returns_readAll (depth : Nat) (declaring? : Option String) (args : List Argument) :
    Returns (readAll depth declaring? args) fun rs => rs.map Prod.fst = args ∧ ∀ x ∈ rs, Reading.Of x.1 x.2 := by
  induction args with
  | nil => exact returns_pure ⟨rfl, List.forall_mem_nil _⟩
  | cons arg args ih =>
    refine returns_bind (returns_read depth declaring? arg) fun r hr => ?_
    refine returns_bind ih fun rest hrest => returns_pure ?_
    exact ⟨by rw [List.map_cons, hrest.1], List.forall_mem_cons.2 ⟨hr, hrest.2⟩⟩

/-! ## Drafts -/

namespace Draft

/-- Adds an argument with its reading. -/
def addReading (d : Draft) (arg : Argument) : Reading → Except AssemblyError Draft
  | .variadic => .ok { d with params := d.params ++ [⟨arg.name, arg.kind, none⟩] }
  | .output t => .ok { d with outputs := d.outputs ++ [(arg.name, t)] }
  | .typed value default? => d.addTyped arg value default?

/-- Adds arguments with their readings up to the first one that does not fit. -/
def addReadings (d : Draft) : List (Argument × Reading) → Except AssemblyError Draft
  | [] => .ok d
  | (arg, r) :: rs =>
    match d.addReading arg r with
    | .ok d => d.addReadings rs
    | .error e => .error e

/-- Adding an argument is asking about it and adding its reading. -/
theorem add_eq (depth : Nat) (declaring? : Option String) (d : Draft) (arg : Argument) (l : Lexicon) :
    d.add depth declaring? arg l =
      (d.addReading arg (read depth declaring? arg l).1, (read depth declaring? arg l).2) := by
  unfold add read resolveDefault
  split
  · rfl
  · simp only [bind, StateT.bind]
    generalize Lexicon.resolveType depth declaring? arg.typeToken l = found
    obtain ⟨value, l'⟩ := found
    generalize Lexicon.resolveValue depth (some arg.typeToken) = ask
    cases arg.default? <;> cases value <;> rfl

/-- Adding arguments stops at the first one whose reading does not fit, as adding their readings does. -/
theorem addAll_fst {depth : Nat} {declaring? : Option String} {args : List Argument} :
    ∀ {d : Draft} {l : Lexicon}, (d.addAll depth declaring? args l).1 =
      d.addReadings (readAll depth declaring? args l).1 := by
  induction args with
  | nil => exact fun {_ _} => rfl
  | cons arg args ih =>
    intro d l
    rw [readAll_cons]
    simp only [addAll, bind, StateT.bind, add_eq, addReadings]
    cases d.addReading arg (read depth declaring? arg l).1 with
    | error e => rfl
    | ok d₁ => exact ih

/-- Arguments that are added without an error have been asked about from the first to the last. -/
theorem addAll_snd {depth : Nat} {declaring? : Option String} {args : List Argument} {d' : Draft} :
    ∀ {d : Draft} {l : Lexicon}, (d.addAll depth declaring? args l).1 = .ok d' →
      (d.addAll depth declaring? args l).2 = (readAll depth declaring? args l).2 := by
  induction args with
  | nil => exact fun _ => rfl
  | cons arg args ih =>
    intro d l h
    rw [readAll_cons]
    simp only [addAll, bind, StateT.bind, add_eq] at h ⊢
    cases hadd : d.addReading arg (read depth declaring? arg l).1 with
    | error e =>
      rw [hadd] at h
      cases h
    | ok d₁ =>
      rw [hadd] at h
      exact ih h

end Draft

/-- The arguments that become parameters. -/
def kept (rs : List (Argument × Reading)) : List (Argument × Reading) := rs.filter fun x => x.2.isParam

/-- The output that an argument is, with the type written through it. -/
def output? (x : Argument × Reading) : Option (String × TypeExpr) := x.2.output?.map fun t => (x.1.name, t)

/-- The default of an argument that cannot be passed by position, under its name. -/
def keywordDefault? (x : Argument × Reading) : Option (String × Value) :=
  if x.1.kind.isPositional then none else x.2.default?.map fun value => (x.1.name, value)

/-- The defaults of the arguments that can be passed by position, and the places without one. -/
def positionalDefaults (rs : List (Argument × Reading)) : List (Option Value) :=
  (rs.filter fun x => x.1.kind.isPositional).map fun x => x.2.default?

theorem positionalDefaults_of_positional {x : Argument × Reading} (h : x.1.kind.isPositional = true) :
    positionalDefaults [x] = [x.2.default?] := by
  simp [positionalDefaults, h]

theorem positionalDefaults_of_not_positional {x : Argument × Reading} (h : x.1.kind.isPositional = false) :
    positionalDefaults [x] = [] := by
  simp [positionalDefaults, h]

theorem name_of_keywordDefault? {x : Argument × Reading} {found : String × Value} (h : keywordDefault? x = some found) :
    found.1 = x.1.name := by
  unfold keywordDefault? at h
  split at h
  · cases h
  · obtain ⟨value, -, rfl⟩ := Option.map_eq_some_iff.1 h
    rfl

/-- The draft holds what these readings give: parameters and outputs in order, the defaults of positional parameters
without a gap up to the last one, and the other defaults by name. -/
structure Draft.Gathers (rs : List (Argument × Reading)) (d : Draft) : Prop where
  params : d.params.map Parameter.slot = (kept rs).map fun x => x.1.slot
  outputs : d.outputs = rs.filterMap output?
  defaults : ∃ n, positionalDefaults (kept rs) = List.replicate n none ++ d.defaults.map some
  keywords : d.keywordDefaults = (kept rs).filterMap keywordDefault?

namespace Draft

variable {rs : List (Argument × Reading)} {arg : Argument} {r : Reading} {d d' : Draft}

theorem gathers_empty : Gathers [] empty := ⟨rfl, rfl, ⟨0, rfl⟩, rfl⟩

/-- A parameter goes to the end of those before it, and its default to the end of the positional ones or under its
name. A positional one without a default has no defaults before it. -/
theorem Gathers.push (hd : Gathers rs d) (hr : r.output? = none) {hint? : Option TypeExpr} {defaults : List Value}
    {keywordDefaults : List (String × Value)}
    (hdefaults : ∀ n, positionalDefaults (kept rs) = List.replicate n none ++ d.defaults.map some →
      ∃ m, positionalDefaults (kept rs) ++ positionalDefaults [(arg, r)] =
        List.replicate m none ++ defaults.map some)
    (hkeywords : keywordDefaults = d.keywordDefaults ++ (keywordDefault? (arg, r)).toList) :
    Gathers (rs ++ [(arg, r)]) ⟨d.params ++ [⟨arg.name, arg.kind, hint?⟩], defaults, keywordDefaults, d.outputs⟩ := by
  have hkept : kept (rs ++ [(arg, r)]) = kept rs ++ [(arg, r)] := by simp [kept, Reading.isParam, hr]
  obtain ⟨n, hn⟩ := hd.defaults
  refine ⟨?_, ?_, ?_, ?_⟩
  · rw [hkept, List.map_append, List.map_append, hd.params]
    rfl
  · rw [List.filterMap_append, hd.outputs]
    simp [output?, hr]
  · obtain ⟨m, hm⟩ := hdefaults n hn
    refine ⟨m, ?_⟩
    rw [hkept, ← hm]
    simp [positionalDefaults]
  · rw [hkept, List.filterMap_append, ← hd.keywords, hkeywords]
    cases h : keywordDefault? (arg, r) <;> simp [h]

theorem Gathers.addTyped (hd : Gathers rs d) {value : Value} {default? : Option Value}
    (h : d.addTyped arg value default? = .ok d') : Gathers (rs ++ [(arg, .typed value default?)]) d' := by
  unfold Draft.addTyped at h
  cases default? with
  | some default =>
    dsimp only at h
    split at h
    · next hp =>
      cases h
      refine hd.push rfl (fun n hn => ⟨n, ?_⟩) ?_
      · rw [hn, positionalDefaults_of_positional hp]
        simp [Reading.default?]
      · simp [keywordDefault?, hp]
    · next hp =>
      cases h
      have hp : arg.kind.isPositional = false := by simpa using hp
      refine hd.push rfl (fun n hn => ⟨n, ?_⟩) ?_
      · rw [hn, positionalDefaults_of_not_positional hp, List.append_nil]
      · simp [keywordDefault?, hp, Reading.default?]
  | none =>
    dsimp only at h
    split at h
    · cases h
    · next hfree =>
      cases h
      refine hd.push rfl (fun n hn => ?_) ?_
      · by_cases hp : arg.kind.isPositional = true
        · have hnone : d.defaults = [] := by simpa [hp] using hfree
          refine ⟨n + 1, ?_⟩
          rw [hn, hnone, positionalDefaults_of_positional hp, List.replicate_succ']
          simp [Reading.default?]
        · refine ⟨n, ?_⟩
          rw [hn, positionalDefaults_of_not_positional (by simpa using hp), List.append_nil]
      · simp [keywordDefault?, Reading.default?]

theorem isPositional_of_isVariadic {kind : ParamKind} (h : kind.isVariadic = true) : kind.isPositional = false := by
  cases kind <;> first | rfl | cases h

/-- **One reading** is gathered. -/
theorem Gathers.addReading (hd : Gathers rs d) (hr : Reading.Of arg r) (h : d.addReading arg r = .ok d') :
    Gathers (rs ++ [(arg, r)]) d' := by
  cases hr with
  | variadic hv =>
    cases h
    have hp := isPositional_of_isVariadic hv
    refine hd.push rfl (fun n hn => ⟨n, ?_⟩) ?_
    · rw [hn, positionalDefaults_of_not_positional hp, List.append_nil]
    · simp [keywordDefault?, Reading.default?]
  | output t hv =>
    cases h
    have hkept : kept (rs ++ [(arg, .output t)]) = kept rs := by simp [kept, Reading.isParam, Reading.output?]
    obtain ⟨hparams, houtputs, hdefaults, hkeywords⟩ := hd
    refine ⟨by rw [hkept, ← hparams], ?_, by rwa [hkept], by rw [hkept, ← hkeywords]⟩
    rw [List.filterMap_append, houtputs]
    rfl
  | typed value default? => exact hd.addTyped h

/-- **All readings** are gathered. -/
theorem gathers_of_addReadings {more : List (Argument × Reading)} :
    ∀ {rs : List (Argument × Reading)} {d : Draft}, Gathers rs d → (∀ x ∈ more, Reading.Of x.1 x.2) →
      d.addReadings more = .ok d' → Gathers (rs ++ more) d' := by
  induction more with
  | nil =>
    intro rs d hd _ h
    cases h
    rwa [List.append_nil]
  | cons x more ih =>
    intro rs d hd hof h
    obtain ⟨arg, r⟩ := x
    obtain ⟨hr, hmore⟩ := List.forall_mem_cons.1 hof
    rw [addReadings] at h
    split at h
    · next d₁ hadd =>
      rw [List.append_cons]
      exact ih (hd.addReading hr hadd) hmore h
    · cases h

end Draft

/-! ## Order -/

/-- Where kinds may follow one another, a variadic one comes once. -/
theorem countP_le_one {params : List Parameter} (h : params.Pairwise fun p q => p.kind.Before q.kind) {kind : ParamKind}
    (hv : kind.isVariadic = true) : params.countP (fun p => p.kind = kind) ≤ 1 := by
  have hkinds : (params.map Parameter.kind).Pairwise ParamKind.Before := List.pairwise_map.2 h
  have hcount := (ParamKind.pairwise_before_iff.1 hkinds).2 kind hv
  rw [List.count, List.countP_map] at hcount
  exact hcount

/-- A list in which nothing that has a property stands after something that has it not begins with all that have
it. -/
theorem eq_filter_append_filter {α : Type} {p : α → Bool} {xs : List α}
    (h : xs.Pairwise fun a b => p b = true → p a = true) : xs = xs.filter p ++ xs.filter fun a => !p a := by
  induction h with
  | nil => rfl
  | @cons x xs hx _ ih =>
    by_cases hp : p x = true
    · rw [List.filter_cons_of_pos hp, List.filter_cons_of_neg (by simpa using hp), List.cons_append, ← ih]
    · have hnone : xs.filter p = [] := List.filter_eq_nil_iff.2 fun y hy hpy => hp (hx y hy hpy)
      rw [hnone, List.nil_append] at ih
      rw [List.filter_cons_of_neg hp, List.filter_cons_of_pos (by simpa using hp), hnone, ← ih]
      rfl

/-! ## Defaults -/

variable {ks : List (Argument × Reading)}

/-- Under distinct names, a default that is kept by name is found under the name of its argument. -/
theorem find?_keywordDefaults (hnames : (ks.map fun x => x.1.name).Nodup) {x : Argument × Reading} (hx : x ∈ ks)
    (hkind : x.1.kind.isPositional = false) :
    ((ks.filterMap keywordDefault?).find? fun found => found.1 == x.1.name).map Prod.snd = x.2.default? := by
  induction ks with
  | nil => cases hx
  | cons y ks ih =>
    rw [List.map_cons, List.nodup_cons] at hnames
    obtain ⟨hy, hnames⟩ := hnames
    rcases List.mem_cons.1 hx with rfl | hx
    · cases hdefault : x.2.default? with
      | some value => simp [keywordDefault?, hkind, hdefault]
      | none =>
        have hskip : keywordDefault? x = none := by simp [keywordDefault?, hdefault]
        rw [List.filterMap_cons_none hskip]
        -- no later argument has this name
        have hnone : ((ks.filterMap keywordDefault?).find? fun found => found.1 == x.1.name) = none := by
          rw [List.find?_eq_none]
          rintro ⟨name, value⟩ hmem hname
          obtain ⟨z, hz, hfound⟩ := List.mem_filterMap.1 hmem
          refine hy (List.mem_map.2 ⟨z, hz, ?_⟩)
          rw [← name_of_keywordDefault? hfound]
          simpa using hname
        rw [hnone]
        rfl
    · have hne : y.1.name ≠ x.1.name := fun he => hy (he ▸ List.mem_map_of_mem (f := fun x => x.1.name) hx)
      cases hskip : keywordDefault? y with
      | none =>
        rw [List.filterMap_cons_none hskip]
        exact ih hnames hx
      | some found =>
        have hfound : ¬(found.1 == x.1.name) = true := by
          rw [name_of_keywordDefault? hskip]
          simpa using hne
        rw [List.filterMap_cons_some hskip]
        simp only [List.find?_cons, hfound]
        exact ih hnames hx

/-- **Alignment**: of a variant whose parameters come from these arguments, in the order of their kinds and under
distinct names, each parameter has the default of its argument. -/
theorem defaultAt_eq {v : Variant} (hparams : v.params.map Parameter.slot = ks.map fun x => x.1.slot)
    (hdefaults : ∃ n, positionalDefaults ks = List.replicate n none ++ v.defaults.map some)
    (hkeywords : v.keywordDefaults = ks.filterMap keywordDefault?)
    (horder : ks.Pairwise fun x y => x.1.kind.rank ≤ y.1.kind.rank) (hnames : (ks.map fun x => x.1.name).Nodup)
    (i : Nat) : v.defaultAt i = ks[i]?.bind fun x => x.2.default? := by
  obtain ⟨n, hn⟩ := hdefaults
  let positional : List (Argument × Reading) := ks.filter fun x => x.1.kind.isPositional
  have hcount : v.positionalCount = positional.length := by
    have hslots : v.positionalCount = (v.params.map Parameter.slot).countP fun slot => slot.2.isPositional := by
      rw [List.countP_map]
      rfl
    rw [hslots, hparams, List.countP_map, ← List.countP_eq_length_filter]
    rfl
  have hlength : positional.length = n + v.defaults.length := by
    have hl := congrArg List.length hn
    simpa [positionalDefaults] using hl
  -- the kinds that can be passed by position have the two lowest ranks
  have hsplit : ks = positional ++ ks.filter fun x => !x.1.kind.isPositional := by
    refine eq_filter_append_filter (horder.imp fun {x y} hrank hy => ?_)
    cases hx : x.1.kind <;> cases hy' : y.1.kind <;> simp_all [ParamKind.rank, ParamKind.isPositional]
  have hslot : (v.params.map Parameter.slot)[i]? = ks[i]?.map fun x => x.1.slot := by rw [hparams, List.getElem?_map]
  rw [List.getElem?_map] at hslot
  unfold defaultAt
  cases hx : ks[i]? with
  | none =>
    rw [hx] at hslot
    rw [Option.map_eq_none_iff.1 hslot]
    rfl
  | some x =>
    rw [hx] at hslot
    obtain ⟨p, hp, hpx⟩ := Option.map_eq_some_iff.1 hslot
    have hname : p.name = x.1.name := congrArg Prod.fst hpx
    have hkind : p.kind = x.1.kind := congrArg Prod.snd hpx
    rw [hp, Option.bind_some, Option.bind_some, hkind, hname, hcount, hlength]
    dsimp only
    by_cases hi : i < positional.length
    · -- by position: the place is the same among all arguments and among the positional ones
      have hposition : positional[i]? = some x := by
        rw [hsplit, List.getElem?_append_left hi] at hx
        exact hx
      have hpositional : x.1.kind.isPositional = true :=
        (List.mem_filter.1 (List.mem_of_getElem? hposition)).2
      have hplace : (List.replicate n none ++ v.defaults.map some)[i]? = some x.2.default? := by
        rw [← hn]
        show (positional.map _)[i]? = _
        rw [List.getElem?_map, hposition]
        rfl
      rw [if_pos hpositional, Nat.add_sub_cancel]
      by_cases hfirst : i < n
      · rw [if_pos (.inr hfirst)]
        rw [List.getElem?_append_left (by simpa using hfirst), List.getElem?_replicate, if_pos hfirst] at hplace
        exact Option.some.inj hplace
      · rw [if_neg (by omega)]
        rw [List.getElem?_append_right (by simpa using hfirst), List.length_replicate, List.getElem?_map] at hplace
        obtain ⟨value, hvalue, hdefault⟩ := Option.map_eq_some_iff.1 hplace
        rw [hvalue, hdefault]
    · -- by name
      have hother : x ∈ ks.filter fun x => !x.1.kind.isPositional := by
        rw [hsplit, List.getElem?_append_right (Nat.le_of_not_lt hi)] at hx
        exact List.mem_of_getElem? hx
      obtain ⟨hmem, hnot⟩ := List.mem_filter.1 hother
      have hnot : x.1.kind.isPositional = false := by simpa using hnot
      rw [if_neg (by simp [hnot]), hkeywords]
      exact find?_keywordDefaults hnames hmem hnot

/-! ## Results -/

/-- The natural result goes after the outputs, unless there is none or it is the type of `None` beside an output. -/
inductive Joined (outputs : List TypeExpr) : Option TypeExpr → List TypeExpr → Prop
  | absent : Joined outputs none outputs
  | dropped (h : outputs ≠ []) : Joined outputs (some (.builtin .noneType)) outputs
  | last {t : TypeExpr} (h : t = .builtin .noneType → outputs = []) : Joined outputs (some t) (outputs ++ [t])

/-- No type, one type as it is, or a tuple of several. -/
inductive Bundled : List TypeExpr → Option TypeExpr → Prop
  | none : Bundled [] none
  | bare (t : TypeExpr) : Bundled [t] (some t)
  | several (t t' : TypeExpr) (ts : List TypeExpr) : Bundled (t :: t' :: ts) (some (.tuple (t :: t' :: ts)))

theorem bundled_resultType (parts : List TypeExpr) : Bundled parts (resultType parts none) := by
  rcases parts with _ | ⟨t, _ | ⟨t', ts⟩⟩
  · exact .none
  · exact .bare t
  · have hresult : resultType (t :: t' :: ts) none = some (.tuple (t :: t' :: ts)) := by
      unfold resultType
      dsimp only
      rw [List.append_nil]
    rw [hresult]
    exact .several t t' ts

/-- The natural result as assembly appends it to the outputs. -/
theorem exists_joined (outputs : List TypeExpr) (natural? : Option TypeExpr) :
    ∃ parts, Joined outputs natural? parts ∧ Bundled parts (resultType outputs natural?) := by
  suffices hparts : ∃ parts, Joined outputs natural? parts ∧ resultType outputs natural? = resultType parts none by
    obtain ⟨parts, hjoined, hresult⟩ := hparts
    rw [hresult]
    exact ⟨parts, hjoined, bundled_resultType parts⟩
  cases natural? with
  | none => exact ⟨outputs, .absent, rfl⟩
  | some t =>
    by_cases ht : t = .builtin .noneType
    · subst ht
      by_cases hempty : outputs = []
      · subst hempty
        exact ⟨[.builtin .noneType], .last fun _ => rfl, rfl⟩
      · refine ⟨outputs, .dropped hempty, ?_⟩
        have hfilled : outputs.isEmpty = false := by simpa using hempty
        unfold resultType
        dsimp only
        rw [hfilled]
        rfl
    · refine ⟨outputs ++ [t], .last fun h => absurd h ht, ?_⟩
      unfold resultType
      dsimp only
      rw [List.append_nil]
      -- only the type of `None` may be dropped
      cases t with
      | builtin b =>
        cases b with
        | noneType => exact absurd rfl ht
        | _ => rfl
      | _ => rfl

/-- The natural result is the type, as a result, of what the result token resolves to. -/
theorem naturalResult_fst (depth : Nat) (declaring? : Option String) (descriptor : Descriptor) (l : Lexicon) :
    (naturalResult depth declaring? descriptor l).1 =
      descriptor.result?.map fun token => (Lexicon.resolveType depth declaring? token l).1.hint .result := by
  unfold naturalResult
  cases descriptor.result? <;> rfl

/-! ## Variants -/

/-- **What a variant keeps of the arguments of its descriptor**, given with their readings. -/
structure Aligned (rs : List (Argument × Reading)) (descriptor : Descriptor) (v : Variant) : Prop where
  /-- Every argument has been asked about. -/
  arguments : rs.map Prod.fst = descriptor.arguments
  /-- The parameters are the arguments that are no outputs, in order, with their names and kinds. -/
  params : v.params.map Parameter.slot = (kept rs).map fun x => x.1.slot
  /-- The other arguments are promoted, in order. -/
  promoted : v.promoted = (rs.filterMap output?).map Prod.fst
  /-- No argument is lost. -/
  length : descriptor.arguments.length = v.params.length + v.promoted.length
  names : (v.params.map Parameter.name ++ v.promoted).Nodup
  kinds : v.params.Pairwise fun p q => p.kind.rank ≤ q.kind.rank
  variadic : ∀ kind : ParamKind, kind.isVariadic = true → v.params.countP (fun p => p.kind = kind) ≤ 1
  /-- A parameter has the resolved default of the argument that it is. -/
  defaults : ∀ i, v.defaultAt i = (kept rs)[i]?.bind fun x => x.2.default?
  /-- A parameter has no default exactly if its argument has none. -/
  required : ∀ i x, (kept rs)[i]? = some x → (v.defaultAt i = none ↔ x.1.default? = none)

/-- The outputs and the parameters are all arguments, up to their order. -/
theorem perm_names (rs : List (Argument × Reading)) :
    ((kept rs).map (fun x => x.1.name) ++ (rs.filterMap output?).map Prod.fst).Perm
      (rs.map fun x => x.1.name) := by
  induction rs with
  | nil => exact .nil
  | cons x rs ih =>
    cases hout : x.2.output? with
    | none =>
      have hkept : kept (x :: rs) = x :: kept rs := by simp [kept, Reading.isParam, hout]
      have hskip : output? x = none := by simp [output?, hout]
      rw [hkept, List.filterMap_cons_none hskip]
      exact ih.cons _
    | some t =>
      have hkept : kept (x :: rs) = kept rs := by simp [kept, Reading.isParam, hout]
      have hfound : output? x = some (x.1.name, t) := by simp [output?, hout]
      rw [hkept, List.filterMap_cons_some hfound]
      exact List.perm_middle.trans (ih.cons _)

/-- The arguments of a descriptor with what the lexicon makes of them, and the lexicon after that. -/
def readings (depth : Nat) (scope? : Option String) (descriptor : Descriptor) (l : Lexicon) :
    List (Argument × Reading) × Lexicon :=
  readAll depth (descriptor.owner?.or scope?) descriptor.arguments l

/-- A draft that has been made of all arguments, in a checked order, is aligned. -/
theorem aligned_of_gathers {rs : List (Argument × Reading)} {d : Draft} {descriptor : Descriptor} {v : Variant}
    (hd : d.Gathers rs) (hargs : rs.map Prod.fst = descriptor.arguments) (hof : ∀ x ∈ rs, Reading.Of x.1 x.2)
    (hvariadic : ∀ arg ∈ descriptor.arguments, arg.kind.isVariadic = true → arg.default? = none)
    (hcheck : checkStructure descriptor.arguments = .ok ()) (hparams : v.params = d.params)
    (hdefaults : v.defaults = d.defaults) (hkeywords : v.keywordDefaults = d.keywordDefaults)
    (hpromoted : v.promoted = d.outputs.map Prod.fst) : Aligned rs descriptor v := by
  have hslots : v.params.map Parameter.slot = (kept rs).map fun x => x.1.slot := by rw [hparams, hd.params]
  have hpromoted : v.promoted = (rs.filterMap output?).map Prod.fst := by rw [hpromoted, hd.outputs]
  have hnames : v.params.map Parameter.name = (kept rs).map fun x => x.1.name := by
    have h := congrArg (List.map Prod.fst) hslots
    simpa [Function.comp_def, Parameter.slot, Argument.slot] using h
  have hperm : (v.params.map Parameter.name ++ v.promoted).Perm (descriptor.arguments.map Argument.name) := by
    rw [hnames, hpromoted, ← hargs, List.map_map]
    exact perm_names rs
  -- leaving arguments out keeps the order of the kinds, and distinct names distinct
  have hsub : (v.params.map Parameter.slot).Sublist (descriptor.arguments.map Argument.slot) := by
    rw [hslots, ← hargs, List.map_map]
    exact List.filter_sublist.map _
  have horderly := orderly_of_checkStructure hcheck
  have hbefore := pairwise_params horderly.before hsub
  have hnodup : (v.params.map Parameter.name ++ v.promoted).Nodup :=
    hperm.nodup_iff.2 horderly.names
  have hrank : (kept rs).Pairwise fun x y => x.1.kind.rank ≤ y.1.kind.rank := by
    have h : (v.params.map Parameter.slot).Pairwise fun a b => a.2.Before b.2 := List.pairwise_map.2 hbefore
    rw [hslots, List.pairwise_map] at h
    exact h.imp ParamKind.rank_le_of_before
  have hdefault : ∀ i, v.defaultAt i = (kept rs)[i]?.bind fun x => x.2.default? := by
    refine defaultAt_eq hslots ?_ (by rw [hkeywords, hd.keywords]) hrank ?_
    · rw [hdefaults]
      exact hd.defaults
    · rw [← hnames]
      exact (List.nodup_append.1 hnodup).1
  refine ⟨hargs, hslots, hpromoted, ?_, hnodup, ?_, fun kind => countP_le_one hbefore, hdefault, fun i x hx => ?_⟩
  · have hlength := hperm.length_eq
    simpa using hlength.symm
  · exact hbefore.imp ParamKind.rank_le_of_before
  · obtain ⟨hmem, hparam⟩ := List.mem_filter.1 (List.mem_of_getElem? hx)
    have harg : x.1 ∈ descriptor.arguments := hargs ▸ List.mem_map_of_mem hmem
    rw [hdefault, hx, Option.bind_some]
    cases x with
    | mk arg r =>
      cases hof _ hmem with
      | variadic hv => simp [Reading.default?, hvariadic arg harg hv]
      | output t => cases hparam
      | typed value default? _ hsome =>
        rw [← Option.not_isSome_iff_eq_none, ← Option.not_isSome_iff_eq_none]
        exact not_congr (by rw [← hsome]; rfl)

/-- The result that these outputs and this natural result come to, before `None` is added for functions whose results
may be `None`. -/
def Collected (outputs : List TypeExpr) (natural? result? : Option TypeExpr) : Prop :=
  ∃ parts, Joined outputs natural? parts ∧ Bundled parts result?

/-- **Assembly loses nothing and aligns defaults**: whatever the lexicon holds, a variant that is assembled from a
parsed line has all its arguments as parameters or as outputs, in order, each parameter with the default of its own
argument; and its result is made of the outputs and the natural result, which is asked for after the arguments. -/
theorem aligned_of_assemble {line : String} {depth depth' : Nat} {descriptor : Descriptor}
    (hparse : Descriptor.parse depth line = .ok descriptor) {optionalReturns : List String} {scope? : Option String}
    {l : Lexicon} {v : Variant} (hassemble : (assemble depth' optionalReturns scope? descriptor l).1 = .ok v) :
    Aligned (readings depth' scope? descriptor l).1 descriptor v ∧
      ∃ result?, Collected (((readings depth' scope? descriptor l).1.filterMap output?).map Prod.snd)
          (descriptor.result?.map fun token => (Lexicon.resolveType depth' (descriptor.owner?.or scope?) token
            (readings depth' scope? descriptor l).2).1.hint .result)
          result? ∧
        v.result? = if optionalReturns.contains v.fullName then result?.map TypeExpr.orNone else result? := by
  have hreadings := returns_readAll depth' (descriptor.owner?.or scope?) descriptor.arguments l
  unfold assemble at hassemble
  cases hcheck : checkStructure descriptor.arguments with
  | error e =>
    rw [hcheck] at hassemble
    cases hassemble
  | ok =>
    rw [hcheck] at hassemble
    simp only [bind, StateT.bind] at hassemble
    generalize hrun : Draft.empty.addAll depth' (descriptor.owner?.or scope?) descriptor.arguments l = run at hassemble
    obtain ⟨added, l'⟩ := run
    cases added with
    | error e => cases hassemble
    | ok d =>
      have hadd : Draft.empty.addReadings (readings depth' scope? descriptor l).1 = .ok d :=
        Draft.addAll_fst.symm.trans (congrArg Prod.fst hrun)
      have hstate := Draft.addAll_snd (congrArg Prod.fst hrun)
      obtain rfl : l' = (readings depth' scope? descriptor l).2 := (congrArg Prod.snd hrun).symm.trans hstate
      have hd : d.Gathers (readings depth' scope? descriptor l).1 :=
        Draft.gathers_of_addReadings Draft.gathers_empty hreadings.2 hadd
      obtain ⟨parts, hjoined, hbundled⟩ := exists_joined (d.outputs.map Prod.snd)
        (naturalResult depth' (descriptor.owner?.or scope?) descriptor (readings depth' scope? descriptor l).2).1
      cases hassemble
      refine ⟨aligned_of_gathers hd hreadings.1 hreadings.2 ?_ hcheck rfl rfl rfl rfl, _, ⟨parts, ?_, hbundled⟩, rfl⟩
      · exact fun arg hmem => Grammar.default?_eq_none_of_parse hparse hmem
      · rw [← hd.outputs, ← naturalResult_fst]
        exact hjoined

/-- What the line `m.f(a:int,out:int*,b:int=1,*,k:str=nullptr)->int` says. -/
def outputLine : Descriptor where
  index? := none
  scope := ["m"]
  name := "f"
  arguments :=
    [⟨"a", "int", none, .positionalOrKeyword, ⟨4, 9⟩⟩, ⟨"out", "int*", none, .positionalOrKeyword, ⟨10, 18⟩⟩,
     ⟨"b", "int", some "1", .positionalOrKeyword, ⟨19, 26⟩⟩, ⟨"k", "str", some "nullptr", .keywordOnly, ⟨29, 42⟩⟩]
  result? := some "int"
  nameSpan := ⟨0, 3⟩

/-- The lexicon that knows the tokens of this line. -/
def fewTokens : Lexicon :=
  (((Lexicon.blank.register "int" (.builtin .int)).register "int*" (.output (.builtin .int))).register "str"
    (.builtin .str)).register "nullptr" (.literal .null)

theorem aligned_outputLine :
    Descriptor.parse 3 "m.f(a:int,out:int*,b:int=1,*,k:str=nullptr)->int" = .ok outputLine ∧
      ∃ v, (assemble 3 [] none outputLine fewTokens).1 = .ok v ∧
        v.params.map Parameter.name = ["a", "b", "k"] ∧ v.promoted = ["out"] ∧
        (List.range 3).map (fun i => (v.defaultAt i).map Value.text) = [none, some "1", some "None"] ∧
        v.result?.map TypeExpr.text = some "Tuple[int, int]" ∧
        Aligned (readings 3 none outputLine fewTokens).1 outputLine v ∧
        ∃ result?, Collected (((readings 3 none outputLine fewTokens).1.filterMap output?).map Prod.snd)
            (some ((Lexicon.resolveType 3 (some "m") "int" (readings 3 none outputLine fewTokens).2).1.hint .result))
            result? ∧
          v.result? = result? := by
  have hparse : Descriptor.parse 3 "m.f(a:int,out:int*,b:int=1,*,k:str=nullptr)->int" = .ok outputLine :=
    eq_ok_of_toOption (by decide +kernel)
  have hvariant : ((assemble 3 [] none outputLine fewTokens).1.toOption.map fun v =>
      (v.params.map Parameter.name, v.promoted, (List.range 3).map (fun i => (v.defaultAt i).map Value.text),
        v.result?.map TypeExpr.text)) =
      some (["a", "b", "k"], ["out"], [none, some "1", some "None"], some "Tuple[int, int]") := by decide +kernel
  obtain ⟨v, hv, hfields⟩ := Option.map_eq_some_iff.1 hvariant
  obtain ⟨hparams, hfields⟩ := Prod.mk.inj hfields
  obtain ⟨hpromoted, hfields⟩ := Prod.mk.inj hfields
  obtain ⟨hdefaults, hresult⟩ := Prod.mk.inj hfields
  have hassemble := eq_ok_of_toOption hv
  exact ⟨hparse, v, hassemble, hparams, hpromoted, hdefaults, hresult, aligned_of_assemble hparse hassemble⟩

end Variant
end CallSig
