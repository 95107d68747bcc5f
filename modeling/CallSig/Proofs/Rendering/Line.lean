import CallSig.Proofs.Descriptor.Marks
import CallSig.Proofs.Rendering.Types
import CallSig.Proofs.Variant.Origin
import CallSig.Rendering

/-!
# `CallSig.Proofs.Rendering.Line` — the argument list of a descriptor line, read again

The texts that a rendering writes between the round brackets are the words of items. Reading them again goes
through the same parameters with a state of its own: a star that the line has written makes the reader take what
follows for keyword-only, and nothing else does. So the star that the line leaves out after a parameter that
collects positional values is missed.

## Contents
- **Forms.** `ShownParam.form`, `spelled_form`; `Legible`, `good_form`.
- **Lists.** `lineForms`, `spelled_lineForms`, `good_lineForms`.
- **Reading again.** `ShownParam.reread`, `applyAll_keywords`, `applyAll_unslashed`, `applyAll_slashed`,
  `applyAll_lineForms`.
-/

namespace CallSig

open Descriptor

/-! ## Forms -/

/-- A builtin type, perhaps made optional. -/
def TypeExpr.Short : TypeExpr → Prop
  | builtin _ => True
  | optional (builtin _) => True
  | _ => False

/-- An integer, a boolean or `None`. -/
def Value.Short : Value → Prop
  | literal .null => True
  | literal (.bool _) => True
  | literal (.int _) => True
  | _ => False

/-- A type as an argument of a line shows it; a parameter without a type is an object. -/
def Descriptor.TypeForm.ofHint : Option TypeExpr → TypeForm
  | none => .plain "object".toList
  | some (.optional (.builtin b)) => .optional b.name.toList
  | some t => .plain t.text.toList

/-- A default as an argument of a line shows it. -/
def Descriptor.DefaultForm.ofShown : Option ShownDefault → DefaultForm
  | none => .absent
  | some (.value (.literal (.int n))) => .number (decide (n.toInt < 0)) (Nat.toDigits 10 n.toInt.natAbs)
  | some d => .named d.text.toList

namespace ShownParam

/-- The name in the line, and the kind. -/
def slot (p : ShownParam) : String × ParamKind := (p.name?.getD "_", p.kind)

/-- The item that stands for the parameter. -/
def form (p : ShownParam) : Item :=
  match p.kind with
  | .varPositional => .argument "arg__1".toList .dots .absent
  | .varKeyword => .argument p.slot.1.toList .dots .absent
  | _ => .argument p.slot.1.toList (.ofHint p.hint?) (.ofShown p.default?)

end ShownParam

theorem spelled_ofHint (hint? : Option TypeExpr) :
    Word.spelled (TypeForm.ofHint hint?).words = ((hint?.map TypeExpr.text).getD "object").toList := by
  unfold TypeForm.ofHint
  split
  · decide
  · next b =>
    simp [TypeForm.words, Word.name, Word.sign, TypeExpr.text]
  · simp [TypeForm.words, Word.name]

/-- A shown type is never the mark of a variadic parameter. -/
theorem ofHint_ne_dots (hint? : Option TypeExpr) : TypeForm.ofHint hint? ≠ .dots := by
  unfold TypeForm.ofHint
  split <;> nofun

theorem toList_toString_int (i : Int) :
    (toString i).toList = (if i < 0 then ['-'] else []) ++ Nat.toDigits 10 i.natAbs := by
  cases i with
  | ofNat n =>
    show n.repr.toList = _
    have hpos : ¬Int.ofNat n < 0 := Int.not_lt.2 (Int.natCast_nonneg n)
    rw [Nat.toList_repr, if_neg hpos]
    rfl
  | negSucc n =>
    show ("-" ++ (n + 1).repr).toList = _
    rw [String.toList_append, Nat.toList_repr, if_pos (Int.negSucc_lt_zero n)]
    rfl

theorem spelled_number (i : Int) :
    Word.spelled (DefaultForm.number (decide (i < 0)) (Nat.toDigits 10 i.natAbs)).words =
      '=' :: (toString i).toList := by
  rw [toList_toString_int]
  by_cases hneg : i < 0
  · simp [DefaultForm.words, Word.sign, Word.digits, hneg]
  · simp [DefaultForm.words, Word.sign, Word.digits, hneg]

theorem spelled_ofShown (d : ShownDefault) :
    Word.spelled (DefaultForm.ofShown (some d)).words = '=' :: d.text.toList := by
  unfold DefaultForm.ofShown
  split
  · next h => cases h
  · next n h =>
    obtain rfl := Option.some.inj h
    have htext : (ShownDefault.value (.literal (.int n))).text = toString n.toInt := rfl
    rw [htext, spelled_number]
  · next h =>
    obtain rfl := Option.some.inj h
    simp [DefaultForm.words, Word.sign, Word.name]

namespace ShownParam

/-- **The words of the form spell the item of the line.** -/
theorem spelled_form (p : ShownParam) : Word.spelled p.form.words = p.item.toList := by
  have hdots : ":...".toList = [':', '.', '.', '.'] := by decide
  have hcolon : ":".toList = [':'] := by decide
  have hequal : "=".toList = ['='] := by decide
  have hargs : Word.spelled (Item.argument "arg__1".toList TypeForm.dots DefaultForm.absent).words =
      "arg__1:...".toList := by decide
  -- a variadic parameter is written with three dots, any other one with its type and default
  unfold form item
  cases p.kind with
  | varPositional => exact hargs
  | varKeyword =>
    rw [String.toList_append, hdots]
    rfl
  | positionalOnly | positionalOrKeyword | keywordOnly =>
    simp only [Item.words, Word.spelled_cons, Word.spelled_append, spelled_ofHint, String.toList_append, hcolon]
    cases p.default? with
    | none => simp [DefaultForm.ofShown, DefaultForm.words, Word.name, Word.sign, slot]
    | some d => simp [spelled_ofShown, hequal, Word.name, Word.sign, slot]

/-- The parameter can be read again: its name is one that its kind is read with, and its type and its default are
short. -/
structure Legible (p : ShownParam) : Prop where
  named : Named p.slot
  hint : ∀ t, p.hint? = some t → t.Short
  default : ∀ d, p.default? = some d → ∃ v, d = .value v ∧ v.Short

end ShownParam

theorem good_ofHint {hint? : Option TypeExpr} (h : ∀ t, hint? = some t → t.Short) : (TypeForm.ofHint hint?).Good := by
  cases hint? with
  | none => exact (by decide : IsName "object".toList)
  | some t =>
    have ht := h t rfl
    unfold TypeExpr.Short at ht
    split at ht
    · exact isName_builtin _
    · exact isName_builtin _
    · cases ht

theorem good_ofShown {default? : Option ShownDefault} (h : ∀ d, default? = some d → ∃ v, d = .value v ∧ v.Short) :
    (DefaultForm.ofShown default?).Good := by
  cases default? with
  | none => trivial
  | some d =>
    obtain ⟨v, rfl, hv⟩ := h d rfl
    unfold Value.Short at hv
    split at hv
    · exact (by decide : IsName "None".toList)
    · next b =>
      cases b
      · exact (by decide : IsName "False".toList)
      · exact (by decide : IsName "True".toList)
    · exact ⟨Nat.toDigits_ne_nil, fun c hc => Nat.isDigit_of_mem_toDigits (by decide) (by decide) hc⟩
    · cases hv

namespace ShownParam

theorem isName_slot {p : ShownParam} (h : Named p.slot) (hkind : p.kind ≠ .varPositional) :
    IsName p.slot.1.toList := by
  unfold Named slot at h
  unfold slot
  revert h hkind
  cases p.kind with
  | varPositional => exact fun _ hkind => absurd rfl hkind
  | varKeyword => exact fun h _ => h.1.1
  | positionalOnly | positionalOrKeyword | keywordOnly => exact fun h _ => h.1

theorem good_form {p : ShownParam} (h : p.Legible) : p.form.Good := by
  have hname := isName_slot h.named
  unfold form
  revert hname
  cases p.kind with
  | varPositional => exact fun _ => ⟨by decide, trivial, trivial, fun _ => rfl⟩
  | varKeyword => exact fun hname => ⟨hname nofun, trivial, trivial, fun _ => rfl⟩
  | positionalOnly | positionalOrKeyword | keywordOnly =>
    intro hname
    exact ⟨hname nofun, good_ofHint h.hint, good_ofShown h.default, fun hdots => absurd hdots (ofHint_ne_dots _)⟩

end ShownParam

/-! ## Lists -/

namespace Rendering

/-- A slash, where the line writes one. -/
def slashForms (p : ShownParam) (rest : List ShownParam) : List Item :=
  if p.kind = .positionalOnly ∧ (rest.head?.map ShownParam.kind) ≠ some .positionalOnly then [.slash] else []

/-- The items of the line. -/
def lineForms (star : Bool) : List ShownParam → List Item
  | [] => []
  | p :: rest =>
    let mark := star && p.kind == .keywordOnly
    (if mark then [.star] else []) ++
      p.form :: (slashForms p rest ++ lineForms (star && !mark && p.kind != .varPositional) rest)

theorem spelled_slashForms (p : ShownParam) (rest : List ShownParam) :
    (slashForms p rest).map (fun item => Word.spelled item.words) = (slashAfter p rest).map String.toList := by
  unfold slashForms slashAfter
  split
  · decide
  · rfl

theorem spelled_lineForms (star : Bool) (ps : List ShownParam) :
    (lineForms star ps).map (fun item => Word.spelled item.words) = (lineItems star ps).map String.toList := by
  fun_induction lineItems star ps with
  | case1 => rfl
  | case2 star p rest mark ih =>
    have hstar : [Item.star].map (fun item => Word.spelled item.words) = ["*"].map String.toList := by decide
    unfold lineForms
    simp only [List.map_append, List.map_cons, spelled_slashForms, ShownParam.spelled_form]
    rw [ih]
    congr 1
    split
    · exact hstar
    · rfl

/-- **The words of the items spell the argument list of the line.** -/
theorem spelled_joined_lineForms (ps : List ShownParam) :
    Word.spelled (joined (lineForms true ps)) = (Text.join "," (lineItems true ps)).toList := by
  have hcomma : ",".toList = [','] := by decide
  unfold Text.join
  rw [spelled_joined, spelled_lineForms, String.toList_intercalate, hcomma]

theorem good_lineForms (star : Bool) {ps : List ShownParam} (h : ∀ p ∈ ps, p.Legible) :
    ∀ item ∈ lineForms star ps, item.Good := by
  fun_induction lineForms star ps with
  | case1 => exact List.forall_mem_nil _
  | case2 star p rest mark ih =>
    have hslash : ∀ item ∈ slashForms p rest, item.Good := by
      unfold slashForms
      split
      · exact fun item hmem => List.mem_singleton.1 hmem ▸ trivial
      · exact List.forall_mem_nil _
    have hmark : ∀ item ∈ (if mark then [Item.star] else []), item.Good := by
      split
      · exact fun item hmem => List.mem_singleton.1 hmem ▸ trivial
      · exact List.forall_mem_nil _
    simp only [List.forall_mem_append, List.forall_mem_cons]
    refine ⟨hmark, ShownParam.good_form (h p List.mem_cons_self), hslash, ?_⟩
    exact ih fun q hq => h q (List.mem_cons_of_mem _ hq)

end Rendering

/-! ## Reading again -/

namespace ShownParam

/-- The name and kind with which the reader takes the parameter, once it has met a star or not. -/
def taken (star : Bool) (p : ShownParam) : String × ParamKind :=
  match p.kind with
  | .varPositional => (p.slot.1, .varPositional)
  | .varKeyword => (p.slot.1, .varKeyword)
  | _ => (p.slot.1, if star then .keywordOnly else .positionalOrKeyword)

/-- The name and kind with which the parameter comes back, if the stars are lost or not. -/
def reread (lost : Bool) (p : ShownParam) : String × ParamKind :=
  (p.slot.1, if lost && p.kind == .keywordOnly then .positionalOrKeyword else p.kind)

/-- A legible parameter is taken under its own name. -/
theorem apply_form {p : ShownParam} (h : Named p.slot) (m : Marks) :
    p.form.apply m = some { m with slots := m.slots ++ [p.taken m.star] } := by
  have harg : "arg_".toList.isPrefixOf "arg__1".toList = true := by decide
  have hclean : ∀ name, Clean name → escapeReserved (String.ofList name.toList) = name := by
    intro name hname
    rw [String.ofList_toList]
    exact escapeReserved_of_not_reserved hname.2
  -- the reader decides by the prefix which variadic kind it meets, so the line writes one that decides right
  unfold Named slot at h
  unfold form taken slot
  revert h
  cases p.kind with
  | varPositional =>
    intro h
    simp only [Item.apply, TypeForm.slot, harg, if_true]
    rw [show p.name?.getD "_" = "args" from h]
  | varKeyword =>
    rintro ⟨hname, hfree⟩
    simp only [Item.apply, TypeForm.slot, hclean _ hname, hfree, Bool.false_eq_true, if_false]
  | positionalOnly | positionalOrKeyword | keywordOnly =>
    intro hname
    have hslot : ∀ kind name,
        (TypeForm.ofHint p.hint?).slot kind name = (escapeReserved (String.ofList name), kind) := by
      intro kind name
      have hdots := ofHint_ne_dots p.hint?
      revert hdots
      cases TypeForm.ofHint p.hint? with
      | dots => exact fun hdots => absurd rfl hdots
      | plain | optional => exact fun _ => rfl
    simp only [Item.apply, hslot, hclean _ hname]

/-- After the positional parameters the reader keeps a kind exactly if it has met a star. -/
theorem taken_eq_reread {p : ShownParam} (h : 3 ≤ p.kind.rank) (star : Bool) : p.taken star = p.reread (!star) := by
  unfold taken reread
  revert h
  cases p.kind with
  | keywordOnly => cases star <;> exact fun _ => rfl
  | varKeyword => cases star <;> exact fun _ => rfl
  | positionalOnly | positionalOrKeyword | varPositional => exact fun h => absurd h (by decide)

theorem reread_of_ne {p : ShownParam} (h : p.kind ≠ .keywordOnly) (lost : Bool) : p.reread lost = p.slot := by
  unfold reread slot
  rw [if_neg (by simp [h])]

end ShownParam

namespace Rendering

/-- Whether some parameter collects positional values. -/
def collects (ps : List ShownParam) : Bool := ps.any fun p => p.kind == .varPositional

theorem collects_cons_of_ne {p : ShownParam} (h : p.kind ≠ .varPositional) (ps : List ShownParam) :
    collects (p :: ps) = collects ps := by
  simp [collects, h]

theorem not_collects {ps : List ShownParam} (h : ∀ p ∈ ps, 3 ≤ p.kind.rank) : collects ps = false := by
  rw [← Bool.not_eq_true]
  intro hany
  obtain ⟨p, hp, hkind⟩ := List.any_eq_true.1 hany
  have hrank := h p hp
  rw [eq_of_beq hkind] at hrank
  exact absurd hrank (by decide)

theorem slashForms_of_ne {p : ShownParam} (h : p.kind ≠ .positionalOnly) (rest : List ShownParam) :
    slashForms p rest = [] := if_neg fun hp => h hp.1

/-- The reader takes the parameter that comes next and goes on. -/
theorem applyAll_form {p : ShownParam} (h : Named p.slot) (m : Marks) (items : List Item) :
    Item.applyAll m (p.form :: items) = Item.applyAll { m with slots := m.slots ++ [p.taken m.star] } items := by
  rw [Item.applyAll, ShownParam.apply_form h]
  rfl

/-- **Keywords**: where no star is written any more, kinds are kept exactly if a star was read before. -/
theorem applyAll_keywords {ps : List ShownParam} (hnamed : ∀ p ∈ ps, Named p.slot)
    (hrank : ∀ p ∈ ps, 3 ≤ p.kind.rank) :
    ∀ m, ∃ m', Item.applyAll m (lineForms false ps) = some m' ∧
      m'.slots = m.slots ++ ps.map (ShownParam.reread !m.star) := by
  induction ps with
  | nil => exact fun m => ⟨m, rfl, by simp⟩
  | cons p ps ih =>
    intro m
    have hp := hrank p List.mem_cons_self
    have hkind : p.kind ≠ .positionalOnly := by
      intro h
      rw [h] at hp
      exact absurd hp (by decide)
    -- no mark is written between keywords
    have hforms : lineForms false (p :: ps) = p.form :: lineForms false ps := by
      simp [lineForms, slashForms_of_ne hkind]
    obtain ⟨m', hrun, hslots⟩ := ih (fun q hq => hnamed q (List.mem_cons_of_mem _ hq))
      (fun q hq => hrank q (List.mem_cons_of_mem _ hq)) { m with slots := m.slots ++ [p.taken m.star] }
    refine ⟨m', ?_, ?_⟩
    · rw [hforms, applyAll_form (hnamed p List.mem_cons_self), hrun]
    · rw [hslots, ShownParam.taken_eq_reread hp, List.append_assoc]
      rfl

/-- What comes after a parameter that collects positional values, or after a keyword-only one, are keywords. -/
theorem rank_of_before {p q : ShownParam} (h : p.kind.Before q.kind)
    (hp : p.kind = .varPositional ∨ p.kind = .keywordOnly) : 3 ≤ q.kind.rank := by
  rcases h with hlt | ⟨heq, hv⟩
  · rcases hp with hp | hp
    · rw [hp] at hlt
      exact hlt
    · rw [hp] at hlt
      exact Nat.le_of_lt hlt
  · rcases hp with hp | hp
    · rw [hp] at hv
      cases hv
    · rw [← heq, hp]
      exact Nat.le_refl 3

theorem lineForms_plain {p : ShownParam} (hvar : p.kind ≠ .varPositional) (hkey : p.kind ≠ .keywordOnly)
    (ps : List ShownParam) : lineForms true (p :: ps) = p.form :: (slashForms p ps ++ lineForms true ps) := by
  have hvar : (p.kind == .varPositional) = false := beq_false_of_ne hvar
  have hkey : (p.kind == .keywordOnly) = false := beq_false_of_ne hkey
  simp [lineForms, bne, hvar, hkey]

theorem lineForms_varPositional {p : ShownParam} (h : p.kind = .varPositional) (ps : List ShownParam) :
    lineForms true (p :: ps) = p.form :: lineForms false ps := by
  have hpos : p.kind ≠ .positionalOnly := by simp [h]
  simp [lineForms, slashForms_of_ne hpos, h]

theorem lineForms_keywordOnly {p : ShownParam} (h : p.kind = .keywordOnly) (ps : List ShownParam) :
    lineForms true (p :: ps) = .star :: lineForms false (p :: ps) := by
  have hpos : p.kind ≠ .positionalOnly := by simp [h]
  simp [lineForms, slashForms_of_ne hpos, h]

/-- **No slash ahead**: the line has a star for the reader unless a parameter that collects positional values comes
before it. -/
theorem applyAll_unslashed {ps : List ShownParam} (hnamed : ∀ p ∈ ps, Named p.slot)
    (horder : ps.Pairwise fun p q => p.kind.Before q.kind) (hpos : ∀ p ∈ ps, p.kind ≠ .positionalOnly) :
    ∀ m, m.star = false → ∃ m', Item.applyAll m (lineForms true ps) = some m' ∧
      m'.slots = m.slots ++ ps.map (ShownParam.reread (collects ps)) := by
  induction ps with
  | nil => exact fun m _ => ⟨m, rfl, by simp⟩
  | cons p ps ih =>
    intro m hstar
    obtain ⟨hfirst, horder⟩ := List.pairwise_cons.1 horder
    obtain ⟨hname, hnames⟩ := List.forall_mem_cons.1 hnamed
    obtain ⟨hp, hps⟩ := List.forall_mem_cons.1 hpos
    by_cases hkey : p.kind = .keywordOnly
    · -- the star is written here and read here
      have hkeywords : ∀ q ∈ p :: ps, 3 ≤ q.kind.rank := by
        rw [List.forall_mem_cons, hkey]
        exact ⟨Nat.le_refl 3, fun q hq => rank_of_before (hfirst q hq) (.inr hkey)⟩
      have happly : Item.star.apply m = some { m with star := true } := by simp [Item.apply, hstar]
      obtain ⟨m', hrun, hslots⟩ := applyAll_keywords hnamed hkeywords { m with star := true }
      refine ⟨m', ?_, ?_⟩
      · rw [lineForms_keywordOnly hkey, Item.applyAll, happly]
        exact hrun
      · rw [hslots, not_collects hkeywords]
        rfl
    by_cases hvar : p.kind = .varPositional
    · -- no star is written any more, and none was read
      have hkeywords : ∀ q ∈ ps, 3 ≤ q.kind.rank := fun q hq => rank_of_before (hfirst q hq) (.inl hvar)
      have htaken : p.taken m.star = p.slot := by simp [ShownParam.taken, ShownParam.slot, hvar]
      have hcollects : collects (p :: ps) = true := by simp [collects, hvar]
      obtain ⟨m', hrun, hslots⟩ :=
        applyAll_keywords hnames hkeywords { m with slots := m.slots ++ [p.taken m.star] }
      refine ⟨m', ?_, ?_⟩
      · rw [lineForms_varPositional hvar, applyAll_form hname, hrun]
      · rw [hslots, htaken, hcollects, List.map_cons, ShownParam.reread_of_ne hkey, hstar, List.append_assoc]
        rfl
    · have htaken : p.taken m.star = p.slot := by
        revert hp hkey hvar
        unfold ShownParam.taken ShownParam.slot
        rw [hstar]
        cases p.kind <;> simp
      obtain ⟨m', hrun, hslots⟩ := ih hnames horder hps { m with slots := m.slots ++ [p.taken m.star] } hstar
      refine ⟨m', ?_, ?_⟩
      · rw [lineForms_plain hvar hkey, slashForms_of_ne hp, applyAll_form hname]
        exact hrun
      · rw [hslots, htaken, collects_cons_of_ne hvar, List.map_cons, ShownParam.reread_of_ne hkey, List.append_assoc]
        rfl

/-- No parameter is positional-only after one that is not. -/
theorem not_positionalOnly {p : ShownParam} {ps : List ShownParam} (hp : p.kind ≠ .positionalOnly)
    (horder : (p :: ps).Pairwise fun p q => p.kind.Before q.kind) : ∀ q ∈ p :: ps, q.kind ≠ .positionalOnly := by
  rw [List.forall_mem_cons]
  refine ⟨hp, fun q hq hkind => hp ?_⟩
  have hle := ParamKind.rank_le_of_before ((List.pairwise_cons.1 horder).1 q hq)
  rw [hkind] at hle
  exact ParamKind.eq_of_rank_eq (Nat.le_zero.1 hle)

theorem slashed_taken {p : ShownParam} (h : p.kind = .positionalOnly) : slashed (p.taken false) = p.slot := by
  simp [slashed, ShownParam.taken, ShownParam.slot, h]

/-- The last positional-only parameter: the slash after it turns all parameters before it into positional-only
ones. -/
theorem applyAll_lastSlashed {p : ShownParam} {ps : List ShownParam} {m : Marks} (hp : p.kind = .positionalOnly)
    (hpos : ∀ q ∈ ps, q.kind ≠ .positionalOnly) (hnamed : ∀ q ∈ p :: ps, Named q.slot)
    (horder : ps.Pairwise fun p q => p.kind.Before q.kind) (hslash : m.slash = false) (hstar : m.star = false) :
    ∃ m', Item.applyAll m (lineForms true (p :: ps)) = some m' ∧
      m'.slots = m.slots.map slashed ++ (p :: ps).map (ShownParam.reread (collects (p :: ps))) := by
  obtain ⟨hname, hnames⟩ := List.forall_mem_cons.1 hnamed
  have hkey : p.kind ≠ .keywordOnly := by simp [hp]
  have hvar : p.kind ≠ .varPositional := by simp [hp]
  have hwritten : slashForms p ps = [.slash] := by
    refine if_pos ⟨hp, ?_⟩
    cases ps with
    | nil => nofun
    | cons q ps => exact fun h => hpos q List.mem_cons_self (Option.some.inj h)
  -- the marks after the slash
  let m₁ : Marks := ⟨(m.slots ++ [p.taken m.star]).map slashed, true, m.star⟩
  have happly : Item.slash.apply { m with slots := m.slots ++ [p.taken m.star] } = some m₁ := by
    simp [Item.apply, hslash, hstar, m₁]
  obtain ⟨m', hrun, hslots⟩ := applyAll_unslashed hnames horder hpos m₁ hstar
  refine ⟨m', ?_, ?_⟩
  · rw [lineForms_plain hvar hkey, hwritten, List.singleton_append, applyAll_form hname, Item.applyAll, happly]
    exact hrun
  · rw [hslots, collects_cons_of_ne hvar, List.map_cons, ShownParam.reread_of_ne hkey, ← slashed_taken hp]
    simp [m₁, hstar]

/-- **Positional-only parameters** are read as ordinary ones until the slash after the last of them. -/
theorem applyAll_slashed {ps : List ShownParam} :
    ∀ {p : ShownParam} {m : Marks}, p.kind = .positionalOnly → (∀ q ∈ p :: ps, Named q.slot) →
      (p :: ps).Pairwise (fun p q => p.kind.Before q.kind) → m.slash = false → m.star = false →
      ∃ m', Item.applyAll m (lineForms true (p :: ps)) = some m' ∧
        m'.slots = m.slots.map slashed ++ (p :: ps).map (ShownParam.reread (collects (p :: ps))) := by
  induction ps with
  | nil =>
    intro p m hp hnamed _ hslash hstar
    exact applyAll_lastSlashed hp (List.forall_mem_nil _) hnamed .nil hslash hstar
  | cons q ps ih =>
    intro p m hp hnamed horder hslash hstar
    obtain ⟨hname, hnames⟩ := List.forall_mem_cons.1 hnamed
    have horder := (List.pairwise_cons.1 horder).2
    -- the slash is written after this parameter only if the next one is of another kind
    by_cases hq : q.kind = .positionalOnly
    · have hkey : p.kind ≠ .keywordOnly := by simp [hp]
      have hvar : p.kind ≠ .varPositional := by simp [hp]
      have hwritten : slashForms p (q :: ps) = [] := if_neg fun h => h.2 (congrArg some hq)
      let m₁ : Marks := { m with slots := m.slots ++ [p.taken m.star] }
      obtain ⟨m', hrun, hslots⟩ := ih (m := m₁) hq hnames horder hslash hstar
      refine ⟨m', ?_, ?_⟩
      · rw [lineForms_plain hvar hkey, hwritten, List.nil_append, applyAll_form hname]
        exact hrun
      · have hmap : (p :: q :: ps).map (ShownParam.reread (collects (q :: ps))) =
            slashed (p.taken false) :: (q :: ps).map (ShownParam.reread (collects (q :: ps))) := by
          rw [List.map_cons, ShownParam.reread_of_ne hkey, slashed_taken hp]
        rw [hslots, collects_cons_of_ne hvar, hmap]
        simp only [m₁, hstar, List.map_append, List.append_assoc]
        rfl
    · exact applyAll_lastSlashed hp (not_positionalOnly hq horder) hnamed horder hslash hstar

/-- **The items of a line are read as its parameters**, except that keyword-only ones lose their kind after one that
collects positional values. -/
theorem applyAll_lineForms {ps : List ShownParam} (hnamed : ∀ p ∈ ps, Named p.slot)
    (horder : ps.Pairwise fun p q => p.kind.Before q.kind) :
    ∃ m, Item.applyAll Marks.start (lineForms true ps) = some m ∧
      m.slots = ps.map (ShownParam.reread (collects ps)) := by
  cases ps with
  | nil => exact ⟨Marks.start, rfl, rfl⟩
  | cons p ps =>
    by_cases hp : p.kind = .positionalOnly
    · exact applyAll_slashed hp hnamed horder rfl rfl
    · exact applyAll_unslashed hnamed horder (not_positionalOnly hp horder) Marks.start rfl

end Rendering

end CallSig
