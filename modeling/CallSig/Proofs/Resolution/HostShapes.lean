import CallSig.Proofs.Resolution.HostTokens
import CallSig.Proofs.Resolution.Shape

/-!
# `CallSig.Proofs.Resolution.HostShapes` — host tokens taken apart

Resolution looks for the bracket that opens the last one from the end of a token, and counts brackets of one kind only.
In the text of a host token the brackets of each kind are balanced, so the search stops at the bracket that the tree
has there, and gives back the container and the arguments. Therefore a text has one tree, as far as values and classes
are concerned.

## Contents
- **Balance.** `Passed`, with `Passed.append`, `Passed.bracketed`, `HostToken.passed`.
- **Shapes.** `trim_gaps`; `ofToken_applied`, `ofToken_dotted`.
- **Unambiguity.** `WholeEntries`, `HostToken.agree`.
-/

namespace CallSig

open Text Word

namespace Lexicon

variable {l : Lexicon}

/-! ## Balance -/

/-- Going left through a text with brackets of its own only, the search for an opening bracket finds none. -/
def Passed (b : Bracket) (cs : List Char) : Prop :=
  ∀ d rest, splitAtOpener b.opener b.closer d (cs.reverse ++ rest) =
    (splitAtOpener b.opener b.closer d rest).map fun (inner, before) => (cs.reverse ++ inner, before)

theorem passed_of_ne {b : Bracket} {cs : List Char} (h : ∀ c ∈ cs, c ≠ b.opener ∧ c ≠ b.closer) : Passed b cs := by
  intro d rest
  have hr : ∀ c ∈ cs.reverse, c ≠ b.opener ∧ c ≠ b.closer := fun c hc => h c (List.mem_reverse.1 hc)
  generalize cs.reverse = ds at hr
  induction ds with
  | nil => simp
  | cons c ds ih =>
    obtain ⟨⟨ho, hc⟩, hds⟩ := List.forall_mem_cons.1 hr
    rw [List.cons_append, splitAtOpener, if_neg fun h => ho h.1]
    simp only [if_neg ho, if_neg hc, ih hds, Option.map_map]
    rfl

theorem Passed.append {b : Bracket} {cs ds : List Char} (hc : Passed b cs) (hd : Passed b ds) :
    Passed b (cs ++ ds) := by
  intro d rest
  rw [List.reverse_append, List.append_assoc, hd, hc, Option.map_map]
  simp only [Function.comp_def, List.append_assoc]

/-- A pair of brackets is passed with what stands inside. -/
theorem Passed.bracketed {b b' : Bracket} {cs : List Char} (h : Passed b cs) :
    Passed b (b'.opener :: (cs ++ [b'.closer])) := by
  by_cases hb : b' = b
  · subst hb
    intro d rest
    have hne : b'.closer ≠ b'.opener := by cases b' <;> decide
    have hreverse : (b'.opener :: (cs ++ [b'.closer])).reverse ++ rest =
        b'.closer :: (cs.reverse ++ b'.opener :: rest) := by simp
    -- the closing bracket is counted, and the opening one takes the count back
    rw [hreverse, splitAtOpener, if_neg fun h => hne h.1]
    simp only [if_true]
    rw [h, splitAtOpener, if_neg fun h => Nat.add_one_ne_zero d h.2]
    simp only [if_neg (Ne.symm hne), if_true, Nat.add_sub_cancel, Option.map_map]
    simp [Function.comp_def]
  · obtain ⟨hopener, hcloser⟩ :
        (b'.opener ≠ b.opener ∧ b'.opener ≠ b.closer) ∧ b'.closer ≠ b.opener ∧ b'.closer ≠ b.closer := by
      cases b <;> cases b' <;> first | decide | exact absurd rfl hb
    have hfront : Passed b [b'.opener] := passed_of_ne (List.forall_mem_singleton.2 hopener)
    have hback : Passed b [b'.closer] := passed_of_ne (List.forall_mem_singleton.2 hcloser)
    exact hfront.append (h.append hback)

theorem passed_of_dotted {path : String} (h : Dotted path) (b : Bracket) : Passed b path.toList := by
  refine passed_of_ne fun c hc => ?_
  rcases h.mem_cases hc with hname | rfl
  · refine ⟨?_, ?_⟩ <;>
    · rintro rfl
      revert hname
      cases b <;> decide
  · cases b <;> decide

theorem passed_of_gap (gap : Gap) (b : Bracket) : Passed b gap.1 := by
  refine passed_of_ne fun c hc => ?_
  rcases isGap_cases (gap.2 c hc) with rfl | rfl | rfl | rfl <;> cases b <;> decide

mutual

theorem HostToken.passed (t : HostToken l) (b : Bracket) : Passed b t.text := by
  match t with
  | .word _ _ dotted .. => exact passed_of_dotted dotted b
  | .named _ dotted .. => exact passed_of_dotted dotted b
  | .applied container kind dotted known before bracket notRound args =>
    have hinner := (passed_of_gap args.lead b).append ((args.passed b).append (passed_of_gap args.tail b))
    have hpair : Passed b (bracket.opener :: (args.lead.1 ++ (args.core ++ args.tail.1) ++ [bracket.closer])) :=
      hinner.bracketed
    simpa [HostToken.text] using (passed_of_dotted dotted b).append ((passed_of_gap before b).append hpair)

theorem HostArgs.passed (args : HostArgs l) (b : Bracket) : Passed b args.core := by
  match args with
  | .last _ arg _ => exact arg.passed b
  | .more _ arg after rest =>
    have hcomma : Passed b [','] := passed_of_ne (List.forall_mem_singleton.2 (by cases b <;> decide))
    have hrest := (passed_of_gap rest.lead b).append (rest.passed b)
    have hall := (arg.passed b).append ((passed_of_gap after b).append (hcomma.append hrest))
    simpa [HostArgs.core] using hall

end

/-! ## Shapes -/

theorem isBlank_of_mem_gap (gap : Gap) : ∀ c ∈ gap.1, isBlank c = true := fun c hc => isBlank_of_isGap (gap.2 c hc)

theorem trimEnd_gap {cs : List Char} (h : Tight cs) (gap : Gap) : trimEnd (cs ++ gap.1) = cs := by
  unfold trimEnd
  rw [List.reverse_append, List.dropWhile_append_of_pos fun c hc => isBlank_of_mem_gap gap c (List.mem_reverse.1 hc)]
  exact trimEnd_eq_self h.2

theorem trim_gaps {cs : List Char} (h : Tight cs) (hne : cs ≠ []) (before after : Gap) :
    trim (before.1 ++ cs ++ after.1) = cs := by
  have hstart : trimStart (before.1 ++ cs ++ after.1) = cs ++ after.1 := by
    unfold trimStart
    rw [List.append_assoc, List.dropWhile_append_of_pos (isBlank_of_mem_gap before)]
    obtain ⟨c, cs, rfl⟩ := List.exists_cons_of_ne_nil hne
    exact trimStart_eq_self fun d hd => h.1 d hd
  rw [trim, hstart, trimEnd_gap h after]

theorem HostArgs.texts_ne_nil (args : HostArgs l) : args.texts ≠ [] ∧ ∀ text ∈ args.texts, text ≠ [] := by
  have hne (t : HostToken l) : t.text ≠ [] := by
    obtain ⟨c, cs, hcs, -⟩ := t.exists_cons
    rw [hcs]
    exact List.cons_ne_nil c cs
  match args with
  | .last _ arg _ => exact ⟨List.cons_ne_nil _ _, List.forall_mem_singleton.2 (hne arg)⟩
  | .more _ arg _ rest => exact ⟨List.cons_ne_nil _ _, List.forall_mem_cons.2 ⟨hne arg, rest.texts_ne_nil.2⟩⟩

/-- **A container applied to arguments is taken apart** as it was put together, if it nests within the limit. -/
theorem ofToken_applied {container : String} {kind : GenericKind} (dotted : Dotted container)
    (known : l.known? container = some (.former (.container kind))) (before : Gap) {bracket : Bracket}
    (notRound : bracket ≠ .round) (args : HostArgs l) {depth : Nat} (hn : args.nesting ≤ depth) :
    TypeShape.ofToken depth (HostToken.applied container kind dotted known before bracket notRound args).token =
      .generic container (args.texts.map String.ofList) := by
  let t := HostToken.applied container kind dotted known before bracket notRound args
  let inner := args.lead.1 ++ args.core ++ args.tail.1
  have hwhole : trim t.token.toList = container.toList ++ before.1 ++ bracket.opener :: (inner ++ [bracket.closer]) := by
    rw [HostToken.token, String.toList_ofList, t.tight.trim_eq, HostToken.text]
    simp [inner]
  have hinner : Passed bracket inner :=
    ((passed_of_gap args.lead bracket).append (args.passed bracket)).append (passed_of_gap args.tail bracket)
  have hcut : TypeShape.cut? t.token = some (container.toList ++ before.1, bracket, inner) := by
    rw [TypeShape.cut?_of_bracketed notRound hwhole, hinner, splitAtOpener, if_pos ⟨rfl, rfl⟩]
    simp
  obtain ⟨c, cs, hcore, hc⟩ := args.exists_cons
  have hne : args.core ≠ [] := by
    rw [hcore]
    exact List.cons_ne_nil c cs
  have hdigits : ¬(bracket = .square ∧ args.core.all Char.isDigit = true) := by
    rintro ⟨-, hall⟩
    rw [hcore, List.all_cons, Bool.and_eq_true] at hall
    have hstart := not_isNameStart_of_isDigit hall.1
    rw [hc] at hstart
    cases hstart
  have hhead : trimEnd (container.toList ++ before.1) = container.toList := trimEnd_gap dotted.tight before
  have hbody : trim inner = args.core := trim_gaps args.tight hne args.lead args.tail
  obtain ⟨htexts, hmem⟩ := args.texts_ne_nil
  rw [TypeShape.ofToken_eq_cut, hcut]
  dsimp only
  rw [hhead, hbody, TypeShape.ofParts_generic dotted.ne_nil hdigits (args.splitText_core hn) htexts
    fun hnil => hmem [] hnil rfl, String.ofList_toList]

/-- A dotted path is taken as a whole. -/
theorem ofToken_dotted {path : String} (h : Dotted path) (depth : Nat) : TypeShape.ofToken depth path = .atom path := by
  have hlast : (trim path.toList).reverse.head?.bind TypeShape.finalBracket? = none := by
    rw [h.tight.trim_eq, List.head?_reverse]
    refine Option.bind_eq_none_iff.2 fun last hlast => ?_
    have hmem := h.mem_cases (List.mem_of_getLast? hlast)
    unfold TypeShape.finalBracket?
    rw [if_neg, if_neg]
    · rintro rfl
      exact hmem.elim (by decide) (by decide)
    · rintro rfl
      exact hmem.elim (by decide) (by decide)
  rw [TypeShape.ofToken_eq_atom hlast, trimmed, h.tight.trim_eq, String.ofList_toList]

/-! ## Unambiguity -/

/-- Every entry of the lexicon is for a token that is taken as a whole. -/
def WholeEntries (l : Lexicon) : Prop :=
  ∀ {t v}, l.known? t = some v → ∀ depth, ∃ text, TypeShape.ofToken depth t = .atom text

theorem HostToken.token_word {name : String} {value : Value} (dotted : Dotted name)
    (known : l.known? name = some value) (typed : value.elementType.unmappedTokens = []) :
    (HostToken.word name value dotted known typed).token = name := String.ofList_toList

theorem HostToken.token_named {path : String} (dotted : Dotted path)
    (defined : l.definitions.get? path = some (.type (.ofPath path))) (unknown : l.known? path = none)
    (unaliased : l.aliases.get? path = none) : (HostToken.named path dotted defined unknown unaliased).token = path :=
  String.ofList_toList

/-- No word and no class path spells a container with arguments. -/
theorem HostToken.ne_applied (hl : l.WholeEntries) {t : HostToken l} (ht : t.nesting = 0) {container : String}
    {kind : GenericKind} (dotted : Dotted container) (known : l.known? container = some (.former (.container kind)))
    (before : Gap) {bracket : Bracket} (notRound : bracket ≠ .round) (args : HostArgs l) :
    t.token ≠ (HostToken.applied container kind dotted known before bracket notRound args).token := by
  intro heq
  have hshape := ofToken_applied dotted known before notRound args (Nat.le_refl args.nesting)
  rw [← heq] at hshape
  cases t with
  | word name value dotted known typed =>
    rw [HostToken.token_word] at hshape
    obtain ⟨text, hatom⟩ := hl known args.nesting
    rw [hatom] at hshape
    cases hshape
  | named path dotted defined unknown unaliased =>
    rw [HostToken.token_named, ofToken_dotted dotted] at hshape
    cases hshape
  | applied => exact absurd ht (Nat.succ_ne_zero _)

mutual

/-- **Trees with one text agree** in what they stand for and in the class paths they hold. -/
theorem HostToken.agree (hl : l.WholeEntries) (t t' : HostToken l) (h : t.token = t'.token) :
    t.value = t'.value ∧ ∀ level, t.leaves level = t'.leaves level := by
  match t, t' with
  | .word name value dotted known typed, .word name' value' dotted' known' typed' =>
    simp only [HostToken.token_word] at h
    subst h
    exact ⟨Option.some.inj (known.symm.trans known'), fun _ => rfl⟩
  | .word name value dotted known typed, .named path dotted' defined unknown unaliased =>
    simp only [HostToken.token_word, HostToken.token_named] at h
    subst h
    rw [unknown] at known
    cases known
  | .named path dotted defined unknown unaliased, .word name value dotted' known typed =>
    simp only [HostToken.token_word, HostToken.token_named] at h
    subst h
    rw [unknown] at known
    cases known
  | .named path dotted defined unknown unaliased, .named path' dotted' defined' unknown' unaliased' =>
    simp only [HostToken.token_named] at h
    subst h
    exact ⟨rfl, fun _ => rfl⟩
  | .word _ _ _ _ _, .applied _ _ dotted known before _ notRound args =>
    exact absurd h (HostToken.ne_applied hl rfl dotted known before notRound args)
  | .named _ _ _ _ _, .applied _ _ dotted known before _ notRound args =>
    exact absurd h (HostToken.ne_applied hl rfl dotted known before notRound args)
  | .applied _ _ dotted known before _ notRound args, .word _ _ _ _ _ =>
    exact absurd h.symm (HostToken.ne_applied hl rfl dotted known before notRound args)
  | .applied _ _ dotted known before _ notRound args, .named _ _ _ _ _ =>
    exact absurd h.symm (HostToken.ne_applied hl rfl dotted known before notRound args)
  | .applied container kind dotted known before bracket notRound args,
    .applied container' kind' dotted' known' before' bracket' notRound' args' =>
    -- taken apart, the text gives the container and the arguments of both trees
    have hshape := ofToken_applied dotted known before notRound args (Nat.le_max_left args.nesting args'.nesting)
    rw [h, ofToken_applied dotted' known' before' notRound' args' (Nat.le_max_right _ _)] at hshape
    obtain ⟨rfl, htexts⟩ := TypeShape.generic.inj hshape
    obtain ⟨htypes, hleaves⟩ := args.agree hl args'
      ((List.map_inj_right fun _ _ => String.ofList_inj.1).1 htexts.symm)
    have hkind : kind = kind' := by
      rw [known] at known'
      cases known'
      rfl
    subst hkind
    refine ⟨?_, fun level => hleaves (level + 1)⟩
    rw [HostToken.value, HostToken.value, htypes]

theorem HostArgs.agree (hl : l.WholeEntries) (args args' : HostArgs l) (h : args.texts = args'.texts) :
    args.types = args'.types ∧ ∀ level, args.leaves level = args'.leaves level := by
  match args, args' with
  | .last _ arg _, .last _ arg' _ =>
    obtain ⟨hvalue, hleaves⟩ := arg.agree hl arg' (congrArg String.ofList (List.cons.inj h).1)
    exact ⟨by rw [HostArgs.types, HostArgs.types, hvalue], hleaves⟩
  | .last _ _ _, .more _ _ _ rest => exact absurd (List.cons.inj h).2.symm rest.texts_ne_nil.1
  | .more _ _ _ rest, .last _ _ _ => exact absurd (List.cons.inj h).2 rest.texts_ne_nil.1
  | .more _ arg _ rest, .more _ arg' _ rest' =>
    obtain ⟨hvalue, hleaves⟩ := arg.agree hl arg' (congrArg String.ofList (List.cons.inj h).1)
    obtain ⟨htypes, hrest⟩ := rest.agree hl rest' (List.cons.inj h).2
    refine ⟨by rw [HostArgs.types, HostArgs.types, hvalue, htypes], fun level => ?_⟩
    rw [HostArgs.leaves, HostArgs.leaves, hleaves, hrest]

end

end Lexicon
end CallSig
