import CallSig.Proofs.Rendering.Pieces

/-!
# `CallSig.Proofs.Lexeme.Dotted` — dotted paths as words and as expressions

A dotted path is read as its names with dots between them, also where a bracket of any kind, a comma or a blank stands
behind it. Its characters are those of names and the dot, so it has no blanks and no brackets. As an expression it is no
literal, since it begins like a name, and its value is what is defined under it.

## Contents
- **Paths.** `Dotted.mem_cases`, `Dotted.tight`, `segments_eq`.
- **Words.** `dottedWords`, `spelled_dottedWords`, `reads_dottedWords`, `nests_dottedWords`.
- **Expressions.** `isPath_of_dotted`, `evaluate_of_dotted`.
-/

namespace CallSig

open Word

/-! ## Paths -/

namespace Dotted

variable {path : String}

theorem mem_cases (h : Dotted path) {c : Char} (hc : c ∈ path.toList) : isNamePart c = true ∨ c = '.' := by
  by_cases hdot : c = '.'
  · exact .inr hdot
  · obtain ⟨segment, hsegment, hmem⟩ : ∃ segment ∈ Text.cutAt '.' path.toList, c ∈ segment :=
      Text.exists_mem_cutWhere hc (by simpa using hdot)
    obtain ⟨d, more, rfl, hd, hmore⟩ := h segment hsegment
    rcases List.mem_cons.1 hmem with rfl | hmem
    · exact .inl (isNamePart_of_isNameStart hd)
    · exact .inl (hmore c hmem)

theorem not_isBlank (h : Dotted path) {c : Char} (hc : c ∈ path.toList) : Text.isBlank c = false := by
  rcases h.mem_cases hc with hname | rfl
  · exact not_isBlank_of_isNamePart hname
  · decide

theorem tight (h : Dotted path) : Text.Tight path.toList :=
  ⟨fun _ hc => h.not_isBlank (List.mem_of_mem_head? hc), fun _ hc => h.not_isBlank (List.mem_of_getLast? hc)⟩

end Dotted

/-- A text is its segments with dots between them. -/
theorem segments_eq {cs segment : List Char} {more : List (List Char)} (h : Text.cutAt '.' cs = segment :: more) :
    cs = segment ++ more.flatMap fun s => '.' :: s := by
  induction cs generalizing segment more with
  | nil =>
    cases h
    rfl
  | cons c cs ih =>
    rw [Text.cutAt, Text.cutWhere] at h
    split at h
    · next hdot =>
      obtain ⟨rfl, rfl⟩ := List.cons.inj h
      obtain rfl : c = '.' := by simpa using hdot
      cases hcut : Text.cutWhere (· == '.') cs with
      | nil => exact absurd hcut (Text.cutWhere_ne_nil _ _)
      | cons s ss => rw [ih hcut]; simp
    · cases hcut : Text.cutWhere (· == '.') cs with
      | nil => exact absurd hcut (Text.cutWhere_ne_nil _ _)
      | cons s ss =>
        rw [hcut] at h
        obtain ⟨rfl, rfl⟩ := List.cons.inj h
        rw [ih hcut]
        rfl

/-! ## Words -/

/-- The words of a dotted path, with blanks before the first one. -/
def dottedWords (lead cs : List Char) : List Word :=
  match Text.cutAt '.' cs with
  | [] => []
  | segment :: more => ⟨lead, .identifier, segment⟩ :: more.flatMap fun s => [sign .dot '.', name s]

theorem exists_dottedWords (cs : List Char) :
    ∃ text ws, ∀ lead, dottedWords lead cs = ⟨lead, .identifier, text⟩ :: ws := by
  unfold dottedWords
  cases hcut : Text.cutAt '.' cs with
  | nil => exact absurd hcut (Text.cutWhere_ne_nil _ _)
  | cons segment more => exact ⟨segment, _, fun _ => rfl⟩

theorem spelled_dottedWords (lead cs : List Char) : spelled (dottedWords lead cs) = lead ++ cs := by
  unfold dottedWords
  cases hcut : Text.cutAt '.' cs with
  | nil => exact absurd hcut (Text.cutWhere_ne_nil _ _)
  | cons segment more =>
    have hmore : spelled (more.flatMap fun s => [sign .dot '.', name s]) = more.flatMap fun s => '.' :: s := by
      unfold spelled
      rw [List.flatMap_assoc]
      simp [sign, name]
    dsimp only
    rw [spelled_cons, hmore, segments_eq hcut, List.append_assoc]

theorem reads_dottedWords {lead : List Char} (hlead : ∀ c ∈ lead, isGap c = true) {path : String} (h : Dotted path)
    {rest : List Char} (hr : EndsName rest) : Reads (dottedWords lead path.toList) rest := by
  have hmore : ∀ more : List (List Char), (∀ s ∈ more, IsName s) →
      Reads (more.flatMap fun s => [sign .dot '.', name s]) rest ∧
        EndsName (spelled (more.flatMap fun s => [sign .dot '.', name s]) ++ rest) := by
    intro more hmore
    induction more with
    | nil => exact ⟨trivial, hr⟩
    | cons s more ih =>
      obtain ⟨hs, hmore⟩ := List.forall_mem_cons.1 hmore
      obtain ⟨hreads, hends⟩ := ih hmore
      obtain ⟨c, cs, rfl, hc, -⟩ := id hs
      have hdot : c ≠ '.' := by
        rintro rfl
        exact absurd hc (by decide)
      refine ⟨⟨⟨List.forall_mem_nil _, '.', [], rfl, by decide, ?_⟩, reads_name hs hends, hreads⟩, ?_⟩
      · exact read?_dot fun htake => hdot (List.cons.inj htake).1
      · rintro d ⟨⟩
        decide
  unfold Dotted at h
  unfold dottedWords
  cases hcut : Text.cutAt '.' path.toList with
  | nil => trivial
  | cons segment more =>
    rw [hcut] at h
    obtain ⟨hsegment, hsegments⟩ := List.forall_mem_cons.1 h
    obtain ⟨hreads, hends⟩ := hmore more hsegments
    exact ⟨⟨hlead, (reads_name hsegment hends).read⟩, hreads⟩

theorem nests_dottedWords (lead cs : List Char) :
    Lexeme.Nests Lexeme.NoComma 0 ((dottedWords lead cs).map Word.token) := by
  refine .of_plain fun t ht => ?_
  have hname : t = .identifier ∨ t = .dot := by
    unfold dottedWords at ht
    split at ht
    · cases ht
    · obtain ⟨w, hw, rfl⟩ := List.mem_map.1 ht
      rcases List.mem_cons.1 hw with rfl | hw
      · exact .inl rfl
      · obtain ⟨s, -, hs⟩ := List.mem_flatMap.1 hw
        rcases List.mem_cons.1 hs with rfl | hs
        · exact .inr rfl
        · rw [List.mem_singleton.1 hs]
          exact .inl rfl
  rcases hname with rfl | rfl
  · exact ⟨fun b => ⟨nofun, nofun⟩, nofun⟩
  · exact ⟨fun b => ⟨nofun, nofun⟩, nofun⟩

/-! ## Expressions -/

theorem isAlphabetic_of_isAlpha {c : Char} (h : c.isAlpha = true) : Text.isAlphabetic c = true := by
  have hascii : c.toNat < 128 := by
    unfold Char.isAlpha Char.isUpper Char.isLower at h
    simp only [Bool.or_eq_true, Bool.and_eq_true, decide_eq_true_eq, ge_iff_le, UInt32.le_iff_toNat_le, Char.toNat_val,
      Char.reduceToNat] at h
    omega
  rw [Text.isAlphabetic, if_pos hascii, h]

theorem isAlphanumeric_of_isAlphanum {c : Char} (h : c.isAlphanum = true) : Text.isAlphanumeric c = true := by
  unfold Char.isAlphanum at h
  rcases Bool.or_eq_true_iff.1 h with halpha | hdigit
  · exact Text.isAlphanumeric_of_isAlphabetic (isAlphabetic_of_isAlpha halpha)
  · have hascii : c.toNat < 128 := by
      unfold Char.isDigit at hdigit
      simp only [Bool.and_eq_true, decide_eq_true_eq, ge_iff_le, UInt32.le_iff_toNat_le, Char.toNat_val,
        Char.reduceToNat] at hdigit
      omega
    rw [Text.isAlphanumeric, if_pos hascii, Char.isAlphanum, hdigit, Bool.or_true]

namespace Expression

theorem isPathSegment_of_isName {cs : List Char} (h : IsName cs) : isPathSegment cs = true := by
  obtain ⟨c, more, rfl, hc, hmore⟩ := h
  rw [isPathSegment, Bool.and_eq_true, List.all_eq_true]
  simp only [isNameStart, isNamePart, Bool.or_eq_true] at hc hmore ⊢
  exact ⟨hc.imp_left isAlphabetic_of_isAlpha, fun d hd => (hmore d hd).imp_left isAlphanumeric_of_isAlphanum⟩

theorem isPath_of_dotted {path : String} (h : Dotted path) : isPath path.toList = true :=
  List.all_eq_true.2 fun segment hs => isPathSegment_of_isName (h segment hs)

variable {c : Char} {more : List Char}

theorem magnitude?_of_isNameStart (hc : isNameStart c = true) : magnitude? (c :: more) = none := by
  have hdigit : ¬c.isDigit = true := by
    intro hdigit
    rw [not_isNameStart_of_isDigit hdigit] at hc
    cases hc
  unfold magnitude?
  split
  · next heq => exact absurd (by rw [(List.cons.inj heq).1]; decide) hdigit
  · next heq => exact absurd (by rw [(List.cons.inj heq).1]; decide) hdigit
  · rw [List.all_cons, if_neg fun hall => hdigit (Bool.and_eq_true_iff.1 hall).1]

/-- A text that begins like a name is no number, whatever suffix is cut off. -/
theorem integer?_of_isNameStart (hc : isNameStart c = true) : integer? (c :: more) = none := by
  have hprefix : ((c :: more).reverse.dropWhile isIntegerSuffix).reverse <+: c :: more := by
    have hsuffix : (c :: more).reverse.dropWhile isIntegerSuffix <:+ (c :: more).reverse := List.dropWhile_suffix _
    simpa using List.reverse_prefix.2 hsuffix
  unfold integer?
  dsimp only
  obtain ⟨tail, htail⟩ := hprefix
  generalize ((c :: more).reverse.dropWhile isIntegerSuffix).reverse = body at htail
  cases body with
  | nil => rfl
  | cons d body =>
    obtain ⟨rfl, -⟩ := List.cons.inj htail
    split
    · next heq => exact absurd (by rw [(List.cons.inj heq).1] at hc; exact hc) (by decide)
    · exact magnitude?_of_isNameStart hc

theorem float?_of_isNameStart (hc : isNameStart c = true) : float? (c :: more) = none := by
  have hstart : (c.isDigit || c == '-' || c == '.') = false := by
    rw [← Bool.not_eq_true]
    simp only [Bool.or_eq_true, beq_iff_eq]
    rintro ((hdigit | rfl) | rfl)
    · rw [not_isNameStart_of_isDigit hdigit] at hc
      cases hc
    · exact absurd hc (by decide)
    · exact absurd hc (by decide)
  have hhead : ∀ {body first rest}, body <+: c :: more → body = first :: rest → first = c := by
    rintro body first rest ⟨tail, htail⟩ rfl
    exact (List.cons.inj htail).1
  unfold float?
  dsimp only
  split
  · rfl
  · next first rest hbody =>
    -- a suffix that is cut off stands at the end
    have hfirst : first = c := by
      split at hbody
      · exact hhead (List.dropLast_prefix _) hbody
      · exact hhead (List.dropLast_prefix _) hbody
      · exact hhead (List.prefix_refl _) hbody
    rw [hfirst, hstart, Bool.false_and, Bool.false_and, if_neg Bool.false_ne_true]

theorem string?_of_isNameStart (hc : isNameStart c = true) : string? (c :: more) = none := by
  unfold string?
  dsimp only
  rw [if_neg]
  rintro ⟨rfl | rfl, -⟩
  · exact absurd hc (by decide)
  · exact absurd hc (by decide)

/-- **The value of a dotted path** is what is defined under it. -/
theorem evaluate_of_dotted {path : String} (h : Dotted path) (definitions : Dict Value) :
    evaluate definitions path = definitions.get? path := by
  obtain ⟨c, more, hpath, hc⟩ := h.exists_cons
  unfold evaluate
  dsimp only
  rw [h.tight.trim_eq, if_neg (by simpa using h.ne_nil)]
  rw [hpath, integer?_of_isNameStart hc, float?_of_isNameStart hc, string?_of_isNameStart hc, ← hpath]
  dsimp only
  rw [evaluateName, isPath_of_dotted h, if_pos rfl, String.ofList_toList]

end Expression
end CallSig
