import CallSig.Text.Blank

/-!
# `CallSig.Proofs.Text.Trim` — texts without blanks around them

Resolution works on tokens that have no blanks at their ends, and hands only such tokens to itself. This file
says what trimming leaves, and that trimming once is enough.

## Contents
- **Tight texts.** `Tight`, `tight_trim`, `tight_trimEnd`, `Tight.trim_eq`.
- **Strings.** `trimmed_of_tight`, `trimmed_trimmed`.
- **Words.** `collapse_eq_self`: a text without blanks is one word; `takeWhile_of_collapse`: a text that collapses
  to one word is this word with blanks around it.
-/

namespace CallSig
namespace Text

/-! ## Tight texts -/

/-- Neither end of the text is blank. -/
def Tight (cs : List Char) : Prop :=
  (∀ c, cs.head? = some c → isBlank c = false) ∧ (∀ c, cs.getLast? = some c → isBlank c = false)

theorem trimStart_eq_self {cs : List Char} (h : ∀ c, cs.head? = some c → isBlank c = false) :
    trimStart cs = cs := by
  cases cs with
  | nil => rfl
  | cons c cs => exact List.dropWhile_cons_of_neg (by simp [h c rfl])

theorem trimEnd_eq_self {cs : List Char} (h : ∀ c, cs.getLast? = some c → isBlank c = false) :
    trimEnd cs = cs := by
  have hr : trimStart cs.reverse = cs.reverse :=
    trimStart_eq_self fun c hc => h c (by rwa [List.head?_reverse] at hc)
  show (trimStart cs.reverse).reverse = cs
  rw [hr, List.reverse_reverse]

theorem Tight.trim_eq {cs : List Char} (h : Tight cs) : trim cs = cs := by
  unfold trim
  rw [trimStart_eq_self h.1, trimEnd_eq_self h.2]

theorem not_blank_of_head?_trimStart {cs : List Char} {c : Char} (h : (trimStart cs).head? = some c) :
    isBlank c = false := by
  have hn := List.head?_dropWhile_not isBlank cs
  rw [show (cs.dropWhile isBlank).head? = some c from h] at hn
  simpa using hn

theorem not_blank_of_getLast?_trimEnd {cs : List Char} {c : Char} (h : (trimEnd cs).getLast? = some c) :
    isBlank c = false := by
  unfold trimEnd at h
  rw [List.getLast?_reverse] at h
  exact not_blank_of_head?_trimStart h

theorem trimEnd_isPrefix (cs : List Char) : trimEnd cs <+: cs := by
  -- the end is trimmed as the start of the reversed text
  have hs : cs.reverse.dropWhile isBlank <:+ cs.reverse := List.dropWhile_suffix _
  have hp := List.reverse_prefix.2 hs
  rwa [List.reverse_reverse] at hp

theorem length_trim_le (cs : List Char) : (trim cs).length ≤ cs.length :=
  Nat.le_trans (trimEnd_isPrefix _).length_le (List.dropWhile_suffix _).length_le

theorem head?_of_isPrefix {a b : List Char} (h : a <+: b) {c : Char} (hc : a.head? = some c) :
    b.head? = some c := by
  obtain ⟨t, rfl⟩ := h
  cases a with
  | nil => simp at hc
  | cons a as => simpa using hc

/-- Cutting the blanks off the end of a text that begins with no blank leaves nothing to trim. -/
theorem tight_trimEnd {cs : List Char} (h : ∀ c, cs.head? = some c → isBlank c = false) : Tight (trimEnd cs) :=
  ⟨fun c hc => h c (head?_of_isPrefix (trimEnd_isPrefix cs) hc), fun _ hc => not_blank_of_getLast?_trimEnd hc⟩

theorem tight_trim (cs : List Char) : Tight (trim cs) := tight_trimEnd fun _ hc => not_blank_of_head?_trimStart hc

/-! ## Strings -/

theorem trimmed_of_tight {cs : List Char} (h : Tight cs) : trimmed (String.ofList cs) = String.ofList cs := by
  unfold trimmed
  rw [String.toList_ofList, h.trim_eq]

@[simp] theorem trimmed_trimmed (s : String) : trimmed (trimmed s) = trimmed s :=
  trimmed_of_tight (tight_trim s.toList)

theorem length_trimmed_le (s : String) : (trimmed s).length ≤ s.length := by
  unfold trimmed
  rw [String.length_ofList, ← String.length_toList]
  exact length_trim_le s.toList

/-! ## Words -/

theorem cutWhere_eq_singleton {isSep : Char → Bool} {cs : List Char} (h : ∀ c ∈ cs, isSep c = false) :
    cutWhere isSep cs = [cs] := by
  induction cs with
  | nil => rfl
  | cons c cs ih =>
    rw [cutWhere, ih fun d hd => h d (List.mem_cons_of_mem _ hd), if_neg (by simp [h c List.mem_cons_self])]

theorem collapse_eq_self {cs : List Char} (h : ∀ c ∈ cs, isBlank c = false) : collapse cs = cs := by
  have hwords : words cs = [cs].filter fun w => !w.isEmpty := by
    unfold words
    rw [cutWhere_eq_singleton h]
  cases cs with
  | nil => rfl
  | cons c cs =>
    unfold collapse
    rw [hwords]
    exact List.intercalate_singleton

theorem cutWhere_append_cons {isSep : Char → Bool} {front : List Char} {sep : Char}
    (h : ∀ c ∈ front, isSep c = false) (hs : isSep sep = true) (back : List Char) :
    cutWhere isSep (front ++ sep :: back) = front :: cutWhere isSep back := by
  induction front with
  | nil => rw [List.nil_append, cutWhere, if_pos hs]
  | cons c front ih =>
    rw [List.cons_append, cutWhere, ih fun d hd => h d (List.mem_cons_of_mem _ hd),
      if_neg (by simp [h c List.mem_cons_self])]

/-- A word is cut off where white space follows it. -/
theorem words_append_cons {front : List Char} (hne : front ≠ []) (h : ∀ c ∈ front, isBlank c = false) {sep : Char}
    (hs : isBlank sep = true) (back : List Char) : words (front ++ sep :: back) = front :: words back := by
  unfold words
  rw [cutWhere_append_cons h hs, List.filter_cons_of_pos (by simpa using hne)]

theorem exists_mem_cutWhere {isSep : Char → Bool} {cs : List Char} {c : Char} (hc : c ∈ cs)
    (hs : isSep c = false) : ∃ piece ∈ cutWhere isSep cs, c ∈ piece := by
  induction cs with
  | nil => cases hc
  | cons d cs ih =>
    rw [cutWhere]
    split
    · next hd =>
      rcases List.mem_cons.1 hc with rfl | hc
      · rw [hd] at hs
        cases hs
      · obtain ⟨piece, hp, hmem⟩ := ih hc
        exact ⟨piece, List.mem_cons_of_mem _ hp, hmem⟩
    · cases hcut : cutWhere isSep cs with
      | nil => exact absurd hcut (cutWhere_ne_nil isSep cs)
      | cons piece pieces =>
        rw [hcut] at ih
        rcases List.mem_cons.1 hc with rfl | hc
        · exact ⟨c :: piece, List.mem_cons_self, List.mem_cons_self⟩
        · obtain ⟨other, hp, hmem⟩ := ih hc
          rcases List.mem_cons.1 hp with rfl | hp
          · exact ⟨d :: other, List.mem_cons_self, List.mem_cons_of_mem _ hmem⟩
          · exact ⟨other, List.mem_cons_of_mem _ hp, hmem⟩

/-- A text without words is blank. -/
theorem isBlank_of_words_eq_nil {cs : List Char} (h : words cs = []) : ∀ c ∈ cs, isBlank c = true := by
  intro c hc
  cases hb : isBlank c with
  | true => rfl
  | false =>
    obtain ⟨piece, hp, hmem⟩ := exists_mem_cutWhere hc hb
    have hword : piece ∈ words cs := List.mem_filter.2 ⟨hp, by cases piece <;> simp_all⟩
    rw [h] at hword
    cases hword

/-- A text that begins with no blank and collapses to a text without spaces is this text and blanks after it. -/
theorem takeWhile_of_collapse {cs : List Char} (hspace : ' ' ∉ collapse cs)
    (hhead : ∀ c, cs.head? = some c → isBlank c = false) :
    ∃ back, cs = collapse cs ++ back ∧ ∀ c ∈ back, isBlank c = true := by
  obtain ⟨front, back, rfl, hfront, hback⟩ : ∃ front back, cs = front ++ back ∧
      (∀ c ∈ front, isBlank c = false) ∧ ∀ c, back.head? = some c → isBlank c = true := by
    refine ⟨cs.takeWhile fun c => !isBlank c, cs.dropWhile fun c => !isBlank c, ?_, ?_, ?_⟩
    · exact List.takeWhile_append_dropWhile.symm
    · intro c hc
      simpa using List.all_eq_true.1 List.all_takeWhile c hc
    · intro c hc
      have hn := List.head?_dropWhile_not (fun c => !isBlank c) cs
      rw [hc] at hn
      simpa using hn
  cases back with
  | nil =>
    rw [List.append_nil, collapse_eq_self hfront]
    exact ⟨[], (List.append_nil _).symm, List.forall_mem_nil _⟩
  | cons sep back =>
    have hsep : isBlank sep = true := hback sep rfl
    have hne : front ≠ [] := by
      rintro rfl
      rw [hhead sep rfl] at hsep
      cases hsep
    have hwords : words (front ++ sep :: back) = front :: words back := words_append_cons hne hfront hsep back
    -- a second word would come after a space
    cases hback' : words back with
    | nil =>
      have hcollapse : collapse (front ++ sep :: back) = front := by
        unfold collapse
        rw [hwords, hback']
        exact List.intercalate_singleton
      rw [hcollapse]
      refine ⟨sep :: back, rfl, ?_⟩
      intro c hc
      rcases List.mem_cons.1 hc with rfl | hc
      · exact hsep
      · exact isBlank_of_words_eq_nil hback' c hc
    | cons word more =>
      refine absurd ?_ hspace
      unfold collapse
      rw [hwords, hback', List.intercalate_cons_cons]
      simp

end Text
end CallSig
