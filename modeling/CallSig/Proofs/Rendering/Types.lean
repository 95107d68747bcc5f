import CallSig.Proofs.Lexeme.Reading
import CallSig.TypeExpr

/-!
# `CallSig.Proofs.Rendering.Types` — types that can stand behind an arrow

A text is readable if it is made of words that are read back wherever no further character of names follows. Names
are readable, and so are readable texts in square brackets and with commas between them. So every type that is
built from builtin types is readable.

## Contents
- **Texts.** `Readable`, `readable_name`, `Readable.applied`, `Readable.comma`, `readable_intercalate`.
- **Types.** `TypeExpr.OfBuiltins`, `readable_text`.
-/

namespace CallSig

open Word

/-! ## Texts -/

/-- The text is made of words, at least one, that are read as they are before anything but a character of names. -/
def Readable (cs : List Char) : Prop :=
  ∃ w ws, spelled (w :: ws) = cs ∧ ∀ rest, EndsName rest → Reads (w :: ws) rest

theorem readable_name {cs : List Char} (h : IsName cs) : Readable cs :=
  ⟨Word.name cs, [], by simp [Word.name], fun _ hr => ⟨reads_name h hr, trivial⟩⟩

/-- A readable text in square brackets behind a name. -/
theorem Readable.applied {cs : List Char} (h : Readable cs) {name : List Char} (hname : IsName name) :
    Readable (name ++ '[' :: (cs ++ [']'])) := by
  obtain ⟨w, ws, hcs, hreads⟩ := h
  refine ⟨Word.name name, sign (.opening .square) '[' :: (w :: ws ++ [sign (.closing .square) ']']), ?_, ?_⟩
  · rw [← hcs]
    simp [Word.name, sign]
  · intro rest _
    refine ⟨reads_name hname (endsName_cons (by decide) _), ?_, ?_⟩
    · exact reads_sign _ (by decide) fun _ => rfl
    · refine reads_append (hreads _ (endsName_cons (by decide) _)) ⟨?_, trivial⟩
      exact reads_sign _ (by decide) fun _ => rfl

/-- Two readable texts with a comma and a blank between them. -/
theorem Readable.comma {cs cs' : List Char} (h : Readable cs) (h' : Readable cs') :
    Readable (cs ++ ',' :: ' ' :: cs') := by
  obtain ⟨w, ws, hcs, hreads⟩ := h
  obtain ⟨w', ws', hcs', hreads'⟩ := h'
  -- the blank belongs to the word after it
  let spaced : Word := { w' with gap := ' ' :: w'.gap }
  refine ⟨w, ws ++ sign .comma ',' :: spaced :: ws', ?_, ?_⟩
  · rw [← hcs, ← hcs']
    simp [sign, spaced]
  · intro rest hr
    obtain ⟨hfirst, hothers⟩ := hreads' rest hr
    have hspaced : spaced.ReadsBefore (spelled ws' ++ rest) := by
      refine ⟨?_, hfirst.read⟩
      intro c hc
      rcases List.mem_cons.1 hc with rfl | hc
      · decide
      · exact hfirst.blank c hc
    rw [← List.cons_append]
    refine reads_append (hreads _ (endsName_cons (by decide) _)) ⟨?_, hspaced, hothers⟩
    exact reads_sign _ (by decide) fun _ => rfl

theorem readable_intercalate {texts : List (List Char)} (hne : texts ≠ []) (h : ∀ t ∈ texts, Readable t) :
    Readable ([',', ' '].intercalate texts) := by
  induction texts with
  | nil => exact absurd rfl hne
  | cons t texts ih =>
    obtain ⟨ht, hts⟩ := List.forall_mem_cons.1 h
    -- the comma stands between two texts, so the last text is a case of its own
    cases texts with
    | nil =>
      rw [List.intercalate_singleton]
      exact ht
    | cons t' texts =>
      rw [List.intercalate_cons_cons, List.append_assoc]
      exact ht.comma (ih (List.cons_ne_nil _ _) hts)

/-! ## Types -/

/-- The type is built from builtin types. -/
inductive TypeExpr.OfBuiltins : TypeExpr → Prop
  | builtin (b : Builtin) : OfBuiltins (.builtin b)
  | optional {t : TypeExpr} : OfBuiltins t → OfBuiltins (.optional t)
  | generic {kind : GenericKind} {args : List TypeExpr} : (∀ t ∈ args, OfBuiltins t) → OfBuiltins (.generic kind args)

theorem isName_builtin (b : Builtin) : IsName b.name.toList := by
  cases b <;> decide

theorem isName_generic (kind : GenericKind) : IsName kind.name.toList := by
  cases kind <;> decide

theorem texts_eq_map (ts : List TypeExpr) : TypeExpr.texts ts = ts.map TypeExpr.text := by
  induction ts with
  | nil => rfl
  | cons t ts ih => rw [TypeExpr.texts, ih, List.map_cons]

/-- A former with its readable arguments. -/
theorem readable_bracketed {name : String} (hname : IsName name.toList) {texts : List String}
    (h : ∀ t ∈ texts, Readable t.toList) : Readable (name ++ TypeExpr.bracketed texts).toList := by
  have hcomma : ", ".toList = [',', ' '] := by decide
  have hopen : "[".toList = ['['] := by decide
  have hclose : "]".toList = [']'] := by decide
  unfold TypeExpr.bracketed Text.join
  by_cases hne : texts = []
  · simp only [hne, List.isEmpty_nil, if_true, String.append_empty]
    exact readable_name hname
  · have hmembers : ∀ t ∈ texts.map String.toList, Readable t := by
      intro t ht
      obtain ⟨s, hs, rfl⟩ := List.mem_map.1 ht
      exact h s hs
    have hmap : texts.map String.toList ≠ [] := fun heq => hne (List.map_eq_nil_iff.1 heq)
    simp only [List.isEmpty_iff, if_neg hne, String.toList_append, String.toList_intercalate, hcomma, hopen, hclose,
      List.singleton_append]
    exact (readable_intercalate hmap hmembers).applied hname

/-- The type of the empty tuple, the only one with round brackets. -/
theorem readable_emptyTuple : Readable "Tuple[()]".toList := by
  have hreads : Readable (['(', ')']) := by
    refine ⟨sign (.opening .round) '(', [sign (.closing .round) ')'], by decide, fun rest _ => ⟨?_, ?_, trivial⟩⟩
    · exact reads_sign _ (by decide) fun _ => rfl
    · exact reads_sign _ (by decide) fun _ => rfl
  exact hreads.applied (by decide : IsName "Tuple".toList)

/-- **Types of builtins are readable.** -/
theorem readable_text {t : TypeExpr} (h : t.OfBuiltins) : Readable t.text.toList := by
  induction h with
  | builtin b =>
    rw [TypeExpr.text]
    exact readable_name (isName_builtin b)
  | @optional t _ ih =>
    have hopen : "Optional[".toList = "Optional".toList ++ ['['] := by decide
    have hclose : "]".toList = [']'] := by decide
    rw [TypeExpr.text, String.toList_append, String.toList_append, hopen, hclose, List.append_assoc, List.append_assoc]
    exact ih.applied (by decide : IsName "Optional".toList)
  | @generic kind args _ ih =>
    by_cases hempty : kind = .tuple ∧ args = []
    · obtain ⟨rfl, rfl⟩ := hempty
      rw [TypeExpr.text]
      exact readable_emptyTuple
    · rw [TypeExpr.text, texts_eq_map]
      · refine readable_bracketed (isName_generic kind) fun s hs => ?_
        obtain ⟨t, ht, rfl⟩ := List.mem_map.1 hs
        exact ih t ht
      · exact fun hkind hargs => hempty ⟨hkind, hargs⟩

end CallSig
