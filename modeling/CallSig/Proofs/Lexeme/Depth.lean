import CallSig.Proofs.Lexeme.Nesting

/-!
# `CallSig.Proofs.Lexeme.Depth` — the depth that a run needs

`Nested` bounds the depth of a run, and the cutter has a bound of its own. Here the depth is exact. It is found by
counting: a well nested run leaves the number of open brackets as it was, and on the way that number rises by the depth
of the run and by no more. So the cutter leaves a run without outer commas in one piece from this depth on, and from no
smaller one.

## Contents
- **Exact depth.** `Nests`, with `Nests.append`, `Nests.weaken`.
- **Bounds.** `peak`, `Nested.peak_le`, `Nests.peak_eq`; `Nests.nested_iff`.
- **Pieces.** `Nests.pieces_iff`, `Nests.splitDefault_eq`.
-/

namespace CallSig
namespace Lexeme

/-! ## Exact depth -/

/-- The brackets among the tokens are well nested and exactly so many deep, and every token outside them is one of
these. -/
inductive Nests : (Token → Prop) → Nat → List Token → Prop
  | nil {outer : Token → Prop} : Nests outer 0 []
  | plain {outer : Token → Prop} {n : Nat} {t : Token} {ts : List Token} (ht : NoBracket t) (ho : outer t)
      (h : Nests outer n ts) : Nests outer n (t :: ts)
  | bracketed {outer : Token → Prop} {n m : Nat} (b : Bracket) {inner ts : List Token}
      (hi : Nests (fun _ => True) n inner) (h : Nests outer m ts) :
      Nests outer (max (n + 1) m) (.opening b :: (inner ++ .closing b :: ts))

/-- There are three brackets to compare a token with. -/
theorem noBracket {t : Token} (h : ∀ b ∈ [Bracket.round, .square, .angle], t ≠ .opening b ∧ t ≠ .closing b) :
    NoBracket t :=
  fun b => h b (by cases b <;> decide)

/-- The largest number of brackets that are open at once, if so many are open at first. -/
def peak (opened : Nat) : List Token → Nat
  | [] => opened
  | .opening _ :: ts => peak (opened + 1) ts
  | .closing _ :: ts => max opened (peak (opened - 1) ts)
  | _ :: ts => peak opened ts

theorem peak_plain {t : Token} (ht : NoBracket t) (opened : Nat) (ts : List Token) :
    peak opened (t :: ts) = peak opened ts := by
  cases t with
  | opening b => exact absurd rfl (ht b).1
  | closing b => exact absurd rfl (ht b).2
  | _ => rfl

/-- A run whose brackets are at most so many deep opens no more of them. -/
theorem Nested.peak_le {outer : Token → Prop} {depth : Nat} {xs : List Lexeme} (h : Nested outer depth xs)
    (opened : Nat) (ts : List Token) :
    peak opened (xs.map Lexeme.token ++ ts) ≤ max (opened + depth) (peak opened ts) := by
  induction h generalizing opened ts with
  | nil => exact Nat.le_max_right _ _
  | plain hx _ _ ih =>
    rw [List.map_cons, List.cons_append, peak_plain hx]
    exact ih opened ts
  | @bracketed outer depth b x y inner xs hx hy _ _ ihi ih =>
    have hopen := ihi (opened + 1) (.closing b :: (xs.map Lexeme.token ++ ts))
    have hrest := ih opened ts
    simp only [List.map_cons, List.map_append, List.cons_append, List.append_assoc, hx, hy]
    simp only [peak, Nat.add_sub_cancel] at hopen ⊢
    omega

/-- A single piece is the whole run. -/
theorem of_pieces_singleton {limit : Nat} {xs part : List Lexeme} (h : pieces limit xs = .ok [part]) :
    part = xs ∧ Nested NoComma limit xs := by
  rcases pieces_eq_ok_iff.1 h with ⟨-, hnil⟩ | ⟨-, hparts⟩
  · cases hnil
  · cases hparts with
    | last hn => exact ⟨rfl, hn⟩
    | comma _ _ hs => cases hs

namespace Nests

variable {outer outer' : Token → Prop} {n m : Nat} {ts us : List Token}

theorem append (h : Nests outer n ts) (h' : Nests outer m us) : Nests outer (max n m) (ts ++ us) := by
  induction h with
  | nil => rwa [Nat.zero_max]
  | plain ht ho _ ih => exact .plain ht ho (ih h')
  | @bracketed _ n k b inner ts hi _ _ ih =>
    rw [Nat.max_assoc, List.cons_append, List.append_assoc, List.cons_append]
    exact .bracketed b hi (ih h')

theorem weaken (h : Nests outer n ts) (ho : ∀ token, outer token → outer' token) : Nests outer' n ts := by
  induction h with
  | nil => exact .nil
  | plain ht hp _ ih => exact .plain ht (ho _ hp) (ih ho)
  | bracketed b hi _ _ ih => exact .bracketed b hi (ih ho)

/-- Tokens that are no brackets. -/
theorem of_plain (h : ∀ t ∈ ts, NoBracket t ∧ outer t) : Nests outer 0 ts := by
  induction ts with
  | nil => exact .nil
  | cons t ts ih =>
    obtain ⟨⟨ht, ho⟩, hts⟩ := List.forall_mem_cons.1 h
    exact .plain ht ho (ih hts)

/-! ## Bounds -/

/-- As many brackets are opened as the run is deep. -/
theorem peak_eq (h : Nests outer n ts) (opened : Nat) (us : List Token) :
    peak opened (ts ++ us) = max (opened + n) (peak opened us) := by
  induction h generalizing opened us with
  | nil =>
    have hle : ∀ (ts : List Token) (opened : Nat), opened ≤ peak opened ts := by
      intro ts
      induction ts with
      | nil => exact fun _ => Nat.le_refl _
      | cons t ts ih =>
        intro opened
        cases t with
        | opening b => exact Nat.le_of_succ_le (ih (opened + 1))
        | closing b => exact Nat.le_max_left _ _
        | _ => exact ih opened
    exact (Nat.max_eq_right (hle us opened)).symm
  | plain ht _ _ ih =>
    rw [List.cons_append, peak_plain ht]
    exact ih opened us
  | @bracketed outer n m b inner ts _ _ ihi ih =>
    have hopen := ihi (opened + 1) (.closing b :: (ts ++ us))
    have hrest := ih opened us
    simp only [List.cons_append, List.append_assoc]
    simp only [peak, Nat.add_sub_cancel] at hopen ⊢
    omega

theorem nested {xs : List Lexeme} (h : Nests outer n (xs.map Lexeme.token)) {limit : Nat} (hn : n ≤ limit) :
    Nested outer limit xs := by
  generalize hts : xs.map Lexeme.token = ts at h
  induction h generalizing xs limit with
  | nil =>
    obtain rfl := List.map_eq_nil_iff.1 hts
    exact .nil
  | plain ht ho _ ih =>
    obtain ⟨x, xs, rfl, rfl, hxs⟩ := List.map_eq_cons_iff.1 hts
    exact .plain ht ho (ih hn hxs)
  | bracketed b _ _ ihi ih =>
    obtain ⟨x, back, rfl, hx, hback⟩ := List.map_eq_cons_iff.1 hts
    obtain ⟨inner, back, rfl, hinner, hback⟩ := List.map_eq_append_iff.1 hback
    obtain ⟨y, xs, rfl, hy, hxs⟩ := List.map_eq_cons_iff.1 hback
    obtain ⟨limit, rfl⟩ : ∃ k, limit = k + 1 := ⟨limit - 1, by omega⟩
    exact .bracketed hx hy (ihi (by omega) hinner) (ih (by omega) hxs)

/-- **A run is nested within the limits from its depth on**, and within no smaller one. -/
theorem nested_iff {xs : List Lexeme} (h : Nests outer n (xs.map Lexeme.token)) {limit : Nat} :
    Nested outer limit xs ↔ n ≤ limit := by
  refine ⟨fun hn => ?_, h.nested⟩
  have hle := hn.peak_le 0 []
  rw [h.peak_eq 0 []] at hle
  simp only [peak] at hle
  omega

/-! ## Pieces -/

/-- **A run without outer commas is one piece** within the limits from its depth on, and within no smaller one. -/
theorem pieces_iff {xs : List Lexeme} (h : Nests outer n (xs.map Lexeme.token)) (hne : xs ≠ [])
    (ho : ∀ token, outer token → NoComma token) {limit : Nat} : pieces limit xs = .ok [xs] ↔ n ≤ limit := by
  rw [← (h.weaken ho).nested_iff]
  exact ⟨fun hp => (of_pieces_singleton hp).2, fun hn => pieces_eq_ok_iff.2 (.inr ⟨hne, .last hn⟩)⟩

/-- A run without outer equals signs has no default. -/
theorem splitDefault_eq {xs : List Lexeme} (h : Nests outer n (xs.map Lexeme.token))
    (ho : ∀ token, outer token → NoEqual token) : Descriptor.splitDefault 0 xs = (xs, none) := by
  have hn : Nested NoEqual n xs := (h.weaken ho).nested (Nat.le_refl n)
  rw [← List.append_nil xs, hn.splitDefault_append (.inr fun _ ho => ho)]
  simp [Descriptor.splitDefault]

end Nests
end Lexeme
end CallSig
