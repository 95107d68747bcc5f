import CallSig.Descriptor.Parser
import CallSig.Proofs.Lexeme.Cutting
import CallSig.Proofs.Lexeme.Spelling

/-!
# `CallSig.Proofs.Lexeme.Nesting` — well nested runs

Three scanners go through the lexemes of a line: one looks for the closing round bracket, one cuts at commas, and
one looks for an equals sign. Each keeps its own account of brackets. On a run whose brackets are well nested all
of them see the same thing: what stands outside the brackets. The cutter is the only one that refuses the other
runs, and the pieces it returns are the parts of the run between its outer commas.

## Contents
- **Nesting.** `Nested`, with `Nested.append`, `Nested.weaken`, `Nested.mono`.
- **Scanners.** `Nested.untilClose?_append`, `Nested.splitDefault_append`, `Nested.passes`.
- **Cutting.** `Separated`, `closes_of_cut`, `cut_eq_ok_iff`, `pieces_eq_ok_iff`,
  `nested_iff_exists_pieces`.
- **Defaults.** `splitDefault_eq`: a nested run is divided at its first outer equals sign.
-/

namespace CallSig
namespace Lexeme

/-! ## Nesting -/

/-- The token is no bracket. -/
def NoBracket (token : Token) : Prop := ∀ b, token ≠ .opening b ∧ token ≠ .closing b

/-- The brackets of a run are well nested and at most so many deep, and every token outside them is one of
these. -/
inductive Nested : (Token → Prop) → Nat → List Lexeme → Prop
  | nil {outer : Token → Prop} {depth : Nat} : Nested outer depth []
  | plain {outer : Token → Prop} {depth : Nat} {x : Lexeme} {xs : List Lexeme} (hx : NoBracket x.token)
      (ho : outer x.token) (h : Nested outer depth xs) : Nested outer depth (x :: xs)
  | bracketed {outer : Token → Prop} {depth : Nat} {b : Bracket} {x y : Lexeme} {inner xs : List Lexeme}
      (hx : x.token = .opening b) (hy : y.token = .closing b) (hi : Nested (fun _ => True) depth inner)
      (h : Nested outer (depth + 1) xs) : Nested outer (depth + 1) (x :: (inner ++ y :: xs))

/-- Every token but a comma. -/
def NoComma (token : Token) : Prop := token ≠ .comma

/-- Every token but an equals sign. -/
def NoEqual (token : Token) : Prop := token ≠ .equal

/-! ## One lexeme before an equals sign -/

open Descriptor (splitDefault)

theorem splitDefault_plain {x : Lexeme} {open_ : Nat} (hx : NoBracket x.token)
    (he : ¬(x.token = .equal ∧ open_ = 0)) (ys : List Lexeme) :
    splitDefault open_ (x :: ys) = (x :: (splitDefault open_ ys).1, (splitDefault open_ ys).2) := by
  rw [splitDefault, if_neg he]
  cases hx' : x.token with
  | opening b => exact absurd hx' (hx b).1
  | closing b => exact absurd hx' (hx b).2
  | _ => rfl

theorem splitDefault_opening {x : Lexeme} {b : Bracket} (hx : x.token = .opening b) (open_ : Nat)
    (ys : List Lexeme) :
    splitDefault open_ (x :: ys) = (x :: (splitDefault (open_ + 1) ys).1, (splitDefault (open_ + 1) ys).2) := by
  rw [splitDefault, if_neg (by simp [hx])]
  simp only [hx]

theorem splitDefault_closing {x : Lexeme} {b : Bracket} (hx : x.token = .closing b) (open_ : Nat)
    (ys : List Lexeme) :
    splitDefault open_ (x :: ys) = (x :: (splitDefault (open_ - 1) ys).1, (splitDefault (open_ - 1) ys).2) := by
  rw [splitDefault, if_neg (by simp [hx])]
  simp only [hx]

namespace Nested

variable {outer outer' : Token → Prop} {depth : Nat} {xs ys : List Lexeme}

theorem append (h : Nested outer depth xs) (h' : Nested outer depth ys) : Nested outer depth (xs ++ ys) := by
  induction h with
  | nil => exact h'
  | plain hx ho _ ih => exact .plain hx ho (ih h')
  | @bracketed _ _ _ x y inner xs hx hy hi _ _ ih =>
    rw [show x :: (inner ++ y :: xs) ++ ys = x :: (inner ++ y :: (xs ++ ys)) by simp]
    exact .bracketed hx hy hi (ih h')

theorem weaken (h : Nested outer depth xs) (ho : ∀ token, outer token → outer' token) :
    Nested outer' depth xs := by
  induction h with
  | nil => exact .nil
  | plain hx hp _ ih => exact .plain hx (ho _ hp) (ih ho)
  | bracketed hx hy hi _ _ ih => exact .bracketed hx hy hi (ih ho)

theorem mono {limit : Nat} (h : Nested outer depth xs) (hl : depth ≤ limit) : Nested outer limit xs := by
  induction h generalizing limit with
  | nil => exact .nil
  | plain hx ho _ ih => exact .plain hx ho (ih hl)
  | bracketed hx hy _ _ ihi ih =>
    obtain ⟨k, rfl⟩ := Nat.exists_eq_add_of_le' (Nat.le_of_add_left_le hl)
    exact .bracketed hx hy (ihi (Nat.le_of_succ_le_succ hl)) (ih hl)

theorem of_plain {x : Lexeme} (h : Nested outer depth (x :: xs)) (hx : NoBracket x.token) :
    Nested outer depth xs := by
  cases h with
  | plain _ _ h => exact h
  | bracketed hb => exact absurd hb (hx _).1

/-! ## Scanners -/

/-- The search for a closing round bracket goes through a nested run. -/
theorem untilClose?_append (h : Nested outer depth xs) (open_ : Nat) (ys : List Lexeme) :
    untilClose? open_ (xs ++ ys) = (untilClose? open_ ys).map fun (inner, rest) => (xs ++ inner, rest) := by
  induction h generalizing open_ ys with
  | nil =>
    rw [List.nil_append]
    cases untilClose? open_ ys <;> rfl
  | @plain _ _ x xs hx _ _ ih =>
    obtain ⟨ho, hc⟩ := hx .round
    rw [List.cons_append, untilClose?, if_neg fun h => hc h.1]
    simp only [if_neg ho, if_neg hc, ih]
    cases untilClose? open_ ys <;> rfl
  | @bracketed _ _ b x y inner xs hx hy _ _ ihi ih =>
    rw [List.cons_append, List.append_assoc, List.cons_append, untilClose?, if_neg (by simp [hx])]
    -- a round bracket counts up and, after the run inside it, down again; another one does not count
    by_cases hb : b = .round
    · subst hb
      simp only [if_pos hx, ihi, untilClose?, hy, if_true]
      simp only [reduceCtorEq, Nat.add_one_ne_zero, and_false, if_false, Nat.add_sub_cancel, ih]
      cases untilClose? open_ ys with
      | none => rfl
      | some found => simp
    · have ho : x.token ≠ .opening .round := by simp [hx, hb]
      have hc : x.token ≠ .closing .round := by simp [hx]
      have ho' : y.token ≠ .opening .round := by simp [hy]
      have hc' : y.token ≠ .closing .round := by simp [hy, hb]
      simp only [if_neg ho, if_neg hc, ihi, untilClose?, hc', false_and, if_neg ho', if_false, ih]
      cases untilClose? open_ ys with
      | none => rfl
      | some found => simp

/-- The search for an equals sign goes through a nested run, inside brackets or where the run has none outside
its own. -/
theorem splitDefault_append (h : Nested outer depth xs) {open_ : Nat}
    (ho : 0 < open_ ∨ ∀ token, outer token → token ≠ .equal) (ys : List Lexeme) :
    splitDefault open_ (xs ++ ys) = (xs ++ (splitDefault open_ ys).1, (splitDefault open_ ys).2) := by
  induction h generalizing open_ ys with
  | nil => rfl
  | @plain outer _ x xs hx hp _ ih =>
    have hequal : ¬(x.token = .equal ∧ open_ = 0) := by
      rintro ⟨hx, rfl⟩
      exact ho.elim (Nat.lt_irrefl 0) fun ho => ho _ hp hx
    rw [List.cons_append, splitDefault_plain hx hequal, ih ho]
    rfl
  | @bracketed outer _ b x y inner xs hx hy _ _ ihi ih =>
    rw [List.cons_append, List.append_assoc, List.cons_append, splitDefault_opening hx,
      ihi (.inl (show 0 < open_ + 1 from Nat.succ_pos _)), splitDefault_closing hy, Nat.add_sub_cancel, ih ho]
    simp

/-- The cutter goes through a nested run, inside brackets or where the run has no comma outside its own. -/
theorem passes (h : Nested outer depth xs) {limit : Nat} {opened : List (Bracket × Span)}
    (hd : depth + opened.length ≤ limit) (ho : opened ≠ [] ∨ ∀ token, outer token → token ≠ .comma) :
    Passes limit opened xs := by
  induction h generalizing opened with
  | nil => exact passes_plain (List.forall_mem_nil _)
  | @plain _ _ x xs hx hp _ ih =>
    have hhead : Passes limit opened [x] := by
      intro ys
      rw [List.singleton_append, cut.eq_def]
      cases hx' : x.token with
      | opening b => exact absurd hx' (hx b).1
      | closing b => exact absurd hx' (hx b).2
      | comma =>
        cases opened with
        | nil => exact absurd hx' (ho.elim (fun h => absurd rfl h) fun ho => ho _ hp)
        | cons outer more =>
          simp only [hx']
          rfl
      | _ => cases opened <;> simp only [hx'] <;> rfl
    exact hhead.append (ih hd ho)
  | @bracketed _ depth b x y inner xs hx hy _ _ ihi ih =>
    have hinner : Passes limit ((b, x.span) :: opened) inner :=
      ihi (by simp only [List.length_cons]; omega) (.inl (List.cons_ne_nil _ _))
    have hpair : Passes limit opened (x :: (inner ++ [y])) := passes_bracketed hx hy (by omega) hinner
    rw [show x :: (inner ++ y :: xs) = x :: (inner ++ [y]) ++ xs by simp]
    exact hpair.append (ih hd ho)

end Nested

/-! ## Cutting -/

variable {limit : Nat}

/-- A run and its parts between commas outside brackets; every part has the property. -/
inductive Separated (P : List Lexeme → Prop) : List Lexeme → List (List Lexeme) → Prop
  | last {xs : List Lexeme} (h : P xs) : Separated P xs [xs]
  | comma {xs ys : List Lexeme} {comma : Lexeme} {parts : List (List Lexeme)} (h : P xs)
      (hc : comma.token = .comma) (hs : Separated P ys parts) : Separated P (xs ++ comma :: ys) (xs :: parts)

/-- A run before the first part goes to the first part. -/
theorem Separated.prepend {P : List Lexeme → Prop} {front ys piece : List Lexeme} {more : List (List Lexeme)}
    (hf : ∀ xs, P xs → P (front ++ xs)) (h : Separated P ys (piece :: more)) :
    Separated P (front ++ ys) ((front ++ piece) :: more) := by
  cases h with
  | last h => exact .last (hf _ h)
  | comma h hc hs =>
    rw [← List.append_assoc]
    exact .comma (hf _ h) hc hs

theorem Separated.of_nil {P : List Lexeme → Prop} {parts : List (List Lexeme)} (h : Separated P [] parts) :
    parts = [[]] := by
  generalize hxs : [] = xs at h
  cases h with
  | last => rw [← hxs]
  | comma => simp at hxs

theorem Separated.forall_mem {P : List Lexeme → Prop} {xs : List Lexeme} {parts : List (List Lexeme)}
    (h : Separated P xs parts) : ∀ part ∈ parts, P part ∧ part <:+: xs := by
  induction h with
  | @last xs h =>
    intro part hpart
    obtain rfl := List.mem_singleton.1 hpart
    exact ⟨h, List.infix_refl _⟩
  | @comma xs ys comma parts h _ _ ih =>
    intro part hpart
    rcases List.mem_cons.1 hpart with rfl | hpart
    · exact ⟨h, (List.prefix_append _ _).isInfix⟩
    · obtain ⟨hp, hinfix⟩ := ih part hpart
      exact ⟨hp, hinfix.trans ((List.suffix_cons comma ys).trans (List.suffix_append xs _)).isInfix⟩

/-- A list whose parts are nested is nested. -/
theorem Separated.nested {xs : List Lexeme} {parts : List (List Lexeme)}
    (h : Separated (Nested NoComma limit) xs parts) : Nested (fun _ => True) limit xs := by
  induction h with
  | last h => exact h.weaken fun _ _ => trivial
  | comma h hc _ ih => exact (h.weaken fun _ _ => trivial).append (.plain (fun b => by simp [hc]) trivial ih)

/-- What is cut with a bracket open begins with a nested run and the bracket that closes it. -/
theorem closes_of_cut {b : Bracket} {span : Span} {opened : List (Bracket × Span)} {xs piece : List Lexeme}
    {more : List (List Lexeme)} (hl : opened.length < limit)
    (h : cut limit ((b, span) :: opened) xs = .ok (piece, more)) :
    ∃ inner y ys front, xs = inner ++ y :: ys ∧ y.token = .closing b ∧
      Nested (fun _ => True) (limit - (opened.length + 1)) inner ∧ piece = inner ++ y :: front ∧
      cut limit opened ys = .ok (front, more) := by
  -- the run inside may hold further pairs, each of which is closed by the same statement about a shorter run
  match xs with
  | [] => rw [cut] at h; cases h
  | x :: xs =>
    by_cases hplain : NoBracket x.token
    · have hx : Nested (fun _ => True) (limit - (opened.length + 1)) [x] := .plain hplain trivial .nil
      have hpass : Passes limit ((b, span) :: opened) [x] :=
        hx.passes (by simp only [List.length_cons]; omega) (.inl (List.cons_ne_nil _ _))
      rw [show x :: xs = [x] ++ xs from rfl, hpass] at h
      obtain ⟨⟨piece', more'⟩, hcut, he⟩ := eq_ok_of_map_eq_ok h
      cases he
      obtain ⟨inner, y, ys, front, rfl, hy, hi, rfl, hrest⟩ := closes_of_cut hl hcut
      exact ⟨x :: inner, y, ys, front, rfl, hy, .plain hplain trivial hi, rfl, hrest⟩
    · cases hx : x.token with
      | opening b' =>
        by_cases hlimit : limit ≤ opened.length + 1
        · rw [cut.eq_def] at h
          simp only [hx, List.length_cons, if_pos hlimit] at h
          cases h
        · rw [cut_opening hx (by simp only [List.length_cons]; omega)] at h
          obtain ⟨⟨piece', more'⟩, hcut, he⟩ := eq_ok_of_map_eq_ok h
          cases he
          obtain ⟨inner, y, ys, front, hxs, hy, hi, rfl, hrest⟩ :=
            closes_of_cut (by simp only [List.length_cons]; omega) hcut
          -- the run after the pair is shorter than the run that the pair stands in
          have hlength : ys.length < xs.length := by
            rw [hxs, List.length_append, List.length_cons]
            omega
          obtain ⟨inner', y', ys', front', hys, hy', hi', rfl, hrest'⟩ := closes_of_cut hl hrest
          refine ⟨x :: (inner ++ y :: inner'), y', ys', front', by simp [hxs, hys], hy', ?_, by simp, hrest'⟩
          have hdepth : limit - (opened.length + 1) = limit - (opened.length + 1 + 1) + 1 := by omega
          rw [hdepth] at hi' ⊢
          exact .bracketed hx hy hi hi'
      | closing b' =>
        by_cases hb : b = b'
        · subst hb
          rw [cut_closing hx] at h
          obtain ⟨⟨piece', more'⟩, hcut, he⟩ := eq_ok_of_map_eq_ok h
          cases he
          exact ⟨[], x, xs, piece', rfl, hx, .nil, rfl, hcut⟩
        · rw [cut.eq_def] at h
          simp only [hx, if_neg hb] at h
          cases h
      | _ => exact absurd (fun _ => by simp [hx]) hplain
termination_by xs.length
decreasing_by all_goals (simp only [List.length_cons]; omega)

/-- The pieces of a run are its parts between commas outside brackets, and each of them is nested. -/
theorem separated_of_cut {xs piece : List Lexeme} {more : List (List Lexeme)}
    (h : cut limit [] xs = .ok (piece, more)) : Separated (Nested NoComma limit) xs (piece :: more) := by
  match xs with
  | [] =>
    rw [cut] at h
    cases h
    exact .last .nil
  | x :: xs =>
    by_cases hplain : NoBracket x.token
    · by_cases hcomma : x.token = .comma
      · rw [cut_comma hcomma] at h
        obtain ⟨⟨piece', more'⟩, hcut, he⟩ := eq_ok_of_map_eq_ok h
        cases he
        have hfirst : Nested NoComma limit [] := .nil
        exact .comma hfirst hcomma (separated_of_cut hcut)
      · have hx : Nested NoComma limit [x] := .plain hplain hcomma .nil
        have hpass : Passes limit [] [x] := hx.passes (Nat.le_refl _) (.inr fun _ h => h)
        rw [show x :: xs = [x] ++ xs from rfl, hpass] at h
        obtain ⟨⟨piece', more'⟩, hcut, he⟩ := eq_ok_of_map_eq_ok h
        cases he
        exact (separated_of_cut hcut).prepend fun _ hn => hx.append hn
    · cases hx : x.token with
      | opening b =>
        by_cases hlimit : limit ≤ 0
        · rw [cut.eq_def] at h
          simp only [hx, List.length_nil, if_pos hlimit] at h
          cases h
        · rw [cut_opening hx (Nat.lt_of_not_le hlimit)] at h
          obtain ⟨⟨piece', more'⟩, hcut, he⟩ := eq_ok_of_map_eq_ok h
          cases he
          obtain ⟨inner, y, ys, front, hxs, hy, hi, rfl, hrest⟩ := closes_of_cut (Nat.lt_of_not_le hlimit) hcut
          have hlength : ys.length < xs.length := by
            rw [hxs, List.length_append, List.length_cons]
            omega
          have hpair : Nested NoComma limit (x :: (inner ++ [y])) := by
            obtain ⟨n, rfl⟩ : ∃ n, limit = n + 1 := ⟨limit - 1, by omega⟩
            exact .bracketed hx hy hi .nil
          have hfront := (separated_of_cut hrest).prepend fun _ hn => hpair.append hn
          simpa [hxs] using hfront
      | closing b =>
        rw [cut.eq_def] at h
        simp only [hx] at h
        cases h
      | _ => exact absurd (fun _ => by simp [hx]) hplain
termination_by xs.length
decreasing_by all_goals (simp only [List.length_cons]; omega)

theorem cut_of_separated {xs piece : List Lexeme} {more : List (List Lexeme)}
    (h : Separated (Nested NoComma limit) xs (piece :: more)) : cut limit [] xs = .ok (piece, more) := by
  have hpass {ys : List Lexeme} (hn : Nested NoComma limit ys) : Passes limit [] ys :=
    hn.passes (Nat.le_refl _) (.inr fun _ h => h)
  generalize hparts : piece :: more = parts at h
  induction h generalizing piece more with
  | last hn =>
    cases hparts
    exact cut_passes_end (hpass hn)
  | @comma xs ys comma parts hn hc hs ih =>
    cases hparts
    cases hs with
    | last hlast => rw [cut_passes_comma (hpass hn) hc, ih rfl]; rfl
    | comma => rw [cut_passes_comma (hpass hn) hc, ih rfl]; rfl

/-- **Cutting** succeeds on the nested runs only, and gives their parts between commas outside brackets. -/
theorem cut_eq_ok_iff {xs piece : List Lexeme} {more : List (List Lexeme)} :
    cut limit [] xs = .ok (piece, more) ↔ Separated (Nested NoComma limit) xs (piece :: more) :=
  ⟨separated_of_cut, cut_of_separated⟩

theorem pieces_eq_ok_iff {xs : List Lexeme} {parts : List (List Lexeme)} :
    pieces limit xs = .ok parts ↔
      xs = [] ∧ parts = [] ∨ xs ≠ [] ∧ Separated (Nested NoComma limit) xs parts := by
  unfold pieces
  by_cases hxs : xs = []
  · subst hxs
    simp [eq_comm]
  · rw [if_neg (by simpa using hxs)]
    constructor
    · intro h
      obtain ⟨⟨piece, more⟩, hcut, rfl⟩ := eq_ok_of_map_eq_ok h
      exact .inr ⟨hxs, cut_eq_ok_iff.1 hcut⟩
    · rintro (⟨hnil, -⟩ | ⟨-, hparts⟩)
      · exact absurd hnil hxs
      · cases parts with
        | nil => cases hparts
        | cons piece more =>
          rw [cut_eq_ok_iff.2 hparts]
          rfl

/-- A nested run can be cut at its outer commas. -/
theorem Nested.exists_separated {outer : Token → Prop} {n : Nat} {xs : List Lexeme} (h : Nested outer n xs) :
    ∃ piece more, Separated (Nested NoComma n) xs (piece :: more) := by
  induction h with
  | nil => exact ⟨[], [], .last .nil⟩
  | @plain _ n x xs hx _ _ ih =>
    obtain ⟨piece, more, hs⟩ := ih
    by_cases hc : x.token = .comma
    · exact ⟨[], piece :: more, .comma .nil hc hs⟩
    · have hfront : ∀ zs, Nested NoComma n zs → Nested NoComma n ([x] ++ zs) := fun _ hz => .plain hx hc hz
      exact ⟨[x] ++ piece, more, hs.prepend hfront⟩
  | @bracketed _ n b x y inner xs hx hy hi _ _ ih =>
    obtain ⟨piece, more, hs⟩ := ih
    have hpair (zs : List Lexeme) : x :: (inner ++ y :: zs) = (x :: (inner ++ [y])) ++ zs := by simp
    have hfront : ∀ zs, Nested NoComma (n + 1) zs → Nested NoComma (n + 1) ((x :: (inner ++ [y])) ++ zs) := by
      intro zs hz
      rw [← hpair]
      exact .bracketed hx hy hi hz
    rw [hpair]
    exact ⟨(x :: (inner ++ [y])) ++ piece, more, hs.prepend hfront⟩

/-- **Nested runs are those that can be cut.** -/
theorem nested_iff_exists_pieces {depth : Nat} {xs : List Lexeme} :
    Nested (fun _ => True) depth xs ↔ ∃ parts, pieces depth xs = .ok parts := by
  constructor
  · intro h
    cases xs with
    | nil => exact ⟨[], rfl⟩
    | cons x xs =>
      obtain ⟨piece, more, hs⟩ := h.exists_separated
      exact ⟨piece :: more, pieces_eq_ok_iff.2 (.inr ⟨List.cons_ne_nil _ _, hs⟩)⟩
  · rintro ⟨parts, hparts⟩
    rcases pieces_eq_ok_iff.1 hparts with ⟨rfl, -⟩ | ⟨-, hs⟩
    · exact .nil
    · exact hs.nested

/-! ## Defaults -/

/-- A nested run is divided at its first equals sign outside brackets, if it has one. -/
theorem splitDefault_eq {outer : Token → Prop} {depth : Nat} {xs : List Lexeme} (h : Nested outer depth xs) :
    (Nested NoEqual depth xs ∧ splitDefault 0 xs = (xs, none)) ∨
      ∃ front equal back, xs = front ++ equal :: back ∧ equal.token = .equal ∧ Nested NoEqual depth front ∧
        splitDefault 0 xs = (front, some back) := by
  induction h with
  | nil => exact .inl ⟨.nil, rfl⟩
  | @plain _ _ x xs hx _ _ ih =>
    by_cases hequal : x.token = .equal
    · exact .inr ⟨[], x, xs, rfl, hequal, .nil, by rw [splitDefault, if_pos ⟨hequal, rfl⟩]⟩
    · rw [splitDefault_plain hx fun h => hequal h.1]
      rcases ih with ⟨hall, hsplit⟩ | ⟨front, equal, back, rfl, he, hf, hsplit⟩
      · exact .inl ⟨.plain hx hequal hall, by rw [hsplit]⟩
      · exact .inr ⟨x :: front, equal, back, rfl, he, .plain hx hequal hf, by rw [hsplit]⟩
  | @bracketed _ _ b x y inner xs hx hy hi _ _ ih =>
    -- what stands inside the brackets is passed over, an equals sign or not
    have hpair : splitDefault 0 (x :: (inner ++ y :: xs)) =
        (x :: (inner ++ y :: (splitDefault 0 xs).1), (splitDefault 0 xs).2) := by
      rw [splitDefault_opening hx, hi.splitDefault_append (.inl (Nat.lt_add_one 0)), splitDefault_closing hy]
    rw [hpair]
    rcases ih with ⟨hall, hsplit⟩ | ⟨front, equal, back, rfl, he, hf, hsplit⟩
    · exact .inl ⟨.bracketed hx hy hi hall, by rw [hsplit]⟩
    · exact .inr ⟨x :: (inner ++ y :: front), equal, back, by simp, he, .bracketed hx hy hi hf, by rw [hsplit]⟩

end Lexeme
end CallSig
