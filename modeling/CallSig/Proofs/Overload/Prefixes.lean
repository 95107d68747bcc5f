import CallSig.Proofs.Descriptor.Places
import CallSig.Proofs.Overload.Groups

/-!
# `CallSig.Proofs.Overload.Prefixes` — two readers of one number

The number before a line is read twice: merging takes digits and a colon off the text, the parser takes two lexemes.
They part where blanks stand around the colon. The parser skips the gaps before it, which merging does not. Merging
trims every blank after it, also those that no lexeme may have before it. On all other lines they agree.

## Contents
- **Numbers.** `IsDigits`, `digits_append_inj`, `splitIndex?_eq_some_iff`.
- **Heads.** `head_of_parse`: a line that is read begins with a name, or with digits, gaps and one colon.
- **Bodies.** `ofText_numbered`, `parse_numbered` (a line and its body), `toOption_scan_blank`.
- **Agreement.** `PrefixAlike`; `SpacedIndex` and `HidesBlank`, the two ways to differ; `not_accepted_of_hidesBlank`.
- **Merged lines.** `prefixAlike_iff`.
-/

namespace CallSig

/-! ## Numbers -/

namespace Overload

open Text Lexeme Grammar Descriptor

/-- Decimal digits, at least one. -/
def IsDigits (cs : List Char) : Prop := cs ≠ [] ∧ ∀ c ∈ cs, c.isDigit = true

theorem takeWhile_digits {digits : List Char} (h : IsDigits digits) {c : Char} (hc : c.isDigit = false)
    (rest : List Char) : (digits ++ c :: rest).takeWhile Char.isDigit = digits := by
  rw [List.takeWhile_append_of_pos h.2, List.takeWhile_cons_of_neg (by rw [hc]; exact Bool.false_ne_true),
    List.append_nil]

theorem dropWhile_digits {digits : List Char} (h : IsDigits digits) {c : Char} (hc : c.isDigit = false)
    (rest : List Char) : (digits ++ c :: rest).dropWhile Char.isDigit = c :: rest := by
  rw [List.dropWhile_append_of_pos h.2, List.dropWhile_cons_of_neg (by rw [hc]; exact Bool.false_ne_true)]

/-- The digits that a text begins with, and what follows them, are determined by the text. -/
theorem digits_append_inj {digits digits' rest rest' : List Char} {c c' : Char} (h : IsDigits digits)
    (h' : IsDigits digits') (hc : c.isDigit = false) (hc' : c'.isDigit = false)
    (heq : digits ++ c :: rest = digits' ++ c' :: rest') : digits = digits' ∧ c :: rest = c' :: rest' := by
  have htake := congrArg (List.takeWhile Char.isDigit) heq
  have hdrop := congrArg (List.dropWhile Char.isDigit) heq
  rw [takeWhile_digits h hc, takeWhile_digits h' hc'] at htake
  rw [dropWhile_digits h hc, dropWhile_digits h' hc'] at hdrop
  exact ⟨htake, hdrop⟩

/-- A line has a number if it begins with the digits of a machine word and a colon. -/
theorem splitIndex?_eq_some_iff {line body : List Char} {n : Nat} :
    splitIndex? line = some (n, body) ↔
      ∃ digits, IsDigits digits ∧ line = digits ++ ':' :: body ∧ decimal digits = n ∧ n < wordBound := by
  constructor
  · intro h
    unfold splitIndex? at h
    dsimp only at h
    split at h
    · next body' hdrop =>
      split at h
      · cases h
      · next hne =>
        obtain ⟨m, hword, he⟩ := Option.map_eq_some_iff.1 h
        cases he
        have hdigits : IsDigits (line.takeWhile Char.isDigit) :=
          ⟨by simpa using hne, fun c hc => List.all_eq_true.1 List.all_takeWhile c hc⟩
        rw [word?_digits hdigits.1 hdigits.2] at hword
        split at hword
        · next hbound =>
          cases hword
          refine ⟨_, hdigits, ?_, rfl, hbound⟩
          rw [← hdrop, List.takeWhile_append_dropWhile]
        · cases hword
    · cases h
  · rintro ⟨digits, hdigits, rfl, rfl, hbound⟩
    unfold splitIndex?
    rw [takeWhile_digits hdigits (by decide), dropWhile_digits hdigits (by decide)]
    show (if digits.isEmpty then none else (word? digits).map fun n => (n, body)) = _
    rw [if_neg (by simpa using hdigits.1), word?_digits hdigits.1 hdigits.2, if_pos hbound]
    rfl

/-! ## Heads -/

theorem not_isDigit_of_isGap {c : Char} (h : isGap c = true) : c.isDigit = false := by
  rcases Word.isGap_cases h with rfl | rfl | rfl | rfl <;> decide

theorem of_ofChar?_colon {c : Char} (h : Token.ofChar? c = some .colon) : c = ':' := by
  unfold Token.ofChar? at h
  split at h
  all_goals try cases h
  · rfl
  · split at h
    · cases h
    · cases h

/-- What is read as a colon is one colon, and no other follows it. -/
theorem of_read?_colon {c : Char} {rest : List Char} {n : Nat} (h : Token.read? c rest = some (.colon, n)) :
    c = ':' ∧ n = 0 ∧ rest.head? ≠ some ':' := by
  unfold Token.read? at h
  split at h
  · cases h
  split at h
  · cases h
  split at h
  · obtain ⟨m, -, hm⟩ := Option.map_eq_some_iff.1 h
    cases hm
  split at h
  · cases h
  next hdouble =>
  split at h
  · cases h
  split at h
  · cases h
  obtain ⟨token, htoken, he⟩ := Option.map_eq_some_iff.1 h
  cases he
  obtain rfl := of_ofChar?_colon htoken
  exact ⟨rfl, rfl, fun hhead => hdouble ⟨rfl, hhead⟩⟩

/-- A line that is read begins with a name, or with digits, gaps and one colon. -/
theorem head_of_parse {depth : Nat} {line : String} {d : Descriptor} (h : parse depth line = .ok d)
    (hhead : ∀ c, line.toList.head? = some c → isBlank c = false) :
    (d.index? = none ∧ ∃ c cs, line.toList = c :: cs ∧ isNameStart c = true) ∨
      ∃ digits gap rest, IsDigits digits ∧ (∀ c ∈ gap, isGap c = true) ∧
        line.toList = digits ++ (gap ++ ':' :: rest) ∧ rest.head? ≠ some ':' ∧
        d.index? = some (decimal digits) ∧ decimal digits < wordBound := by
  obtain ⟨g, hline, hw, rfl⟩ := parse_eq_ok_iff.1 h
  obtain ⟨tail, hspelled, hreads⟩ := reads_scan hline
  -- nothing stands before the first lexeme
  have hgap {x : Lexeme} {xs : List Lexeme} (hxs : g.lexemes = x :: xs) : x.gap = [] := by
    rw [hxs] at hreads
    cases hg : x.gap with
    | nil => rfl
    | cons c gap =>
      have hc : isGap c = true := hreads.1.blank c (by show c ∈ x.gap; rw [hg]; exact List.mem_cons_self)
      have hfirst : line.toList.head? = some c := by
        rw [hspelled, hxs, spelled_cons, hg]
        rfl
      have hblank := Word.isBlank_of_isGap hc
      rw [hhead c hfirst] at hblank
      cases hblank
  have hlexemes := g.lexemes_eq
  cases hindex : g.index? with
  | none =>
    rw [hindex] at hlexemes
    obtain ⟨c, more, htext, hc, -⟩ := scanned_scan hline g.first (by rw [hlexemes]; exact List.mem_cons_self) hw.first
    refine Or.inl ⟨by show g.index?.map _ = none; rw [hindex]; rfl, c, more ++ spelled g.tail ++ tail, ?_, hc⟩
    rw [hspelled, hlexemes]
    show spelled (g.first :: g.tail) ++ tail = _
    rw [spelled_cons, hgap hlexemes, htext]
    simp
  | some found =>
    obtain ⟨x, y⟩ := found
    obtain ⟨hxtoken, hbound, hytoken⟩ := hw.index x y hindex
    rw [hindex] at hlexemes
    rw [hlexemes] at hreads
    obtain ⟨hx, hy, -⟩ := hreads
    obtain ⟨c, cs, htext, -, hread⟩ := hy.read
    rw [show y.word.token = .colon from hytoken] at hread
    obtain ⟨rfl, hlength, hrest⟩ := of_read?_colon hread
    obtain rfl := List.eq_nil_of_length_eq_zero hlength
    refine Or.inr ⟨x.text, y.gap, spelled (g.first :: g.tail) ++ tail, hx.isDigit hxtoken, hy.blank, ?_, ?_, ?_,
      hbound⟩
    · rw [hspelled, hlexemes]
      show spelled (x :: y :: g.first :: g.tail) ++ tail = _
      rw [spelled_cons, spelled_cons, hgap hlexemes, show y.text = [':'] from htext]
      simp
    · rw [← spelled_map_word]
      exact hrest
    · show g.index?.map _ = _
      rw [hindex]
      rfl

/-! ## Bodies -/

/-- Digits and a colon are read as two lexemes, if no other colon follows. -/
theorem ofText_numbered {digits body : List Char} (h : IsDigits digits) (hbody : body.head? ≠ some ':') :
    ∃ x y k, x.token = .integer ∧ x.text = digits ∧ y.token = .colon ∧
      ofText (digits ++ ':' :: body) = (scan k body).map fun xs => x :: y :: xs := by
  have hends : EndsName (':' :: body) := by
    intro c hc
    cases hc
    decide
  obtain ⟨x, hx, hscan⟩ := scan_word (Word.reads_digits h.1 h.2 hends) 0
  obtain ⟨y, hy, hscan'⟩ := scan_word (Word.reads_colon hbody) (x.start + width digits)
  refine ⟨x, y, y.start + width [':'], congrArg Word.token hx, congrArg Word.text hx, congrArg Word.token hy,
    hscan.trans ?_⟩
  refine (congrArg (Except.map (x :: ·)) hscan').trans ?_
  show ((scan (y.start + width [':']) body).map _).map _ = _
  cases scan (y.start + width [':']) body <;> rfl

/-- A line with a number is read as its body is, if the blanks between them are gaps. -/
theorem parse_numbered {depth : Nat} {digits gap : List Char} {line body : String} (h : IsDigits digits)
    (hbound : decimal digits < wordBound) (hgap : ∀ c ∈ gap, isGap c = true)
    (hcolon : (gap ++ body.toList).head? ≠ some ':') (hline : line.toList = digits ++ ':' :: (gap ++ body.toList)) :
    (∀ d, parse depth line = .ok d → ∃ d', parse depth body = .ok d' ∧ d'.index? = none) ∧
      ∀ d', parse depth body = .ok d' → d'.index? = none →
        ∃ d, parse depth line = .ok d ∧ d.index? = some (decimal digits) ∧ d.SameContent d' := by
  obtain ⟨x, y, k, hx, rfl, hy, hscan⟩ := ofText_numbered h hcolon
  -- the lexemes of the line are the two of the number and those of the body, further on
  have htext : (ofText line.toList).toOption = (ofText body.toList).toOption.map fun zs =>
      x :: y :: withGap gap (zs.map (moved (· + (k + width gap)))) := by
    have hmoved := toOption_scan_add (k + width gap) 0 body.toList
    rw [Nat.zero_add] at hmoved
    rw [hline, hscan, toOption_map, toOption_scan_gap hgap, hmoved, Option.map_map, Option.map_map]
    rfl
  constructor
  · intro d hd
    obtain ⟨g, hg, hw⟩ := exists_line hd
    rw [hg] at htext
    obtain ⟨zs, hzs, hlexemes⟩ := Option.map_eq_some_iff.1 htext.symm
    rw [g.lexemes_eq] at hlexemes
    cases hindex : g.index? with
    | none =>
      rw [hindex] at hlexemes
      obtain ⟨rfl, -⟩ := List.cons.inj hlexemes
      rw [hw.first] at hx
      cases hx
    | some found =>
      obtain ⟨x', y'⟩ := found
      rw [hindex] at hlexemes
      obtain ⟨-, hlexemes⟩ := List.cons.inj hlexemes
      obtain ⟨-, hlexemes⟩ := List.cons.inj hlexemes
      cases zs with
      | nil => cases hlexemes
      | cons z zs =>
        obtain ⟨hfirst, htail⟩ := List.cons.inj hlexemes
        have hbody : (g.placed (· - (k + width gap)) none z.gap).lexemes = z :: zs := by
          rw [g.lexemes_placed, ← hfirst, ← htail, List.map_map]
          refine List.cons_eq_cons.2 ⟨by simp [moved], ?_⟩
          exact (List.map_congr_left fun z _ => moved_sub_moved_add (k + width gap) z).trans (List.map_id zs)
        have hread : ofText body.toList = .ok (g.placed (· - (k + width gap)) none z.gap).lexemes := by
          rw [hbody]
          exact eq_ok_of_toOption hzs
        exact ⟨_, parse_lexemes hread (g.wellFormed_placed _ hw isIndex_none), rfl⟩
  · intro d' hd' hnone
    obtain ⟨g, hg, hw, rfl⟩ := parse_eq_ok_iff.1 hd'
    have hindex : g.index? = none := Option.map_eq_none_iff.1 hnone
    have hi : IsIndex (some (x, y)) := by
      rintro _ _ ⟨⟩
      exact ⟨hx, hbound, hy⟩
    have hread : ofText line.toList =
        .ok (g.placed (· + (k + width gap)) (some (x, y)) (gap ++ g.first.gap)).lexemes := by
      refine eq_ok_of_toOption ?_
      rw [htext, hg, g.lexemes_placed, g.lexemes_eq, hindex]
      rfl
    exact ⟨_, parse_lexemes hread (g.wellFormed_placed _ hw hi), rfl, g.sameContent_placed _⟩

theorem exists_gaps {cs : List Char} {c : Char} (hc : c ∈ cs.takeWhile isBlank) (hg : isGap c = false) :
    ∃ front d back, cs = front ++ d :: back ∧ (∀ c ∈ front, isGap c = true) ∧ isGap d = false ∧ isBlank d = true := by
  induction cs with
  | nil => cases hc
  | cons b cs ih =>
    rw [List.takeWhile_cons] at hc
    split at hc
    · next hb =>
      cases hgap : isGap b with
      | false => exact ⟨[], b, cs, rfl, List.forall_mem_nil _, hgap, hb⟩
      | true =>
        rcases List.mem_cons.1 hc with rfl | hc
        · rw [hgap] at hg
          cases hg
        · obtain ⟨front, d, back, rfl, hfront, hd⟩ := ih hc
          exact ⟨b :: front, d, back, rfl, List.forall_mem_cons.2 ⟨hgap, hfront⟩, hd⟩
    · cases hc

/-- No lexeme begins with a blank that is no gap. -/
theorem toOption_scan_blank {front : List Char} {c : Char} (hfront : ∀ c ∈ front, isGap c = true)
    (hg : isGap c = false) (hb : isBlank c = true) (start : Nat) (back : List Char) :
    (scan start (front ++ c :: back)).toOption = none := by
  have hread : Token.read? c back = none := by
    cases hr : Token.read? c back with
    | none => rfl
    | some found =>
      rw [Word.not_isBlank_of_read? hr] at hb
      cases hb
  rw [toOption_scan_gap hfront, scan_eq, List.dropWhile_cons_of_neg (by rw [hg]; exact Bool.false_ne_true)]
  dsimp only
  rw [hread]
  rfl

/-! ## Agreement -/

/-- The line is read. -/
def Accepted (depth : Nat) (line : String) : Prop := ∃ d, parse depth line = .ok d

/-- The line is read, and has no index. -/
def AcceptedPlain (depth : Nat) (line : String) : Prop := ∃ d, parse depth line = .ok d ∧ d.index? = none

/-- The two readers agree on the number before the trimmed line: the parser reads the line if and only if it reads its
body without an index, and then the index is the number, and nothing else differs. -/
structure PrefixAlike (depth : Nat) (raw : String) : Prop where
  accepted : Accepted depth (trimmed raw) ↔ AcceptedPlain depth (bodyOf raw)
  content : ∀ d d', parse depth (trimmed raw) = .ok d → parse depth (bodyOf raw) = .ok d' → d'.index? = none →
    d.index? = numberOf? raw ∧ d.SameContent d'

/-- The line begins with digits, gaps and a colon. -/
def SpacedIndex (line : List Char) : Prop :=
  ∃ digits gap rest, IsDigits digits ∧ gap ≠ [] ∧ (∀ c ∈ gap, isGap c = true) ∧ line = digits ++ (gap ++ ':' :: rest)

/-- Among the blanks between the number of the line and its body is one that is no gap. -/
def HidesBlank (line : List Char) : Prop :=
  ∃ n body c, splitIndex? line = some (n, body) ∧ c ∈ body.takeWhile isBlank ∧ isGap c = false

variable {depth : Nat} {line : String} {d : Descriptor}

theorem eq_nil_of_digits {digits gap rest body : List Char} (h : IsDigits digits) (hgap : ∀ c ∈ gap, isGap c = true)
    {digits' : List Char} (h' : IsDigits digits') (heq : digits' ++ ':' :: body = digits ++ (gap ++ ':' :: rest)) :
    digits' = digits ∧ gap = [] ∧ body = rest := by
  cases gap with
  | nil =>
    obtain ⟨rfl, hrest⟩ := digits_append_inj h' h (by decide) (by decide) heq
    exact ⟨rfl, rfl, (List.cons.inj hrest).2⟩
  | cons c gap =>
    have hc : isGap c = true := hgap c List.mem_cons_self
    obtain ⟨-, hrest⟩ := digits_append_inj h' h (by decide) (not_isDigit_of_isGap hc) heq
    obtain ⟨rfl, -⟩ := List.cons.inj hrest
    cases hc

theorem not_spacedIndex_of_numbered {cs body : List Char} {n : Nat} (hs : splitIndex? cs = some (n, body)) :
    ¬SpacedIndex cs := by
  rintro ⟨digits, gap, rest, hdigits, hne, hgap, rfl⟩
  obtain ⟨digits', hdigits', heq, -⟩ := splitIndex?_eq_some_iff.1 hs
  exact hne (eq_nil_of_digits hdigits hgap hdigits' heq.symm).2.1

theorem not_isNameStart_of_digits {digits rest cs : List Char} {c : Char} (h : IsDigits digits)
    (heq : digits ++ rest = c :: cs) : isNameStart c = false := by
  obtain ⟨d, more, rfl⟩ := List.exists_cons_of_ne_nil h.1
  obtain ⟨rfl, -⟩ := List.cons.inj heq
  exact Word.not_isNameStart_of_isDigit (h.2 d List.mem_cons_self)

/-- A line that merging splits and the parser reads has the same number for both. -/
theorem numbered_of_parse (h : parse depth line = .ok d) (hhead : ∀ c, line.toList.head? = some c → isBlank c = false)
    {n : Nat} {body : List Char} (hs : splitIndex? line.toList = some (n, body)) :
    d.index? = some n ∧ body.head? ≠ some ':' := by
  obtain ⟨digits', hdigits', heq, hn, -⟩ := splitIndex?_eq_some_iff.1 hs
  rcases head_of_parse h hhead with ⟨-, c, cs, hline, hc⟩ | ⟨digits, gap, rest, hdigits, hgap, hline, hrest, hindex, -⟩
  · rw [not_isNameStart_of_digits hdigits' (heq.symm.trans hline)] at hc
    cases hc
  · obtain ⟨rfl, -, rfl⟩ := eq_nil_of_digits hdigits hgap hdigits' (heq.symm.trans hline)
    exact ⟨by rw [hindex, hn], hrest⟩

/-- A line that merging does not split has an index if and only if gaps stand before the colon. -/
theorem index_ne_none_iff (h : parse depth line = .ok d) (hhead : ∀ c, line.toList.head? = some c → isBlank c = false)
    (hs : splitIndex? line.toList = none) : d.index? ≠ none ↔ SpacedIndex line.toList := by
  rcases head_of_parse h hhead with
    ⟨hnone, c, cs, hline, hc⟩ | ⟨digits, gap, rest, hdigits, hgap, hline, -, hindex, hbound⟩
  · refine iff_of_false (not_not_intro hnone) ?_
    rintro ⟨digits, gap, rest, hdigits, -, -, hspaced⟩
    rw [not_isNameStart_of_digits hdigits (hspaced.symm.trans hline)] at hc
    cases hc
  · refine iff_of_true (by rw [hindex]; exact nofun) ⟨digits, gap, rest, hdigits, ?_, hgap, hline⟩
    rintro rfl
    rw [splitIndex?_eq_some_iff.2 ⟨digits, hdigits, hline, rfl, hbound⟩] at hs
    cases hs

variable {raw : String}

theorem toList_trimmed (raw : String) : (trimmed raw).toList = trim raw.toList := String.toList_ofList

theorem head_trimmed (raw : String) : ∀ c, (trimmed raw).toList.head? = some c → isBlank c = false := by
  rw [toList_trimmed]
  exact (tight_trim raw.toList).1

/-- Merging takes a number off every line that the parser reads one from, but for gaps before the colon. -/
theorem prefixAlike_of_plain (hs : splitIndex? (trim raw.toList) = none) :
    PrefixAlike depth raw ↔ ¬(SpacedIndex (trim raw.toList) ∧ Accepted depth (trimmed raw)) := by
  have hbody : bodyOf raw = trimmed raw := bodyOf_of_plain hs
  have hnumber : numberOf? raw = none := by rw [numberOf?, hs]; rfl
  have hindex {d : Descriptor} (hd : parse depth (trimmed raw) = .ok d) :
      d.index? ≠ none ↔ SpacedIndex (trim raw.toList) := by
    rw [← toList_trimmed]
    exact index_ne_none_iff hd (head_trimmed raw) (by rw [toList_trimmed]; exact hs)
  constructor
  · rintro h ⟨hspaced, d, hd⟩
    obtain ⟨d', hd', hnone⟩ := h.accepted.1 ⟨d, hd⟩
    rw [hbody] at hd'
    exact (hindex hd').2 hspaced hnone
  · intro h
    have hnone {d : Descriptor} (hd : parse depth (trimmed raw) = .ok d) : d.index? = none :=
      Decidable.of_not_not fun hne => h ⟨(hindex hd).1 hne, d, hd⟩
    refine ⟨?_, fun d d' hd hd' _ => ?_⟩
    · rw [hbody]
      constructor
      · rintro ⟨d, hd⟩
        exact ⟨d, hd, hnone hd⟩
      · rintro ⟨d, hd, -⟩
        exact ⟨d, hd⟩
    · rw [hbody, hd] at hd'
      cases hd'
      exact ⟨(hnone hd).trans hnumber.symm, .refl d⟩

/-- A line with a number is read if and only if its body is read without an index, if the blanks between them are
gaps. A second colon is read with the first, and no name begins with one, so that neither of the two is read. -/
theorem accepted_numbered {digits gap : List Char} {body : String} (h : IsDigits digits)
    (hbound : decimal digits < wordBound) (hgap : ∀ c ∈ gap, isGap c = true)
    (hbody : ∀ c, body.toList.head? = some c → isBlank c = false)
    (hline : line.toList = digits ++ ':' :: (gap ++ body.toList)) :
    (Accepted depth line ↔ AcceptedPlain depth body) ∧
      ∀ d d', parse depth line = .ok d → parse depth body = .ok d' → d'.index? = none →
        d.index? = some (decimal digits) ∧ d.SameContent d' := by
  by_cases hcolon : (gap ++ body.toList).head? = some ':'
  · have hs : splitIndex? line.toList = some (decimal digits, gap ++ body.toList) :=
      splitIndex?_eq_some_iff.2 ⟨digits, h, hline, rfl, hbound⟩
    have hhead (c : Char) (hc : line.toList.head? = some c) : isBlank c = false := by
      obtain ⟨d, more, rfl⟩ := List.exists_cons_of_ne_nil h.1
      have hd : d.isDigit = true := h.2 d List.mem_cons_self
      rw [hline] at hc
      cases hc
      exact Word.not_isBlank_of_isNamePart (by simp [isNamePart, Char.isAlphanum, hd])
    have hnot (d : Descriptor) : parse depth line ≠ .ok d := fun hd => (numbered_of_parse hd hhead hs).2 hcolon
    have hnot' : ¬AcceptedPlain depth body := by
      rintro ⟨d', hd', hnone⟩
      rcases head_of_parse hd' hbody with ⟨-, c, cs, hcs, hc⟩ | ⟨_, _, _, -, -, -, -, hindex, -⟩
      · cases gap with
        | nil =>
          rw [List.nil_append, hcs] at hcolon
          cases hcolon
          cases hc
        | cons e gap =>
          cases hcolon
          cases hgap ':' List.mem_cons_self
      · rw [hindex] at hnone
        cases hnone
    exact ⟨iff_of_false (not_exists.2 hnot) hnot', fun d _ hd => absurd hd (hnot d)⟩
  · obtain ⟨hback, hforth⟩ := parse_numbered h hbound hgap hcolon hline
    refine ⟨⟨?_, ?_⟩, fun d d' hd hd' hnone => ?_⟩
    · rintro ⟨d, hd⟩
      exact hback d hd
    · rintro ⟨d', hd', hnone⟩
      obtain ⟨d, hd, -⟩ := hforth d' hd' hnone
      exact ⟨d, hd⟩
    · obtain ⟨d₁, hd₁, hread⟩ := hforth d' hd' hnone
      rw [hd] at hd₁
      cases hd₁
      exact hread

/-- The body of a tight line stands behind blanks only. -/
theorem body_eq_append {cs body : List Char} {n : Nat} (ht : Tight cs) (hs : splitIndex? cs = some (n, body)) :
    body = body.takeWhile isBlank ++ trim body := by
  obtain ⟨digits, -, rfl, -⟩ := splitIndex?_eq_some_iff.1 hs
  have hend : trimEnd (trimStart body) = trimStart body := by
    refine trimEnd_eq_self fun c hc => ht.2 c ?_
    have hsuffix : trimStart body <:+ digits ++ ':' :: body :=
      (List.dropWhile_suffix isBlank).trans ((List.suffix_cons ':' body).trans (List.suffix_append digits _))
    obtain ⟨front, hfront⟩ := hsuffix
    rw [← hfront, List.getLast?_append, hc]
    rfl
  unfold trim
  rw [hend]
  exact List.takeWhile_append_dropWhile.symm

theorem prefixAlike_of_numbered {n : Nat} {body : List Char} (hs : splitIndex? (trim raw.toList) = some (n, body))
    (hgaps : ¬HidesBlank (trim raw.toList)) : PrefixAlike depth raw := by
  obtain ⟨digits, hdigits, hline, rfl, hbound⟩ := splitIndex?_eq_some_iff.1 hs
  have hbody : (bodyOf raw).toList = trim body := by rw [bodyOf_of_numbered hs, String.toList_ofList]
  have hnumber : numberOf? raw = some (decimal digits) := by rw [numberOf?, hs]; rfl
  have hgap (c : Char) (hc : c ∈ body.takeWhile isBlank) : isGap c = true := by
    cases hg : isGap c with
    | true => rfl
    | false => exact absurd ⟨_, body, c, hs, hc, hg⟩ hgaps
  have hhead : ∀ c, (bodyOf raw).toList.head? = some c → isBlank c = false := by
    rw [hbody]
    exact (tight_trim body).1
  have htext : (trimmed raw).toList = digits ++ ':' :: (body.takeWhile isBlank ++ (bodyOf raw).toList) := by
    rw [toList_trimmed, hline, hbody, ← body_eq_append (tight_trim raw.toList) hs]
  refine ⟨(accepted_numbered hdigits hbound hgap hhead htext).1, ?_⟩
  rw [hnumber]
  exact (accepted_numbered hdigits hbound hgap hhead htext).2

/-- Behind a blank that is no gap nothing is read. -/
theorem not_accepted_of_hidesBlank (h : HidesBlank line.toList) : ¬Accepted depth line := by
  rintro ⟨d, hd⟩
  obtain ⟨n, body, c, hs, hc, hg⟩ := h
  obtain ⟨digits, hdigits, hline, -⟩ := splitIndex?_eq_some_iff.1 hs
  obtain ⟨front, e, back, rfl, hfront, he, hb⟩ := exists_gaps hc hg
  have hhead : (front ++ e :: back).head? ≠ some ':' := by
    intro hcolon
    cases front with
    | nil =>
      cases hcolon
      cases hb
    | cons f front =>
      cases hcolon
      cases hfront ':' List.mem_cons_self
  obtain ⟨x, y, k, -, -, -, hscan⟩ := ofText_numbered hdigits hhead
  obtain ⟨g, hread, -⟩ := exists_line hd
  rw [hline, hscan] at hread
  obtain ⟨xs, hxs, -⟩ := eq_ok_of_map_eq_ok hread
  have hnone := toOption_scan_blank hfront he hb k back
  rw [hxs] at hnone
  cases hnone

/-! ## Merged lines -/

/-- A merged line is read if its raw line is. Beyond that only a body with an index of its own is, where it stands
alone. -/
theorem accepted_merged {lines : List String} {m : Merged} (hl : lines.length ≤ wordBound) (hm : m ∈ merge lines)
    (hraw : lines[m.origin]? = some raw) (h : PrefixAlike depth raw) :
    Accepted depth m.text ↔ Accepted depth (trimmed raw) ∨
      m.text = bodyOf raw ∧ ∃ d, parse depth (bodyOf raw) = .ok d ∧ d.index? ≠ none := by
  obtain ⟨raw', hraw', htext⟩ := hasOrigin_of_mem_merge hm
  rw [hraw] at hraw'
  cases hraw'
  rw [h.accepted]
  rcases htext with htext | ⟨i, hi, htext⟩
  · rw [htext]
    constructor
    · rintro ⟨d, hd⟩
      by_cases hnone : d.index? = none
      · exact Or.inl ⟨d, hd, hnone⟩
      · exact Or.inr ⟨rfl, d, hd, hnone⟩
    · rintro (⟨d, hd, -⟩ | ⟨-, d, hd, -⟩)
      · exact ⟨d, hd⟩
      · exact ⟨d, hd⟩
  · have hline : m.text.toList = Nat.toDigits 10 i ++ ':' :: ([] ++ (bodyOf raw).toList) := by
      rw [htext]
      simp [toString, Nat.toList_repr]
    have hdigits : IsDigits (Nat.toDigits 10 i) :=
      ⟨Nat.toDigits_ne_nil, fun c hc => Nat.isDigit_of_mem_toDigits (by decide) (by decide) hc⟩
    have hbound : decimal (Nat.toDigits 10 i) < wordBound := by
      rw [decimal_toDigits]
      exact Nat.lt_of_lt_of_le hi hl
    have hlonger : m.text ≠ bodyOf raw := by
      intro heq
      have hlength := congrArg List.length hline
      simp only [heq, List.length_append, List.length_cons, List.nil_append] at hlength
      omega
    have hhead : ∀ c, (bodyOf raw).toList.head? = some c → isBlank c = false := by
      unfold bodyOf
      rw [String.toList_ofList]
      exact (tight_trim _).1
    rw [(accepted_numbered hdigits hbound (List.forall_mem_nil _) hhead hline).1]
    exact ⟨Or.inl, fun h => h.resolve_right fun h => hlonger h.1⟩

/-- **Two readers of one number.** They agree on every line but for two kinds: one with gaps before the colon that is
read, and one whose body is read but stands behind a blank that is no gap. Where they agree on the raw line, the merged
line is read if and only if the raw one is, or it is a lone body with an index of its own. -/
theorem prefixAlike_iff (depth : Nat) :
    (∀ raw, PrefixAlike depth raw ↔
      ¬(SpacedIndex (trim raw.toList) ∧ Accepted depth (trimmed raw)) ∧
        ¬(HidesBlank (trim raw.toList) ∧ AcceptedPlain depth (bodyOf raw))) ∧
      ∀ lines m raw, lines.length ≤ wordBound → m ∈ merge lines → lines[m.origin]? = some raw →
        PrefixAlike depth raw →
        (Accepted depth m.text ↔ Accepted depth (trimmed raw) ∨
          m.text = bodyOf raw ∧ ∃ d, parse depth (bodyOf raw) = .ok d ∧ d.index? ≠ none) := by
  refine ⟨fun raw => ?_, fun lines m raw => accepted_merged⟩
  cases hs : splitIndex? (trim raw.toList) with
  | none =>
    have hhides : ¬HidesBlank (trim raw.toList) := by
      rintro ⟨n, body, c, hsome, -⟩
      rw [hs] at hsome
      cases hsome
    rw [prefixAlike_of_plain hs]
    exact ⟨fun h => ⟨h, fun hboth => hhides hboth.1⟩, And.left⟩
  | some found =>
    have hspaced := not_spacedIndex_of_numbered hs
    by_cases hhides : HidesBlank (trim raw.toList)
    · have hnot : ¬Accepted depth (trimmed raw) := not_accepted_of_hidesBlank (by rw [toList_trimmed]; exact hhides)
      constructor
      · intro h
        exact ⟨fun hboth => hspaced hboth.1, fun hboth => hnot (h.accepted.2 hboth.2)⟩
      · rintro ⟨-, hbody⟩
        refine ⟨iff_of_false hnot fun h => hbody ⟨hhides, h⟩, fun d _ hd => absurd ⟨d, hd⟩ hnot⟩
    · exact iff_of_true (prefixAlike_of_numbered hs hhides)
        ⟨fun hboth => hspaced hboth.1, fun hboth => hhides hboth.1⟩

theorem prefixAlike_iff_renumbered :
    PrefixAlike 3 "1: g()" ∧ ⟨"1:g()", 1⟩ ∈ merge ["2:f()", "1: g()", "0:g()"] ∧
      (Accepted 3 "1:g()" ↔ Accepted 3 (trimmed "1: g()") ∨
        "1:g()" = bodyOf "1: g()" ∧ ∃ d, parse 3 (bodyOf "1: g()") = .ok d ∧ d.index? ≠ none) := by
  have hs : splitIndex? (trim "1: g()".toList) = some (1, " g()".toList) := by decide +kernel
  have hblanks : " g()".toList.takeWhile isBlank = [' '] := by decide +kernel
  have hhides : ¬HidesBlank (trim "1: g()".toList) := by
    rintro ⟨n, body, c, hsome, hc, hg⟩
    rw [hs] at hsome
    cases hsome
    rw [hblanks, List.mem_singleton] at hc
    subst hc
    cases hg
  have halike : PrefixAlike 3 "1: g()" := ((prefixAlike_iff 3).1 "1: g()").2
    ⟨fun h => not_spacedIndex_of_numbered hs h.1, fun h => hhides h.1⟩
  have hm : ⟨"1:g()", 1⟩ ∈ merge ["2:f()", "1: g()", "0:g()"] := by decide +kernel
  exact ⟨halike, hm, (prefixAlike_iff 3).2 _ _ _ (by decide) hm rfl halike⟩

/-- **The readers part** at the gap of `3 :f()`, which merging takes for a line without a number, at the no-break space
of `3:<nbsp>f()`, which it trims, and at the lone body `3:f()`, which it leaves with an index. -/
theorem prefixes_apart :
    ¬PrefixAlike 3 "3 :f()" ∧ ¬PrefixAlike 3 "3:\u00a0f()" ∧
      (merge ["0:3:f()"] = [⟨"3:f()", 0⟩] ∧ ¬Accepted 3 "0:3:f()" ∧ Accepted 3 "3:f()") := by
  have hread (line : String) (index? : Option Nat)
      (h : (parse 3 line).toOption.map Descriptor.index? = some index?) :
      ∃ d, parse 3 line = .ok d ∧ d.index? = index? := by
    obtain ⟨d, hd, hindex⟩ := Option.map_eq_some_iff.1 h
    exact ⟨d, eq_ok_of_toOption hd, hindex⟩
  have hrejected {line : String} (h : (parse 3 line).toOption.isNone = true) : ¬Accepted 3 line := by
    rintro ⟨d, hd⟩
    rw [hd] at h
    cases h
  refine ⟨fun h => ?_, fun h => ?_, by decide +kernel, hrejected (by decide +kernel), ?_⟩
  · have htrimmed : trimmed "3 :f()" = "3 :f()" := by decide +kernel
    have hbody : bodyOf "3 :f()" = "3 :f()" := by decide +kernel
    obtain ⟨d, hd, hindex⟩ := hread "3 :f()" (some 3) (by decide +kernel)
    obtain ⟨d', hd', hnone⟩ := h.accepted.1 ⟨d, by rw [htrimmed]; exact hd⟩
    rw [hbody, hd] at hd'
    cases hd'
    rw [hindex] at hnone
    cases hnone
  · have htrimmed : trimmed "3:\u00a0f()" = "3:\u00a0f()" := by decide +kernel
    have hbody : bodyOf "3:\u00a0f()" = "f()" := by decide +kernel
    obtain ⟨d, hd, hnone⟩ := hread "f()" none (by decide +kernel)
    have haccepted := h.accepted.2 ⟨d, by rw [hbody]; exact hd, hnone⟩
    rw [htrimmed] at haccepted
    exact hrejected (by decide +kernel) haccepted
  · obtain ⟨d, hd, -⟩ := hread "3:f()" (some 3) (by decide +kernel)
    exact ⟨d, hd⟩

end Overload
end CallSig
