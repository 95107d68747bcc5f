import CallSig.Expression
import CallSig.Proofs.Text.Trim
import Mathlib.Data.List.Forall2

/-!
# `CallSig.Proofs.Expression.Integers` — which texts are integers

An integer literal has an optional minus, decimal digits or hexadecimal ones after `0x`, and suffix letters. Two things
keep the reading from being that and no more. The digits are read as a signed word before the minus is looked at, so the
literals of the least signed word, whose magnitude is no signed word, are not read. And what stands after `0x` is read by
a routine that takes a sign of its own.

## Contents
- **Digits.** `IsDigit`, `number`, `Digits`, `natural?_eq_some_iff`, `digits_toDigits`.
- **Words.** `signedOfInt?_eq_some_iff`, `SignedDigits`, `signedWord?_eq_some_iff`.
- **Magnitudes.** `Numeral`, `SignedHex`, `magnitude?_eq_some_iff`.
- **Literals.** `Affixed`, `IsLiteral`, `HasInnerSign`, `exists_magnitude`, `integer?_eq_some_iff`.
- **Spelled words.** `isLiteral_text`, `integers_read`.
-/

namespace CallSig

namespace Text

/-! ## Digits -/

/-- The character is the digit with this value, of either case where it is a letter. -/
def IsDigit (radix : Nat) (c : Char) (d : Nat) : Prop :=
  d < radix ∧ (c = Nat.digitChar d ∨ c = (Nat.digitChar d).toUpper)

/-- The number with these digits, the highest first. -/
def number (radix : Nat) (ds : List Nat) : Nat := ds.foldl (fun n d => n * radix + d) 0

/-- One or more digits that write the number. -/
def Digits (radix : Nat) (cs : List Char) (n : Nat) : Prop :=
  ∃ ds, ds ≠ [] ∧ List.Forall₂ (IsDigit radix) cs ds ∧ n = number radix ds

variable {radix : Nat} {c : Char} {cs : List Char}

instance {d : Nat} : Decidable (IsDigit radix c d) := inferInstanceAs (Decidable (_ ∧ _))

/-- Only an ASCII character is a digit. -/
theorem toNat_lt_of_digitValue? {d : Nat} (h : digitValue? radix c = some d) : c.toNat < 128 := by
  by_contra hle
  have hhigh {last : Char} (hlast : last.val.toNat < 128) : ¬c.val.toNat ≤ last.val.toNat :=
    Nat.not_le_of_lt (Nat.lt_of_lt_of_le hlast (Nat.le_of_not_lt hle))
  have hdigit : c.isDigit = false := by
    unfold Char.isDigit
    simp only [ge_iff_le, UInt32.le_iff_toNat_le, Bool.and_eq_false_iff, decide_eq_false_iff_not]
    exact .inr (hhigh (by decide))
  have hlower : c.isLower = false := by
    unfold Char.isLower
    simp only [ge_iff_le, UInt32.le_iff_toNat_le, Bool.and_eq_false_iff, decide_eq_false_iff_not]
    exact .inr (hhigh (by decide))
  have hupper : c.isUpper = false := by
    unfold Char.isUpper
    simp only [ge_iff_le, UInt32.le_iff_toNat_le, decide_eq_false_iff_not]
    exact fun hbounds => absurd hbounds.2 (hhigh (by decide))
  simp [digitValue?, hdigit, hlower, hupper] at h

/-- What is read as a digit is the digit with this value: among the ASCII characters this is a matter of trying. -/
theorem digitValue?_eq_some_iff (hr : radix = 10 ∨ radix = 16) {d : Nat} :
    digitValue? radix c = some d ↔ IsDigit radix c d := by
  have hread : ∀ k < 128, (digitValue? 10 (Char.ofNat k)).all (fun d => IsDigit 10 (Char.ofNat k) d) ∧
      (digitValue? 16 (Char.ofNat k)).all (fun d => IsDigit 16 (Char.ofNat k) d) := by decide +kernel
  have hwritten : ∀ d < 16, digitValue? 16 (Nat.digitChar d) = some d ∧
      digitValue? 16 (Nat.digitChar d).toUpper = some d := by decide
  have hdecimal : ∀ d < 10, digitValue? 10 (Nat.digitChar d) = some d ∧
      digitValue? 10 (Nat.digitChar d).toUpper = some d := by decide
  constructor
  · intro h
    have hall := hread c.toNat (toNat_lt_of_digitValue? h)
    rw [Char.ofNat_toNat] at hall
    rcases hr with rfl | rfl
    · rw [h] at hall
      exact of_decide_eq_true hall.1
    · rw [h] at hall
      exact of_decide_eq_true hall.2
  · rintro ⟨hd, hc⟩
    rcases hr with rfl | rfl
    · rcases hc with rfl | rfl
      · exact (hdecimal d hd).1
      · exact (hdecimal d hd).2
    · rcases hc with rfl | rfl
      · exact (hwritten d hd).1
      · exact (hwritten d hd).2

theorem naturalFrom?_eq_some_iff (hr : radix = 10 ∨ radix = 16) {m : Nat} : ∀ {n : Nat},
    naturalFrom? radix n cs = some m ↔
      ∃ ds, List.Forall₂ (IsDigit radix) cs ds ∧ m = ds.foldl (fun n d => n * radix + d) n := by
  induction cs with
  | nil =>
    intro n
    rw [naturalFrom?]
    constructor
    · rintro ⟨⟩
      exact ⟨[], .nil, rfl⟩
    · rintro ⟨ds, hds, rfl⟩
      cases hds
      rfl
  | cons c cs ih =>
    intro n
    rw [naturalFrom?, Option.bind_eq_some_iff]
    constructor
    · rintro ⟨d, hd, hrest⟩
      obtain ⟨ds, hds, rfl⟩ := ih.1 hrest
      exact ⟨d :: ds, .cons ((digitValue?_eq_some_iff hr).1 hd) hds, rfl⟩
    · rintro ⟨ds, hds, rfl⟩
      cases hds with
      | @cons _ d _ ds hd hds => exact ⟨d, (digitValue?_eq_some_iff hr).2 hd, ih.2 ⟨ds, hds, rfl⟩⟩

theorem natural?_eq_some_iff (hr : radix = 10 ∨ radix = 16) {n : Nat} :
    natural? radix cs = some n ↔ Digits radix cs n := by
  unfold natural?
  constructor
  · intro h
    split at h
    · cases h
    · next hne =>
      obtain ⟨ds, hds, hn⟩ := (naturalFrom?_eq_some_iff hr).1 h
      refine ⟨ds, ?_, hds, hn⟩
      rintro rfl
      cases hds
      exact hne rfl
  · rintro ⟨ds, hne, hds, hn⟩
    rw [if_neg]
    · exact (naturalFrom?_eq_some_iff hr).2 ⟨ds, hds, hn⟩
    · intro hnil
      rw [List.isEmpty_iff.1 hnil] at hds
      cases hds
      exact hne rfl

theorem Digits.ne_nil {n : Nat} (h : Digits radix cs n) : cs ≠ [] := by
  obtain ⟨ds, hne, hds, -⟩ := h
  rintro rfl
  cases hds
  exact hne rfl

/-- Every digit is one of the digits. -/
theorem Digits.exists_isDigit {n : Nat} (h : Digits radix cs n) (hc : c ∈ cs) : ∃ d, IsDigit radix c d := by
  obtain ⟨ds, -, hds, -⟩ := h
  induction hds with
  | nil => cases hc
  | cons hd _ ih =>
    rcases List.mem_cons.1 hc with rfl | hc
    · exact ⟨_, hd⟩
    · exact ih hc

/-- One more digit at the end. -/
theorem Digits.concat {n d : Nat} (h : Digits radix cs n) (hc : IsDigit radix c d) :
    Digits radix (cs ++ [c]) (n * radix + d) := by
  obtain ⟨ds, -, hds, rfl⟩ := h
  refine ⟨ds ++ [d], by simp, ?_, ?_⟩
  · exact List.rel_append hds (.cons hc .nil)
  · simp [number]

/-- The decimal digits of a number write it. -/
theorem digits_toDigits (n : Nat) : Digits 10 (Nat.toDigits 10 n) n := by
  induction n using Nat.strongRecOn with
  | ind n ih =>
    rw [Nat.toDigits_eq_if (by decide)]
    split
    · next hlt => exact ⟨[n], by simp, .cons ⟨hlt, .inl rfl⟩ .nil, by simp [number]⟩
    · next hle =>
      have hlast : IsDigit 10 (n % 10).digitChar (n % 10) := ⟨Nat.mod_lt _ (by decide), .inl rfl⟩
      have hmore := (ih (n / 10) (by omega)).concat hlast
      rwa [Nat.div_add_mod' n 10] at hmore

/-! ## Words -/

theorem signedOfInt?_eq_some_iff {k : Int} {w : Int64} : signedOfInt? k = some w ↔ w.toInt = k := by
  have hbound : (signedBound : Int) = 2 ^ 63 := rfl
  unfold signedOfInt?
  rw [hbound]
  split
  · next hk =>
    rw [Option.some.injEq]
    constructor
    · rintro rfl
      exact Int64.toInt_ofInt_of_le hk.1 hk.2
    · rintro rfl
      exact Int64.ofInt_toInt w
  · next hk =>
    constructor
    · intro h
      cases h
    · rintro rfl
      exact absurd ⟨Int64.le_toInt w, Int64.toInt_lt w⟩ hk

/-- Digits after at most one sign, and the number they write. -/
inductive SignedDigits (radix : Nat) : List Char → Int → Prop
  | bare {cs : List Char} {n : Nat} (h : Digits radix cs n) : SignedDigits radix cs n
  | plus {cs : List Char} {n : Nat} (h : Digits radix cs n) : SignedDigits radix ('+' :: cs) n
  | minus {cs : List Char} {n : Nat} (h : Digits radix cs n) : SignedDigits radix ('-' :: cs) (-n)

/-- No sign is a digit. -/
theorem Digits.ne_sign (hr : radix = 10 ∨ radix = 16) {n : Nat} (h : Digits radix cs n) (hc : c ∈ cs) :
    c ≠ '+' ∧ c ≠ '-' := by
  obtain ⟨d, hd⟩ := h.exists_isDigit hc
  rw [← digitValue?_eq_some_iff hr] at hd
  constructor
  · rintro rfl
    rcases hr with rfl | rfl <;> cases hd
  · rintro rfl
    rcases hr with rfl | rfl <;> cases hd

theorem signedWord?_eq_some_iff (hr : radix = 10 ∨ radix = 16) {w : Int64} :
    signedWord? radix cs = some w ↔ SignedDigits radix cs w.toInt := by
  have hword {digits : List Char} {f : Nat → Int} :
      ((natural? radix digits).bind fun n => signedOfInt? (f n)) = some w ↔
        ∃ n, Digits radix digits n ∧ w.toInt = f n := by
    simp only [Option.bind_eq_some_iff, natural?_eq_some_iff hr, signedOfInt?_eq_some_iff]
  unfold signedWord?
  constructor
  · intro h
    split at h
    · obtain ⟨n, hn, hw⟩ := hword.1 h
      exact hw ▸ .minus hn
    · obtain ⟨n, hn, hw⟩ := hword.1 h
      exact hw ▸ .plus hn
    · obtain ⟨n, hn, hw⟩ := hword.1 h
      exact hw ▸ .bare hn
  · intro h
    generalize hk : w.toInt = k at h
    cases h with
    | bare hn =>
      split
      · exact absurd rfl (hn.ne_sign hr List.mem_cons_self).2
      · exact absurd rfl (hn.ne_sign hr List.mem_cons_self).1
      · exact hword.2 ⟨_, hn, hk⟩
    | plus hn => exact hword.2 ⟨_, hn, hk⟩
    | minus hn => exact hword.2 ⟨_, hn, hk⟩

end Text

namespace Expression

open Text

/-! ## Magnitudes -/

/-- A number without a sign: decimal digits, or hexadecimal ones after `0x`. -/
inductive Numeral : List Char → Nat → Prop
  | decimal {cs : List Char} {n : Nat} (h : Digits 10 cs n) : Numeral cs n
  | hex {x : Char} {cs : List Char} {n : Nat} (hx : x = 'x' ∨ x = 'X') (h : Digits 16 cs n) :
      Numeral ('0' :: x :: cs) n

/-- Hexadecimal digits with a sign between them and the `0x`. -/
inductive SignedHex : List Char → Int → Prop
  | plus {x : Char} {cs : List Char} {n : Nat} (hx : x = 'x' ∨ x = 'X') (h : Digits 16 cs n) :
      SignedHex ('0' :: x :: '+' :: cs) n
  | minus {x : Char} {cs : List Char} {n : Nat} (hx : x = 'x' ∨ x = 'X') (h : Digits 16 cs n) :
      SignedHex ('0' :: x :: '-' :: cs) (-n)

variable {cs front : List Char}

theorem isDigit_of_digits {n : Nat} (h : Digits 10 cs n) : cs.all Char.isDigit = true := by
  have hdigits : ∀ d < 10, (Nat.digitChar d).isDigit = true ∧ (Nat.digitChar d).toUpper.isDigit = true := by decide
  rw [List.all_eq_true]
  intro c hc
  obtain ⟨d, hd, rfl | rfl⟩ := h.exists_isDigit hc
  · exact (hdigits d hd).1
  · exact (hdigits d hd).2

theorem magnitude?_hex {x : Char} (hx : x = 'x' ∨ x = 'X') (cs : List Char) :
    magnitude? ('0' :: x :: cs) = signedWord? 16 cs := by
  rcases hx with rfl | rfl <;> rfl

theorem magnitude?_decimal (h : cs.all Char.isDigit = true) : magnitude? cs = signedWord? 10 cs := by
  unfold magnitude?
  split
  · simp at h
  · simp at h
  · rw [if_pos h]

/-- **What is read as a magnitude**: a number without a sign, or one with a sign after the `0x`, if it is a signed
word. -/
theorem magnitude?_eq_some_iff {w : Int64} :
    magnitude? cs = some w ↔ (∃ n : Nat, Numeral cs n ∧ w.toInt = n) ∨ SignedHex cs w.toInt := by
  constructor
  · intro h
    have hhex {x : Char} {digits : List Char} (hx : x = 'x' ∨ x = 'X') (hword : signedWord? 16 digits = some w) :
        (∃ n : Nat, Numeral ('0' :: x :: digits) n ∧ w.toInt = n) ∨ SignedHex ('0' :: x :: digits) w.toInt := by
      have hdigits := (signedWord?_eq_some_iff (.inr rfl)).1 hword
      generalize w.toInt = k at hdigits ⊢
      cases hdigits with
      | bare hn => exact .inl ⟨_, .hex hx hn, rfl⟩
      | plus hn => exact .inr (.plus hx hn)
      | minus hn => exact .inr (.minus hx hn)
    unfold magnitude? at h
    split at h
    · exact hhex (.inl rfl) h
    · exact hhex (.inr rfl) h
    · split at h
      · next hall =>
        -- decimal digits leave no place for a sign
        have hdigits := (signedWord?_eq_some_iff (.inl rfl)).1 h
        generalize w.toInt = k at hdigits ⊢
        cases hdigits with
        | bare hn => exact .inl ⟨_, .decimal hn, rfl⟩
        | plus => simp at hall
        | minus => simp at hall
      · cases h
  · rintro (⟨n, hn, hw⟩ | h)
    · cases hn with
      | decimal hn =>
        rw [magnitude?_decimal (isDigit_of_digits hn)]
        exact (signedWord?_eq_some_iff (.inl rfl)).2 (hw ▸ .bare hn)
      | hex hx hn =>
        rw [magnitude?_hex hx]
        exact (signedWord?_eq_some_iff (.inr rfl)).2 (hw ▸ .bare hn)
    · generalize hk : w.toInt = k at h
      cases h with
      | plus hx hn =>
        rw [magnitude?_hex hx]
        exact (signedWord?_eq_some_iff (.inr rfl)).2 (hk ▸ .plus hn)
      | minus hx hn =>
        rw [magnitude?_hex hx]
        exact (signedWord?_eq_some_iff (.inr rfl)).2 (hk ▸ .minus hn)

theorem mem_suffix_iff {c : Char} : c ∈ ['u', 'U', 'l', 'L'] ↔ isIntegerSuffix c = true := by
  simp [isIntegerSuffix, or_assoc]

/-- No digit, no `x` and no sign is a suffix letter. -/
theorem not_suffix_of_magnitude? {m : Int64} (h : magnitude? front = some m) :
    ∀ c ∈ front, isIntegerSuffix c = false := by
  have hdigits {radix n : Nat} {digits : List Char} (hr : radix = 10 ∨ radix = 16) (hn : Digits radix digits n) :
      ∀ c ∈ digits, isIntegerSuffix c = false := by
    have hnone : ['u', 'U', 'l', 'L'].all (fun c => digitValue? 10 c = none ∧ digitValue? 16 c = none) = true := by
      decide
    intro c hc
    obtain ⟨d, hd⟩ := hn.exists_isDigit hc
    rw [← digitValue?_eq_some_iff hr] at hd
    by_contra hsuffix
    have hmem : c ∈ ['u', 'U', 'l', 'L'] := mem_suffix_iff.2 (by simpa using hsuffix)
    obtain ⟨hten, hsixteen⟩ := of_decide_eq_true (List.all_eq_true.1 hnone c hmem)
    rcases hr with rfl | rfl
    · rw [hten] at hd
      cases hd
    · rw [hsixteen] at hd
      cases hd
  have hx {x : Char} (hx : x = 'x' ∨ x = 'X') : isIntegerSuffix x = false := by rcases hx with rfl | rfl <;> rfl
  rcases magnitude?_eq_some_iff.1 h with ⟨n, hn, -⟩ | hn
  · cases hn with
    | decimal hn => exact hdigits (.inl rfl) hn
    | hex hmark hn => exact List.forall_mem_cons.2 ⟨rfl, List.forall_mem_cons.2 ⟨hx hmark, hdigits (.inr rfl) hn⟩⟩
  · generalize m.toInt = k at hn
    cases hn with
    | plus hmark hn | minus hmark hn =>
      refine List.forall_mem_cons.2 ⟨rfl, List.forall_mem_cons.2 ⟨hx hmark, List.forall_mem_cons.2 ⟨rfl, ?_⟩⟩⟩
      exact hdigits (.inr rfl) hn

/-- A magnitude has a first character, and this is no minus. -/
theorem head_of_magnitude? {m : Int64} (h : magnitude? front = some m) : ∃ c cs, front = c :: cs ∧ c ≠ '-' := by
  rcases magnitude?_eq_some_iff.1 h with ⟨n, hn, -⟩ | hn
  · cases hn with
    | decimal hn =>
      obtain ⟨c, cs, rfl⟩ := List.exists_cons_of_ne_nil hn.ne_nil
      exact ⟨c, cs, rfl, (hn.ne_sign (.inl rfl) List.mem_cons_self).2⟩
    | hex _ hn => exact ⟨_, _, rfl, by decide⟩
  · generalize m.toInt = k at hn
    cases hn with
    | plus _ hn | minus _ hn => exact ⟨_, _, rfl, by decide⟩

/-! ## Literals -/

/-- The minus of a negative literal. -/
def minus (negative : Bool) : List Char := if negative then ['-'] else []

/-- The text is this one after its minus, if it is negative, and before any suffix letters. -/
def Affixed (cs : List Char) (negative : Bool) (front : List Char) : Prop :=
  ∃ suffix : List Char, cs = minus negative ++ (front ++ suffix) ∧ ∀ c ∈ suffix, c ∈ ['u', 'U', 'l', 'L']

/-- The text is an integer literal with this value, whatever its size. -/
def IsLiteral (cs : List Char) (k : Int) : Prop :=
  ∃ negative front n, Affixed cs negative front ∧ Numeral front n ∧ k = if negative then -(n : Int) else n

/-- The text has a sign between the `0x` and the digits, and what stands there is negated once more after a minus, as
signed words are. -/
def HasInnerSign (cs : List Char) (w : Int64) : Prop :=
  ∃ negative front, ∃ m : Int64, Affixed cs negative front ∧ SignedHex front m.toInt ∧ w = if negative then -m else m

/-- Suffix letters are taken off the end up to the first character that is none. -/
theorem dropWhile_suffix {suffix : List Char} (hsuffix : ∀ c ∈ suffix, isIntegerSuffix c = true)
    (hlast : ∀ c, front.getLast? = some c → isIntegerSuffix c = false) :
    ((front ++ suffix).reverse.dropWhile isIntegerSuffix).reverse = front := by
  rw [List.reverse_append, List.dropWhile_append_of_pos (by simpa using hsuffix)]
  rw [← List.head?_reverse] at hlast
  cases hfront : front.reverse with
  | nil => rw [List.reverse_eq_nil_iff.1 hfront]; rfl
  | cons c cs =>
    rw [hfront] at hlast
    rw [List.dropWhile_cons_of_neg (by simp [hlast c rfl]), ← hfront, List.reverse_reverse]

/-- **What is read as an integer**: a magnitude after its minus and before any suffix letters. -/
theorem exists_magnitude {w : Int64} :
    integer? cs = some w ↔ ∃ negative front m, Affixed cs negative front ∧ magnitude? front = some m ∧
      w = if negative then -m else m := by
  constructor
  · intro h
    let body := (cs.reverse.dropWhile isIntegerSuffix).reverse
    let suffix := (cs.reverse.takeWhile isIntegerSuffix).reverse
    have hcs : cs = body ++ suffix := by
      rw [← List.reverse_append, List.takeWhile_append_dropWhile, List.reverse_reverse]
    have hsuffix : ∀ c ∈ suffix, c ∈ ['u', 'U', 'l', 'L'] := by
      intro c hc
      exact mem_suffix_iff.2 (List.all_eq_true.1 List.all_takeWhile c (List.mem_reverse.1 hc))
    unfold integer? at h
    dsimp only at h
    split at h
    · next rest hbody =>
      obtain ⟨m, hm, rfl⟩ := Option.map_eq_some_iff.1 h
      refine ⟨true, rest, m, ⟨suffix, ?_, hsuffix⟩, hm, rfl⟩
      rw [hcs, show body = _ from hbody]
      rfl
    · exact ⟨false, body, w, ⟨suffix, hcs, hsuffix⟩, h, rfl⟩
  · rintro ⟨negative, front, m, ⟨suffix, rfl, hsuffix⟩, hm, rfl⟩
    obtain ⟨c, rest, hfront, hc⟩ := head_of_magnitude? hm
    have hlast : ∀ c, (minus negative ++ front).getLast? = some c → isIntegerSuffix c = false := by
      intro d hd
      rw [List.getLast?_append_of_ne_nil _ (by simp [hfront])] at hd
      exact not_suffix_of_magnitude? hm d (List.mem_of_getLast? hd)
    unfold integer?
    rw [← List.append_assoc, dropWhile_suffix (fun c h => mem_suffix_iff.1 (hsuffix c h)) hlast]
    cases negative with
    | true => exact congrArg (Option.map fun n => -n) hm
    | false =>
      have hbody : minus false ++ front = c :: rest := hfront
      rw [hfront] at hm
      dsimp only
      rw [hbody]
      split
      · next heq => exact absurd (List.cons.inj heq).1 hc
      · exact hm

/-- Only the least signed word is its own negative beside zero. -/
theorem toInt_neg_of_ne {w : Int64} (h : w ≠ Int64.minValue) : (-w).toInt = -w.toInt := by
  have hne : w.toInt ≠ -2 ^ 63 := by
    intro he
    exact h (Int64.toInt_inj.1 he)
  have hlo := Int64.le_toInt w
  have hhi := Int64.toInt_lt w
  rw [Int64.toInt_neg]
  exact Int.bmod_eq_of_le_mul_two (by omega) (by omega)

/-- **Which texts are integers, and which**: exactly the literals whose value is a signed word other than the least
one, and, beside them, what has a sign after the `0x`. -/
theorem integer?_eq_some_iff {w : Int64} :
    integer? cs = some w ↔ (IsLiteral cs w.toInt ∧ w ≠ Int64.minValue) ∨ HasInnerSign cs w := by
  rw [exists_magnitude]
  constructor
  · rintro ⟨negative, front, m, haffixed, hm, rfl⟩
    rcases magnitude?_eq_some_iff.1 hm with ⟨n, hn, hvalue⟩ | hn
    · have hne : m ≠ Int64.minValue := by
        rintro rfl
        rw [Int64.toInt_minValue] at hvalue
        omega
      left
      cases negative with
      | true =>
        have hneg : (-m).toInt = -(n : Int) := by rw [toInt_neg_of_ne hne, hvalue]
        refine ⟨⟨true, front, n, haffixed, hn, hneg⟩, ?_⟩
        intro hmin
        have hlt := Int64.toInt_lt m
        rw [show -m = _ from hmin, Int64.toInt_minValue] at hneg
        omega
      | false => exact ⟨⟨false, front, n, haffixed, hn, hvalue⟩, hne⟩
    · exact .inr ⟨negative, front, m, haffixed, hn, rfl⟩
  · rintro (⟨⟨negative, front, n, haffixed, hn, hvalue⟩, hne⟩ | ⟨negative, front, m, haffixed, hn, rfl⟩)
    · cases negative with
      | true =>
        have hneg : (-w).toInt = n := by
          rw [toInt_neg_of_ne hne, hvalue]
          exact Int.neg_neg _
        exact ⟨true, front, -w, haffixed, magnitude?_eq_some_iff.2 (.inl ⟨n, hn, hneg⟩), Int64.neg_neg.symm⟩
      | false => exact ⟨false, front, w, haffixed, magnitude?_eq_some_iff.2 (.inl ⟨n, hn, hvalue⟩), rfl⟩
    · exact ⟨negative, front, m, haffixed, magnitude?_eq_some_iff.2 (.inr hn), rfl⟩

/-- A number without a sign has none anywhere. -/
theorem Numeral.ne_sign {n : Nat} (h : Numeral front n) : ∀ c ∈ front, c ≠ '+' ∧ c ≠ '-' := by
  intro c hc
  cases h with
  | decimal hn => exact hn.ne_sign (.inl rfl) hc
  | @hex x cs n hx hn =>
    rcases List.mem_cons.1 hc with rfl | hc
    · decide
    · rcases List.mem_cons.1 hc with rfl | hc
      · rcases hx with rfl | rfl <;> decide
      · exact hn.ne_sign (.inr rfl) hc

/-- Two texts that begin with no minus are the same if they are so after what minus they are given. -/
theorem eq_of_minus_append {negative negative' : Bool} {a b : List Char} (ha : ∀ rest, a ≠ '-' :: rest)
    (hb : ∀ rest, b ≠ '-' :: rest) (h : minus negative ++ a = minus negative' ++ b) : a = b := by
  cases negative with
  | true =>
    cases negative' with
    | true => exact (List.cons.inj h).2
    | false => exact absurd h.symm (hb a)
  | false =>
    cases negative' with
    | true => exact absurd h (ha b)
    | false => exact h

/-- What has a sign after the `0x` is no literal. -/
theorem HasInnerSign.not_isLiteral {w : Int64} (h : HasInnerSign cs w) (k : Int) : ¬IsLiteral cs k := by
  obtain ⟨negative, front, m, ⟨suffix, hcs, -⟩, hsign, -⟩ := h
  rintro ⟨negative', front', n, ⟨suffix', hcs', hsuffix'⟩, hn, -⟩
  have hplain : ∀ c ∈ front' ++ suffix', c ≠ '+' ∧ c ≠ '-' := by
    have hletters : ∀ c ∈ ['u', 'U', 'l', 'L'], c ≠ '+' ∧ c ≠ '-' := by simp
    exact List.forall_mem_append.2 ⟨hn.ne_sign, fun c hc => hletters c (hsuffix' c hc)⟩
  obtain ⟨x, sign, digits, hfront, hsigned⟩ : ∃ x sign digits, front = '0' :: x :: sign :: digits ∧
      (sign = '+' ∨ sign = '-') := by
    generalize m.toInt = k at hsign
    cases hsign with
    | plus => exact ⟨_, _, _, rfl, .inl rfl⟩
    | minus => exact ⟨_, _, _, rfl, .inr rfl⟩
  have hsame : front ++ suffix = front' ++ suffix' := by
    refine eq_of_minus_append ?_ ?_ (hcs.symm.trans hcs')
    · intro rest heq
      rw [hfront] at heq
      exact absurd (List.cons.inj heq).1 (by decide)
    · intro rest heq
      rw [heq] at hplain
      exact (hplain '-' List.mem_cons_self).2 rfl
  obtain ⟨hplus, hminus⟩ := hplain sign (by rw [← hsame, hfront]; simp)
  rcases hsigned with rfl | rfl
  · exact hplus rfl
  · exact hminus rfl

/-! ## Spelled words -/

theorem toList_text_int (w : Int64) :
    (Literal.int w).text.toList = minus (decide (w.toInt < 0)) ++ Nat.toDigits 10 w.toInt.natAbs := by
  show (toString w.toInt).toList = _
  rw [Int.toString_eq_repr, Int.repr_eq_if]
  by_cases h : 0 ≤ w.toInt
  · have habs : w.toInt.toNat = w.toInt.natAbs := by omega
    have hneg : ¬w.toInt < 0 := by omega
    rw [if_pos h, Nat.toList_repr, habs]
    simp [minus, hneg]
  · have habs : (-w.toInt).toNat = w.toInt.natAbs := by omega
    have hneg : w.toInt < 0 := by omega
    rw [if_neg h, String.toList_append, Nat.toList_repr, habs]
    simp [minus, hneg]

/-- Every signed word is written as a literal. -/
theorem isLiteral_text (w : Int64) : IsLiteral (Literal.int w).text.toList w.toInt := by
  refine ⟨decide (w.toInt < 0), _, w.toInt.natAbs, ⟨[], ?_, nofun⟩, .decimal (digits_toDigits _), ?_⟩
  · rw [toList_text_int, List.append_nil]
  · by_cases h : w.toInt < 0
    · simp only [h, decide_true, if_true]
      omega
    · simp only [h, decide_false, Bool.false_eq_true, if_false]
      omega

theorem tight_text (w : Int64) : Tight (Literal.int w).text.toList := by
  have hsolid : ∀ c ∈ (Literal.int w).text.toList, isBlank c = false := by
    rw [toList_text_int]
    have hdigits : ∀ d < 10, isBlank (Nat.digitChar d) = false ∧ isBlank (Nat.digitChar d).toUpper = false := by
      decide
    refine List.forall_mem_append.2 ⟨?_, ?_⟩
    · cases decide (w.toInt < 0) with
      | true => exact List.forall_mem_singleton.2 rfl
      | false => exact List.forall_mem_nil _
    · intro c hc
      obtain ⟨d, hd, rfl | rfl⟩ := (digits_toDigits _).exists_isDigit hc
      · exact (hdigits d hd).1
      · exact (hdigits d hd).2
  exact ⟨fun c hc => hsolid c (List.mem_of_head? hc), fun c hc => hsolid c (List.mem_of_getLast? hc)⟩

theorem evaluate_of_integer? {definitions : Dict Value} {expr : String} {w : Int64} (ht : Tight expr.toList)
    (h : integer? expr.toList = some w) : evaluate definitions expr = some (.literal (.int w)) := by
  have hne : expr.toList ≠ [] := by
    intro hnil
    rw [hnil] at h
    cases h
  unfold evaluate
  rw [ht.trim_eq]
  dsimp only
  rw [if_neg (by simpa using hne), h]

/-- **Integers are read as they are written, but for the least one.** A text is read as a signed word exactly if it is a
literal of this word and the word is not the least one, or if it has a sign after its `0x`, and then it is no literal. So
the spelling of every signed word but the least is evaluated to this word, and the spelling of the least one to nothing. -/
theorem integers_read (definitions : Dict Value) (cs : List Char) (w : Int64) :
    (integer? cs = some w ↔ (IsLiteral cs w.toInt ∧ w ≠ Int64.minValue) ∨ HasInnerSign cs w) ∧
      (HasInnerSign cs w → ∀ k, ¬IsLiteral cs k) ∧
      evaluate definitions (Literal.int w).text =
        if w = Int64.minValue then none else some (.literal (.int w)) := by
  refine ⟨integer?_eq_some_iff, HasInnerSign.not_isLiteral, ?_⟩
  by_cases hmin : w = Int64.minValue
  · rw [if_pos hmin, hmin]
    rfl
  · rw [if_neg hmin]
    exact evaluate_of_integer? (tight_text w) (integer?_eq_some_iff.2 (.inl ⟨isLiteral_text w, hmin⟩))

/-- The least signed word is written as a literal that is not read, and `0x-10` is read without being one. -/
theorem least_unread :
    ((Literal.int Int64.minValue).text = "-9223372036854775808" ∧
      IsLiteral "-9223372036854775808".toList Int64.minValue.toInt ∧
        integer? "-9223372036854775808".toList = none ∧ evaluate .empty "-9223372036854775808" = none) ∧
      (∀ k, ¬IsLiteral "0x-10".toList k) ∧ integer? "0x-10".toList = some (-16) := by
  have htext : (Literal.int Int64.minValue).text = "-9223372036854775808" := by decide
  have hsign : HasInnerSign "0x-10".toList (-16) := by
    have hdigits : Digits 16 ['1', '0'] 16 :=
      ⟨[1, 0], by decide, .cons (by decide) (.cons (by decide) .nil), rfl⟩
    exact ⟨false, "0x-10".toList, -16, ⟨[], rfl, nofun⟩, .minus (.inl rfl) hdigits, rfl⟩
  refine ⟨⟨htext, ?_, by decide, rfl⟩, hsign.not_isLiteral, by decide⟩
  rw [← htext]
  exact isLiteral_text Int64.minValue

end Expression
end CallSig
