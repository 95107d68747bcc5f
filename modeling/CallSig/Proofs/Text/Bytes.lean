import CallSig.Text.Basic
import Mathlib.Tactic.SplitIfs

/-!
# `CallSig.Proofs.Text.Bytes` — texts as bytes

Positions are counted in bytes, and lines are sorted by their bytes. The bytes of a text are those of its characters,
one after the other; their number is the width of the text, and their order is the order of the characters.

## Contents
- **Bytes.** `bytes`, `toList_toUTF8`, `length_flatMap_utf8EncodeChar`.
- **Order.** `utf8EncodeChar_append_lt` (two characters), `flatMap_utf8EncodeChar_lt`, `bytes_lt_iff`.
-/

namespace CallSig
namespace Text

/-! ## Bytes -/

/-- The bytes of a text in UTF-8. -/
def bytes (text : String) : List UInt8 := text.toUTF8.data.toList

theorem toList_toUTF8 (text : String) : text.toUTF8.data.toList = text.toList.flatMap String.utf8EncodeChar := by
  show text.toByteArray.data.toList = _
  rw [← String.utf8Encode_toList, List.utf8Encode, List.data_toByteArray, List.toList_toArray]

theorem length_flatMap_utf8EncodeChar (cs : List Char) : (cs.flatMap String.utf8EncodeChar).length = width cs := by
  induction cs with
  | nil => rfl
  | cons c cs ih => rw [List.flatMap_cons, List.length_append, String.length_utf8EncodeChar, ih, width_cons]

/-! ## Order -/

/-- The bytes of two characters differ before either of them ends, and there the greater character has the greater
byte. -/
theorem utf8EncodeChar_append_lt {c d : Char} (h : c < d) (xs ys : List UInt8) :
    String.utf8EncodeChar c ++ xs < String.utf8EncodeChar d ++ ys := by
  have hlt : c.val.toNat < d.val.toNat := UInt32.lt_iff_toNat_lt.1 h
  have hbound : d.val.toNat < 0x110000 := by
    rcases d.valid with hlow | hhigh
    · exact Nat.lt_trans hlow (by decide)
    · exact hhigh.2
  unfold String.utf8EncodeChar
  dsimp only
  generalize c.val.toNat = v at *
  generalize d.val.toNat = w at *
  -- one to four bytes for either character; a byte is a number below 256 written with the bits of the character
  split_ifs <;>
    simp (disch := omega) only [List.cons_append, List.nil_append, List.cons_lt_cons_iff, UInt8.lt_iff_toNat_lt,
      ← UInt8.toNat_inj, UInt8.toNat_ofNat', Nat.mod_eq_of_lt] <;>
    omega

theorem flatMap_utf8EncodeChar_lt {cs ds : List Char} (h : cs < ds) :
    cs.flatMap String.utf8EncodeChar < ds.flatMap String.utf8EncodeChar := by
  induction h with
  | @nil d ds =>
    obtain ⟨b, bs, hb⟩ := List.exists_cons_of_ne_nil (String.utf8EncodeChar_ne_nil (c := d))
    rw [List.flatMap_nil, List.flatMap_cons, hb]
    exact List.nil_lt_cons b _
  | rel h =>
    rw [List.flatMap_cons, List.flatMap_cons]
    exact utf8EncodeChar_append_lt h _ _
  | cons _ ih =>
    rw [List.flatMap_cons, List.flatMap_cons]
    exact List.append_left_lt ih

/-- **Texts are ordered as their bytes are.** -/
theorem bytes_lt_iff {a b : String} : bytes a < bytes b ↔ a < b := by
  have hmono {a b : String} (h : a < b) : bytes a < bytes b := by
    unfold bytes
    rw [toList_toUTF8, toList_toUTF8]
    exact flatMap_utf8EncodeChar_lt (String.lt_iff.1 h)
  refine ⟨fun h => Decidable.byContradiction fun hn => ?_, hmono⟩
  by_cases hba : b < a
  · exact List.lt_asymm h (hmono hba)
  · rw [String.le_antisymm (String.not_lt.1 hba) (String.not_lt.1 hn)] at h
    exact List.lt_irrefl _ h

end Text
end CallSig
