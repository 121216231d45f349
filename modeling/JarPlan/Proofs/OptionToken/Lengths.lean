import Mathlib.Algebra.GroupWithZero.Nat
import Mathlib.Data.Nat.Digits.Defs
import JarPlan.Proofs.OptionToken.Limits
import JarPlan.Proofs.Text.Decimal
/-!
# How long a string is in a token

The limit on strings counts the bytes that are written, and these are not the bytes of UTF-8: the character zero
takes two, and a character beyond the basic plane takes six. The length of a string is read off its characters,
each of which has its own width. The strings that have no room are those that are too long by this measure, and a
map is refused for the first of them in the order in which strings are written.
-/

namespace JarPlan.OptionToken

/-! ### Widths -/

/-- The number of bytes that a character takes. -/
def width (c : Char) : Nat :=
  if c.toNat = 0 then 2
  else if c.toNat ≤ 0x7F then 1
  else if c.toNat ≤ 0x7FF then 2
  else if c.toNat ≤ 0xFFFF then 3
  else 6

def encodedLength (s : String) : Nat := (s.toList.map width).sum

theorem length_unitBytes (u : Nat) :
    (unitBytes u).length = if 0 < u ∧ u < 0x80 then 1 else if u < 0x800 then 2 else 3 := by
  rw [unitBytes]
  split
  · rfl
  · split <;> rfl

theorem length_charBytes (c : Char) : (charBytes c).length = width c := by
  rw [charBytes, Text.units, width]
  split
  · rw [List.flatMap_singleton, length_unitBytes]
    split_ifs <;> omega
  · -- each half of the pair takes three bytes
    rw [List.flatMap_cons, List.flatMap_singleton, List.length_append, length_unitBytes, length_unitBytes]
    split_ifs <;> omega

theorem length_encodeText (s : String) : (encodeText s).length = encodedLength s := by
  rw [encodeText, List.length_flatMap, encodedLength]
  simp only [length_charBytes]

theorem encodedLength_replicate (n : Nat) (c : Char) :
    encodedLength (String.ofList (List.replicate n c)) = n * width c := by
  rw [encodedLength, String.toList_ofList, List.map_replicate, List.sum_replicate_nat]

theorem width_of_isDigit {c : Char} (h : c.isDigit = true) : width c = 1 := by
  have hrange : 48 ≤ c.toNat ∧ c.toNat ≤ 57 := Char.isDigit_iff_toNat.1 h
  rw [width, if_neg (by omega), if_pos (by omega)]

theorem encodedLength_decimal (n : Nat) : encodedLength (String.ofList (Text.decimal n)) = (Text.decimal n).length := by
  have hwidths : (Text.decimal n).map width = List.replicate (Text.decimal n).length 1 :=
    List.map_eq_replicate_iff.2 fun c hc => width_of_isDigit (Text.isDigit_of_mem_decimal hc)
  rw [encodedLength, String.toList_ofList, hwidths, List.sum_replicate_nat, Nat.mul_one]

/-! ### Refusals -/

theorem tooLong_eq (s : String) :
    tooLong s = .stringTooLong (encodedLength s) (String.ofList (s.toList.take 32)) := by
  rw [tooLong, length_encodeText]

theorem fits_iff {s : String} : Fits s ↔ encodedLength s ≤ 65535 := by
  rw [Fits, length_encodeText, maxTextLength]

/-- A number that counts entries is short enough itself. -/
theorem fits_decimal {n : Nat} (h : n ≤ maxCount) : Fits (String.ofList (Text.decimal n)) := by
  have hbound : n < 10 ^ 10 := Nat.lt_of_le_of_lt h (by decide)
  have hdigits : (Text.decimal n).length ≤ 10 := Nat.toDigits_length 10 n 10 (by decide) hbound
  rw [fits_iff, encodedLength_decimal]
  omega

/-- A search for what has no room finds the first string that is too long. -/
theorem find?_eq_some_iff {texts : List String} {s : String} :
    texts.find? (fun s => ¬ Fits s) = some s ↔
      ∃ before after, texts = before ++ s :: after ∧ (∀ t ∈ before, encodedLength t ≤ 65535) ∧
        65535 < encodedLength s := by
  rw [List.find?_eq_some_iff_append]
  simp only [fits_iff, decide_eq_true_eq, Bool.not_eq_true', decide_eq_false_iff_not, not_le]
  constructor
  · rintro ⟨hlong, before, after, hsplit, hbefore⟩
    exact ⟨before, after, hsplit, fun t ht => Nat.le_of_not_lt (hbefore t ht), hlong⟩
  · rintro ⟨before, after, hsplit, hbefore, hlong⟩
    exact ⟨hlong, before, after, hsplit, fun t ht => Nat.not_lt_of_le (hbefore t ht)⟩

theorem exists_find?_iff {options : SortedMap String String} :
    (∃ s, (strings options).find? (fun s => ¬ Fits s) = some s) ↔
      ∃ e ∈ options.entries, 65535 < encodedLength e.1 ∨ 65535 < encodedLength e.2 := by
  rw [← Option.ne_none_iff_exists', ne_eq, find?_eq_none_iff, forall_mem_strings_iff]
  simp only [fits_iff, not_forall, not_and_or, not_le, exists_prop]

section Refusals
variable {options : SortedMap String String} (hsize : options.size ≤ maxCount)
include hsize

theorem encode_eq_error_iff {error : Error} :
    encode options = .error error ↔
      ∃ s, (strings options).find? (fun s => ¬ Fits s) = some s ∧ error = tooLong s := by
  cases hfind : (strings options).find? fun s => ¬ Fits s with
  | none =>
    obtain ⟨token, htoken⟩ := encode_of_fits hsize (find?_eq_none_iff.1 hfind)
    rw [htoken]
    simp
  | some s =>
    rw [encode_of_find? hsize hfind, Except.error.injEq, eq_comm]
    simp

/-- A map with room for its count is refused exactly when one of its keys or values is longer than its length field
can say, and the error names the first such string, each key being looked at before its value, with its length and
its first characters. -/
theorem encode_refuses_first_long_string :
    ((∃ error, encode options = .error error) ↔
      ∃ e ∈ options.entries, 65535 < encodedLength e.1 ∨ 65535 < encodedLength e.2) ∧
    ∀ error, encode options = .error error ↔
      ∃ before s after, strings options = before ++ s :: after ∧
        (∀ t ∈ before, encodedLength t ≤ 65535) ∧ 65535 < encodedLength s ∧
        error = .stringTooLong (encodedLength s) (String.ofList (s.toList.take 32)) := by
  simp only [encode_eq_error_iff hsize]
  constructor
  · rw [← exists_find?_iff, exists_comm]
    simp only [exists_and_left, exists_eq, and_true]
  · intro error
    constructor
    · rintro ⟨s, hfind, rfl⟩
      obtain ⟨before, after, hsplit, hbefore, hlong⟩ := find?_eq_some_iff.1 hfind
      exact ⟨before, s, after, hsplit, hbefore, hlong, tooLong_eq s⟩
    · rintro ⟨before, s, after, hsplit, hbefore, hlong, rfl⟩
      exact ⟨s, find?_eq_some_iff.2 ⟨before, after, hsplit, hbefore, hlong⟩, (tooLong_eq s).symm⟩

end Refusals

/-- In UTF-8 this would fit, with four bytes for each character. -/
def clefs : String := String.ofList (List.replicate 11000 '𝄞')

def accents : String := String.ofList (List.replicate 33000 'é')

/-- A value is refused behind a key that has room, and a key before its value. -/
theorem long_strings_refused :
    encode (.ofList [("clef", clefs)]) =
        .error (.stringTooLong 66000 (String.ofList (List.replicate 32 '𝄞'))) ∧
      encode (.ofList [(accents, clefs)]) =
        .error (.stringTooLong 66000 (String.ofList (List.replicate 32 'é'))) := by
  have hsize (e : String × String) : (SortedMap.ofList [e]).size ≤ maxCount := (by decide : 1 ≤ maxCount)
  have hclefs : encodedLength clefs = 66000 := encodedLength_replicate 11000 '𝄞'
  have haccents : encodedLength accents = 66000 := encodedLength_replicate 33000 'é'
  have hpreview (n : Nat) (c : Char) (hn : 32 ≤ n) :
      (String.ofList (List.replicate n c)).toList.take 32 = List.replicate 32 c := by
    rw [String.toList_ofList, List.take_replicate, Nat.min_eq_left hn]
  have hclef : clefs.toList.take 32 = List.replicate 32 '𝄞' := hpreview 11000 '𝄞' (by decide)
  have haccent : accents.toList.take 32 = List.replicate 32 'é' := hpreview 33000 'é' (by decide)
  obtain ⟨-, hvalue⟩ := encode_refuses_first_long_string (hsize ("clef", clefs))
  obtain ⟨-, hkey⟩ := encode_refuses_first_long_string (hsize (accents, clefs))
  constructor
  · refine (hvalue _).2 ⟨["clef"], clefs, [], rfl, List.forall_mem_singleton.2 (by decide), ?_, ?_⟩
    · rw [hclefs]
      decide
    · simp only [hclefs, hclef]
  · refine (hkey _).2 ⟨[], accents, [clefs], rfl, List.forall_mem_nil _, ?_, ?_⟩
    · rw [haccents]
      decide
    · simp only [haccents, haccent]

end JarPlan.OptionToken
