import JarPlan.Proofs.Text.Trim
import JarPlan.Text.Decimal
/-!
# Numbers are read back

The digits of a number denote it, and they are read as a word exactly when the word has room for the number. No
digit is a sign, a blank or a separator.
-/

namespace JarPlan.Text

theorem toList_repr (n : Nat) : n.repr.toList = decimal n := by
  rw [Nat.repr_eq_ofList_toDigits, String.toList_ofList, decimal]

theorem isDigit_of_mem_decimal {n : Nat} {c : Char} (h : c ∈ decimal n) : c.isDigit = true :=
  Nat.isDigit_of_mem_toDigits (by decide) (by decide) h

theorem decimal_ne_nil (n : Nat) : decimal n ≠ [] := Nat.toDigits_ne_nil

theorem digitsValue_decimal (n : Nat) : digitsValue (decimal n) = n := by
  rw [digitsValue, decimal, ← Nat.ofDigitChars_eq_foldl]
  exact Nat.ofDigitChars_ten_toDigits

theorem decimal_inj {n m : Nat} (h : decimal n = decimal m) : n = m := by
  rw [← digitsValue_decimal n, h, digitsValue_decimal]

theorem not_mem_decimal {c : Char} (hc : c.isDigit = false) (n : Nat) : c ∉ decimal n := by
  intro h
  rw [isDigit_of_mem_decimal h] at hc
  cases hc

theorem isBlank_of_isDigit {c : Char} (h : c.isDigit = true) : isBlank c = false := by
  have hrange : 48 ≤ c.toNat ∧ c.toNat ≤ 57 := Char.isDigit_iff_toNat.1 h
  have hranges : ∀ r ∈ blankRanges, r.2 < 48 ∨ 57 < r.1 := by decide
  rw [isBlank, List.any_eq_false]
  intro r hr
  have hapart := hranges r hr
  rw [Bool.and_eq_true, decide_eq_true_eq, decide_eq_true_eq]
  omega

theorem isBlank_of_mem_decimal {n : Nat} {c : Char} (h : c ∈ decimal n) : isBlank c = false :=
  isBlank_of_isDigit (isDigit_of_mem_decimal h)

theorem trim_decimal_append (n : Nat) {after : List Char} (hafter : ∀ c ∈ after, isBlank c = true) :
    trim isBlank (decimal n ++ after) = decimal n :=
  trim_append_right hafter (fun _ hc => isBlank_of_mem_decimal (List.mem_of_mem_head? hc))
    fun _ hc => isBlank_of_mem_decimal (List.mem_of_mem_getLast? hc)

theorem trim_decimal (n : Nat) : trim isBlank (decimal n) = decimal n := by
  simpa using trim_decimal_append n (List.forall_mem_nil _)

theorem readDigits?_decimal (n : Nat) : readDigits? (decimal n) = some n := by
  have hdigits : (decimal n).all Char.isDigit = true := List.all_eq_true.2 fun c => isDigit_of_mem_decimal
  rw [readDigits?, digitsValue_decimal, hdigits, if_pos]
  simp [decimal_ne_nil]

/-- A number is read back when it fits a word, and is refused otherwise. -/
theorem readWord?_decimal (n : Nat) :
    readWord? (decimal n) = if n < UInt64.size then some (UInt64.ofNat n) else none := by
  rw [readWord?, readDigits?_decimal]
  · rfl
  · -- no sign is taken off, since there is none
    intro rest hsign
    exact not_mem_decimal (c := '+') rfl n (hsign ▸ List.mem_cons_self)

end JarPlan.Text
