import JarPlan.Text.Utf16
/-!
# Rows of code units that denote a text

A row of 16-bit code units is read as a text exactly when it is the row that the text is written with.
In particular a row with an unpaired surrogate denotes no text, and no two texts share a row.
-/

namespace JarPlan.Text

theorem toNat_ofNat {n : Nat} (h : n.isValidChar) : (Char.ofNat n).toNat = n := by
  rw [Char.ofNat, dif_pos h]
  rfl

theorem units_lt (c : Char) : ∀ u ∈ units c, u < 0x10000 := by
  have htop : c.toNat < 0x110000 := by
    rcases c.valid with h | h
    · exact Nat.lt_trans h (by decide)
    · exact h.2
  intro u hu
  rw [units] at hu
  split at hu
  · rw [List.mem_singleton] at hu
    omega
  · simp only [List.mem_cons, List.not_mem_nil, or_false] at hu
    omega

theorem units_pair {u v : Nat} (hu : isHighSurrogate u = true) (hv : isLowSurrogate v = true) :
    units (Char.ofNat (0x10000 + u % 0x400 * 0x400 + v % 0x400)) = [u, v] := by
  rw [isHighSurrogate, beq_iff_eq] at hu
  rw [isLowSurrogate, beq_iff_eq] at hv
  have hvalid : (0x10000 + u % 0x400 * 0x400 + v % 0x400).isValidChar := by
    right
    omega
  have hbig : ¬ 0x10000 + u % 0x400 * 0x400 + v % 0x400 < 0x10000 := by omega
  have hfirst : 0xD800 + (0x10000 + u % 0x400 * 0x400 + v % 0x400 - 0x10000) / 0x400 = u := by omega
  have hsecond : 0xDC00 + (0x10000 + u % 0x400 * 0x400 + v % 0x400 - 0x10000) % 0x400 = v := by omega
  rw [units, toNat_ofNat hvalid, if_neg hbig, hfirst, hsecond]

theorem units_single {u : Nat} (hlt : u < 0x10000) (hhigh : ¬ isHighSurrogate u = true)
    (hlow : ¬ isLowSurrogate u = true) : units (Char.ofNat u) = [u] := by
  rw [isHighSurrogate, beq_iff_eq] at hhigh
  rw [isLowSurrogate, beq_iff_eq] at hlow
  have hvalid : u.isValidChar := by
    by_cases h : u < 0xD800
    · exact .inl h
    · right
      omega
  rw [units, toNat_ofNat hvalid, if_pos hlt]

theorem flatMap_units_of_ofUnitsFrom? {done chars : List Char} {us : List Nat}
    (hlt : ∀ u ∈ us, u < 0x10000) (h : ofUnitsFrom? done us = some chars) :
    ∃ rest, chars = done.reverse ++ rest ∧ rest.flatMap units = us := by
  fun_induction ofUnitsFrom? done us with
  | case1 done =>
    refine ⟨[], ?_, rfl⟩
    rw [List.append_nil]
    exact (Option.some.inj h).symm
  | case2 done u hhigh v us hlow ih =>
    obtain ⟨rest, rfl, hrest⟩ := ih (fun w hw => hlt w (by simp [hw])) h
    refine ⟨Char.ofNat (0x10000 + u % 0x400 * 0x400 + v % 0x400) :: rest, ?_, ?_⟩
    · rw [List.reverse_cons, List.append_assoc, List.singleton_append]
    · rw [List.flatMap_cons, units_pair hhigh hlow, hrest]
      rfl
  | case3 => cases h
  | case4 => cases h
  | case5 => cases h
  | case6 done u us hhigh hlow ih =>
    obtain ⟨rest, rfl, hrest⟩ := ih (fun w hw => hlt w (List.mem_cons_of_mem _ hw)) h
    refine ⟨Char.ofNat u :: rest, ?_, ?_⟩
    · rw [List.reverse_cons, List.append_assoc, List.singleton_append]
    · rw [List.flatMap_cons, units_single (hlt u List.mem_cons_self) hhigh hlow, hrest]
      rfl

theorem ofUnits?_eq_some_iff {us : List Nat} (hlt : ∀ u ∈ us, u < 0x10000) {chars : List Char} :
    ofUnits? us = some chars ↔ chars.flatMap units = us := by
  constructor
  · intro h
    obtain ⟨rest, rfl, hrest⟩ := flatMap_units_of_ofUnitsFrom? hlt h
    exact hrest
  · rintro rfl
    exact ofUnits?_flatMap_units chars

end JarPlan.Text
