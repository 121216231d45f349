/-!
# UTF-16 code units

A character beyond the basic plane is a pair of surrogates in UTF-16, and a row of code units denotes a
text when every surrogate has its partner. Two formats count in code units: the strings of option
streams, and the escapes of JSON.
-/

namespace JarPlan.Text

/-- The code units of a character. -/
def units (c : Char) : List Nat :=
  if c.toNat < 0x10000 then [c.toNat]
  else [0xD800 + (c.toNat - 0x10000) / 0x400, 0xDC00 + (c.toNat - 0x10000) % 0x400]

def isHighSurrogate (u : Nat) : Bool := u / 0x400 == 0x36

def isLowSurrogate (u : Nat) : Bool := u / 0x400 == 0x37

/-- The reading behind `ofUnits?`; `done` holds the characters read before, last first. -/
def ofUnitsFrom? (done : List Char) : List Nat → Option (List Char)
  | [] => some done.reverse
  | u :: rest =>
    if isHighSurrogate u then
      match rest with
      | v :: rest =>
        if isLowSurrogate v then
          ofUnitsFrom? (Char.ofNat (0x10000 + u % 0x400 * 0x400 + v % 0x400) :: done) rest
        else none
      | [] => none
    else if isLowSurrogate u then none
    else ofUnitsFrom? (Char.ofNat u :: done) rest

/-- The characters of a row of code units, if every surrogate has its partner. -/
def ofUnits? (units : List Nat) : Option (List Char) := ofUnitsFrom? [] units

theorem ofUnitsFrom?_units_append (done : List Char) (c : Char) (rest : List Nat) :
    ofUnitsFrom? done (units c ++ rest) = ofUnitsFrom? (c :: done) rest := by
  have whole : c.toNat < 0xD800 ∨ 0xE000 ≤ c.toNat ∧ c.toNat < 0x110000 := by
    rcases c.valid with low | ⟨above, below⟩
    · exact .inl low
    · exact .inr ⟨above, below⟩
  by_cases small : c.toNat < 0x10000
  · have high : isHighSurrogate c.toNat = false := by
      simp only [isHighSurrogate, beq_eq_false_iff_ne]
      omega
    have low : isLowSurrogate c.toNat = false := by
      simp only [isLowSurrogate, beq_eq_false_iff_ne]
      omega
    rw [units, if_pos small, List.singleton_append, ofUnitsFrom?.eq_def]
    simp [high, low, Char.ofNat_toNat]
  · have high : isHighSurrogate (0xD800 + (c.toNat - 0x10000) / 0x400) = true := by
      simp only [isHighSurrogate, beq_iff_eq]
      omega
    have low : isLowSurrogate (0xDC00 + (c.toNat - 0x10000) % 0x400) = true := by
      simp only [isLowSurrogate, beq_iff_eq]
      omega
    have value : 0x10000 + (0xD800 + (c.toNat - 0x10000) / 0x400) % 0x400 * 0x400
        + (0xDC00 + (c.toNat - 0x10000) % 0x400) % 0x400 = c.toNat := by
      omega
    rw [units, if_neg small, List.cons_append, List.singleton_append, ofUnitsFrom?, if_pos high,
      if_pos low, value, Char.ofNat_toNat]

theorem ofUnitsFrom?_flatMap_units (done s : List Char) :
    ofUnitsFrom? done (s.flatMap units) = some (done.reverse ++ s) := by
  induction s generalizing done with
  | nil => simp [ofUnitsFrom?]
  | cons c rest ih => rw [List.flatMap_cons, ofUnitsFrom?_units_append, ih, List.reverse_cons,
      List.append_assoc, List.singleton_append]

/-- Code units denote the characters they were made of. -/
@[simp] theorem ofUnits?_flatMap_units (s : List Char) : ofUnits? (s.flatMap units) = some s :=
  ofUnitsFrom?_flatMap_units [] s

end JarPlan.Text
