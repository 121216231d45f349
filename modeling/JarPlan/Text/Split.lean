/-!
# Cutting texts at separators

Texts are cut here at a separator of several characters. Occurrences are taken from the left and do
not overlap: `splitAt? sep s` cuts at the first one, `splitAll sep s` at every one, and `replaceAll`
joins the pieces with something else. The separators in use are fixed and never empty. Cutting loses
nothing: the parts joined at the separator are the text.
-/

namespace JarPlan.Text

variable {α : Type} [BEq α]

/-- The search behind `splitAt?`; `seen` holds what was passed, last first. -/
def splitAtFrom? (sep seen : List α) : List α → Option (List α × List α)
  | [] => none
  | c :: rest =>
    if sep.isPrefixOf (c :: rest) then some (seen.reverse, (c :: rest).drop sep.length)
    else splitAtFrom? sep (c :: seen) rest

/-- What stands before and after the first occurrence of `sep`. -/
def splitAt? (sep s : List α) : Option (List α × List α) := splitAtFrom? sep [] s

theorem splitAtFrom?_eq_some [LawfulBEq α] {sep seen s before after : List α}
    (h : splitAtFrom? sep seen s = some (before, after)) : seen.reverse ++ s = before ++ sep ++ after := by
  induction s generalizing seen with
  | nil => cases h
  | cons c rest ih =>
    rw [splitAtFrom?] at h
    split at h
    · rename_i met
      obtain ⟨tail, whole⟩ := List.isPrefixOf_iff_prefix.1 met
      obtain ⟨rfl, rfl⟩ := Prod.mk.inj (Option.some.inj h)
      rw [← whole, List.drop_left, List.append_assoc]
    · simpa using ih h

/-- The two parts and the separator make up the text. -/
theorem splitAt?_eq_some [LawfulBEq α] {sep s before after : List α}
    (h : splitAt? sep s = some (before, after)) : s = before ++ sep ++ after := by
  simpa using splitAtFrom?_eq_some h

/-- The search behind `splitAll`: `skip` characters still belong to the separator just met, and
`piece` holds the current piece, last character first. -/
def splitAllFrom (sep : List α) : Nat → List α → List α → List (List α)
  | _, piece, [] => [piece.reverse]
  | skip + 1, piece, _ :: rest => splitAllFrom sep skip piece rest
  | 0, piece, c :: rest =>
    if sep.isPrefixOf (c :: rest) then piece.reverse :: splitAllFrom sep (sep.length - 1) [] rest
    else splitAllFrom sep 0 (c :: piece) rest

/-- The pieces between the occurrences of `sep`. -/
def splitAll (sep s : List α) : List (List α) := splitAllFrom sep 0 [] s

theorem splitAllFrom_ne_nil (sep : List α) (skip : Nat) (piece s : List α) :
    splitAllFrom sep skip piece s ≠ [] := by
  induction s generalizing skip piece with
  | nil => simp [splitAllFrom]
  | cons c rest ih =>
    cases skip with
    | zero =>
      rw [splitAllFrom]
      split
      · exact List.cons_ne_nil _ _
      · exact ih 0 (c :: piece)
    | succ skip => exact ih skip piece

theorem intercalate_splitAllFrom [LawfulBEq α] {sep : List α} (h : sep ≠ []) (skip : Nat)
    (piece s : List α) :
    sep.intercalate (splitAllFrom sep skip piece s) = piece.reverse ++ s.drop skip := by
  induction s generalizing skip piece with
  | nil => simp [splitAllFrom]
  | cons c rest ih =>
    cases skip with
    | succ skip => exact ih skip piece
    | zero =>
      rw [splitAllFrom]
      split
      · rename_i met
        obtain ⟨tail, whole⟩ := List.isPrefixOf_iff_prefix.1 met
        rw [List.intercalate_cons_of_ne_nil (splitAllFrom_ne_nil sep _ [] rest), ih]
        cases sep with
        | nil => exact absurd rfl h
        | cons d sep =>
          obtain ⟨rfl, rfl⟩ := List.cons.inj whole
          simp
      · simp [ih]

/-- Joining the pieces gives the text back. -/
theorem intercalate_splitAll [LawfulBEq α] {sep : List α} (h : sep ≠ []) (s : List α) :
    sep.intercalate (splitAll sep s) = s := by
  simpa [splitAll] using intercalate_splitAllFrom h 0 [] s

/-- Every occurrence of `old` becomes `new`. -/
def replaceAll (old new s : List α) : List α := new.intercalate (splitAll old s)

/-- What follows `lead`, where the text starts with it. -/
def dropLead? (lead s : List α) : Option (List α) :=
  if lead.isPrefixOf s then some (s.drop lead.length) else none

/-- What precedes `tail`, where the text ends with it. -/
def dropTail? (tail s : List α) : Option (List α) :=
  if tail.isSuffixOf s then some (s.take (s.length - tail.length)) else none

/-- The lines of a text: a line break ends a line, and a text that ends with one has no empty line
after it. -/
def lines (s : List Char) : List (List Char) :=
  let pieces := s.splitOn '\n'
  if pieces.getLast? == some [] then pieces.dropLast else pieces

end JarPlan.Text
