import JarPlan.Proofs.Json.Reading
/-!
# Pretty texts are read back

A pretty text has the tokens of the compact one, with a line break and blanks in front of items, names and closing
brackets and a blank in front of the value of a field. The reader passes over blanks, so a value without numbers is
read back from either text.
-/

namespace JarPlan.Json

open Token

theorem isBlank_of_mem_newLine {level : Nat} : ∀ c ∈ newLine level, isBlank c = true := by
  intro c hc
  rcases List.mem_cons.1 hc with rfl | hc
  · rfl
  · rw [List.eq_of_mem_replicate hc]
    rfl

/-- A name on a line of its own, and a value behind it. -/
theorem isText_prettyField (level : Nat) (name : Option String) {tokens : List Token} {s : List Char}
    (h : IsText tokens s) :
    IsText (.string name :: .colon :: tokens) (newLine level ++ (writeString name ++ ':' :: ' ' :: s)) := by
  apply IsText.blanks isBlank_of_mem_newLine
  apply IsText.token (.string name)
  apply IsText.token .colon
  exact .blank rfl h

mutual

theorem isText_prettyChars : ∀ (level : Nat) (j : Json), IsText (tokens j) (prettyChars level j)
  | level, null => isText_chars .null
  | level, bool value => isText_chars (.bool value)
  | level, number literal => isText_chars (.number literal)
  | level, string text => isText_chars (.string text)
  | level, array [] => .token .openArray (isText_chars .closeArray)
  | level, array (item :: rest) => by
    rw [prettyChars, tokens, itemTokens, List.append_assoc, List.cons_append]
    apply IsText.token .openArray
    apply IsText.blanks isBlank_of_mem_newLine
    exact (isText_prettyChars (level + 1) item).append (isText_prettyItems level rest)
  | level, object [] => .token .openObject (isText_chars .closeObject)
  | level, object ((name, value) :: rest) => by
    rw [prettyChars, tokens, fieldTokens]
    simp only [List.cons_append, List.append_assoc]
    apply IsText.token .openObject
    apply isText_prettyField
    exact (isText_prettyChars (level + 1) value).append (isText_prettyFields level rest)

theorem isText_prettyItems : ∀ (level : Nat) (items : List Json),
    IsText (moreItemTokens items) (prettyItems level items)
  | level, [] => (isText_chars .closeArray).blanks isBlank_of_mem_newLine
  | level, item :: rest => by
    rw [prettyItems, moreItemTokens, List.append_assoc, List.cons_append]
    apply IsText.token .comma
    apply IsText.blanks isBlank_of_mem_newLine
    exact (isText_prettyChars (level + 1) item).append (isText_prettyItems level rest)

theorem isText_prettyFields : ∀ (level : Nat) (fields : List (Option String × Json)),
    IsText (moreFieldTokens fields) (prettyFields level fields)
  | level, [] => (isText_chars .closeObject).blanks isBlank_of_mem_newLine
  | level, (name, value) :: rest => by
    rw [prettyFields, moreFieldTokens]
    simp only [List.cons_append, List.append_assoc]
    apply IsText.token .comma
    apply isText_prettyField
    exact (isText_prettyChars (level + 1) value).append (isText_prettyFields level rest)

end

theorem read?_pretty {j : Json} (h : j.IsPlain) : read? j.pretty = some j :=
  read?_of_isText h (isText_prettyChars 0 j)

end JarPlan.Json
