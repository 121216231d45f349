import JarPlan.Json.Reader
import JarPlan.Proofs.Json.Tokens
/-!
# Compact texts are read back

The reader takes the tokens of a value with anything open around it, and is left with the value and with what
was open before. So a value without numbers is read back from its compact text.
-/

namespace JarPlan.Json

/-! ### Tokens taken in one after the other -/

/-- A phase in which a value may begin. -/
def Phase.IsStart (phase : Phase) : Prop := phase = .value ∨ phase = .firstItem

namespace Machine

theorem foldlM_cons {m next : Machine} {token : Token} (h : m.step token = some next) (tokens : List Token) :
    (token :: tokens).foldlM step m = tokens.foldlM step next := by
  rw [List.foldlM_cons, h]
  rfl

theorem foldlM_append {m next : Machine} {front : List Token} (h : front.foldlM step m = some next)
    (back : List Token) : (front ++ back).foldlM step m = back.foldlM step next := by
  rw [List.foldlM_append, h]
  rfl

end Machine

open Machine

mutual

theorem foldlM_tokens : ∀ (j : Json) (frames : List Frame) {phase : Phase}, phase.IsStart →
    (tokens j).foldlM step ⟨frames, phase⟩ = some ⟨frames, .after j⟩
  | null, frames, phase, hphase => by rcases hphase with rfl | rfl <;> rfl
  | bool value, frames, phase, hphase => by rcases hphase with rfl | rfl <;> rfl
  | number literal, frames, phase, hphase => by rcases hphase with rfl | rfl <;> rfl
  | string text, frames, phase, hphase => by rcases hphase with rfl | rfl <;> rfl
  | array items, frames, phase, hphase => by
    have hopen : step ⟨frames, phase⟩ .openArray = some ⟨.array [] :: frames, .firstItem⟩ := by
      rcases hphase with rfl | rfl <;> rfl
    rw [tokens, foldlM_cons hopen, foldlM_itemTokens]
  | object fields, frames, phase, hphase => by
    have hopen : step ⟨frames, phase⟩ .openObject = some ⟨.object [] :: frames, .firstName⟩ := by
      rcases hphase with rfl | rfl <;> rfl
    rw [tokens, foldlM_cons hopen, foldlM_fieldTokens]

theorem foldlM_itemTokens : ∀ (items : List Json) (frames : List Frame),
    (itemTokens items).foldlM step ⟨.array [] :: frames, .firstItem⟩ = some ⟨frames, .after (array items)⟩
  | [], frames => rfl
  | item :: rest, frames => by
    rw [itemTokens, foldlM_append (foldlM_tokens item _ (.inr rfl)), foldlM_moreItemTokens]
    rfl

theorem foldlM_moreItemTokens : ∀ (items : List Json) (frames : List Frame) (done : List Json) (value : Json),
    (moreItemTokens items).foldlM step ⟨.array done :: frames, .after value⟩ =
      some ⟨frames, .after (array ((value :: done).reverse ++ items))⟩
  | [], frames, done, value => by
    rw [List.append_nil]
    rfl
  | item :: rest, frames, done, value => by
    have hcomma : step ⟨.array done :: frames, .after value⟩ .comma =
        some ⟨.array (value :: done) :: frames, .value⟩ := rfl
    rw [moreItemTokens, List.cons_append, foldlM_cons hcomma, foldlM_append (foldlM_tokens item _ (.inl rfl)),
      foldlM_moreItemTokens, List.reverse_cons, List.append_assoc, List.singleton_append]

theorem foldlM_fieldTokens : ∀ (fields : List (Option String × Json)) (frames : List Frame),
    (fieldTokens fields).foldlM step ⟨.object [] :: frames, .firstName⟩ = some ⟨frames, .after (object fields)⟩
  | [], frames => rfl
  | (name, value) :: rest, frames => by
    have hname : step ⟨.object [] :: frames, .firstName⟩ (.string name) =
        some ⟨.field [] name :: frames, .colon⟩ := rfl
    have hcolon : step ⟨.field [] name :: frames, .colon⟩ .colon = some ⟨.field [] name :: frames, .value⟩ := rfl
    rw [fieldTokens, List.cons_append, List.cons_append, foldlM_cons hname, foldlM_cons hcolon,
      foldlM_append (foldlM_tokens value _ (.inl rfl)), foldlM_moreFieldTokens]
    rfl

theorem foldlM_moreFieldTokens : ∀ (fields : List (Option String × Json)) (frames : List Frame)
    (done : List (Option String × Json)) (name : Option String) (value : Json),
    (moreFieldTokens fields).foldlM step ⟨.field done name :: frames, .after value⟩ =
      some ⟨frames, .after (object (((name, value) :: done).reverse ++ fields))⟩
  | [], frames, done, name, value => by
    rw [List.append_nil]
    rfl
  | (name, value) :: rest, frames, done, lastName, lastValue => by
    have hcomma : step ⟨.field done lastName :: frames, .after lastValue⟩ .comma =
        some ⟨.object ((lastName, lastValue) :: done) :: frames, .name⟩ := rfl
    have hname : step ⟨.object ((lastName, lastValue) :: done) :: frames, .name⟩ (.string name) =
        some ⟨.field ((lastName, lastValue) :: done) name :: frames, .colon⟩ := rfl
    have hcolon : step ⟨.field ((lastName, lastValue) :: done) name :: frames, .colon⟩ .colon =
        some ⟨.field ((lastName, lastValue) :: done) name :: frames, .value⟩ := rfl
    rw [moreFieldTokens, List.cons_append, List.cons_append, List.cons_append, foldlM_cons hcomma,
      foldlM_cons hname, foldlM_cons hcolon, foldlM_append (foldlM_tokens value _ (.inl rfl)),
      foldlM_moreFieldTokens, List.reverse_cons, List.append_assoc, List.singleton_append]

end

/-! ### Documents -/

theorem ofTokens?_tokens (j : Json) : ofTokens? (tokens j) = some j := by
  rw [ofTokens?, foldlM_tokens j [] (.inl rfl)]
  rfl

/-- A value without numbers; what a number is written as need not be read as one. -/
def IsPlain (j : Json) : Prop := ∀ token ∈ tokens j, token.isNumber = false

/-- A value without numbers is read from any text that its tokens have. -/
theorem read?_of_isText {j : Json} (h : j.IsPlain) {s : List Char} (hs : Token.IsText (tokens j) s) :
    read? (String.ofList s) = some j := by
  rw [read?, String.toList_ofList, hs.ofChars? h]
  exact ofTokens?_tokens j

/-- A value without numbers is read back from its text. -/
theorem read?_compact {j : Json} (h : j.IsPlain) : read? j.compact = some j := by
  apply read?_of_isText h
  rw [compactChars_eq]
  exact Token.isText_flatMap_chars (tokens j)

end JarPlan.Json
