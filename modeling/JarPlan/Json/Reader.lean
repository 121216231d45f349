import JarPlan.Json.Basic
import JarPlan.Json.Token
/-!
# Reading JSON

Tokens are taken in one after the other by a machine that keeps what is open: arrays with the items they
have so far, objects with their fields, fields that wait for their value. A text is a document when the
machine takes all its tokens and is left with one value and nothing open. Nothing else may stand after
the value, and nothing is read leniently: no comments, no comma before a bracket.
-/

namespace JarPlan.Json

/-- Something open; items and fields are last first. -/
inductive Frame where
  | array (items : List Json)
  | object (fields : List (Option String × Json))
  /-- An object in which a field waits for its value. -/
  | field (fields : List (Option String × Json)) (name : Option String)

/-- What may come next. -/
inductive Phase where
  | value
  /-- A value, or the end of an array that has no items. -/
  | firstItem
  | name
  /-- A name, or the end of an object that has no fields. -/
  | firstName
  | colon
  /-- What may follow a value. -/
  | after (value : Json)

structure Machine where
  frames : List Frame := []
  phase : Phase := .value

namespace Machine

/-- Takes a token where a value is expected. -/
def stepValue (frames : List Frame) : Token → Option Machine
  | .null => some ⟨frames, .after .null⟩
  | .bool value => some ⟨frames, .after (.bool value)⟩
  | .number literal => some ⟨frames, .after (.number literal)⟩
  | .string text => some ⟨frames, .after (.string text)⟩
  | .openArray => some ⟨.array [] :: frames, .firstItem⟩
  | .openObject => some ⟨.object [] :: frames, .firstName⟩
  | _ => none

/-- Takes a token where a name is expected. -/
def stepName : List Frame → Token → Option Machine
  | .object fields :: frames, .string name => some ⟨.field fields name :: frames, .colon⟩
  | _, _ => none

/-- Takes a token after a value. -/
def stepAfter (value : Json) : List Frame → Token → Option Machine
  | .array items :: frames, .comma => some ⟨.array (value :: items) :: frames, .value⟩
  | .array items :: frames, .closeArray => some ⟨frames, .after (.array (value :: items).reverse)⟩
  | .field fields name :: frames, .comma => some ⟨.object ((name, value) :: fields) :: frames, .name⟩
  | .field fields name :: frames, .closeObject =>
    some ⟨frames, .after (.object ((name, value) :: fields).reverse)⟩
  | _, _ => none

def step (m : Machine) (token : Token) : Option Machine :=
  match m.phase, token, m.frames with
  | .firstItem, .closeArray, _ :: frames => some ⟨frames, .after (.array [])⟩
  | .firstName, .closeObject, _ :: frames => some ⟨frames, .after (.object [])⟩
  | .colon, .colon, frames => some ⟨frames, .value⟩
  | .colon, _, _ => none
  | .value, token, frames => stepValue frames token
  | .firstItem, token, frames => stepValue frames token
  | .name, token, frames => stepName frames token
  | .firstName, token, frames => stepName frames token
  | .after value, token, frames => stepAfter value frames token

/-- The value of a machine that has nothing open. -/
def result? (m : Machine) : Option Json :=
  match m.frames, m.phase with
  | [], .after value => some value
  | _, _ => none

end Machine

/-- The value that a row of tokens denotes. -/
def ofTokens? (tokens : List Token) : Option Json := do (← tokens.foldlM Machine.step {}).result?

/-- The value that a text denotes. -/
def read? (text : String) : Option Json := do ofTokens? (← Token.ofChars? text.toList)

end JarPlan.Json
