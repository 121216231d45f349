/-!
# JSON values

A value as a document holds it. Objects keep their fields in the order they are written, repeated names
included, and numbers keep their literal, because what a repeated name or a large number means is for
the reader of a field to say. A string literal may escape half of a surrogate pair: it is well formed
and may be skipped, but it denotes no text, so texts are optional here.
-/

namespace JarPlan

inductive Json where
  | null
  | bool (value : Bool)
  | number (literal : String)
  /-- A string, with its text if it denotes one. -/
  | string (text : Option String)
  | array (items : List Json)
  | object (fields : List (Option String × Json))

namespace Json

def ofText (s : String) : Json := string (some s)

def ofNat (n : Nat) : Json := number (toString n)

/-- An object with the given names. -/
def record (fields : List (String × Json)) : Json := object (fields.map fun f => (some f.1, f.2))

end Json

end JarPlan
