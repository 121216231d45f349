import JarPlan.Json.Basic
import JarPlan.Sorted.Map
/-!
# Descriptions

A description is the JSON form of a value. Records are written as objects, and read from objects or from
arrays that give the fields in order. Names that a record does not have are skipped; a name that it has
may stand there once. A field is required, or it is optional and then missing means none, or it has a
default. An array may end early, but only before fields with defaults. Choices are written as a name, or
as an object with that name alone and what belongs to it.
-/

namespace JarPlan

class ToJson (α : Type) where
  toJson : α → Json

class OfJson (α : Type) where
  ofJson? : Json → Option α

export ToJson (toJson)
export OfJson (ofJson?)

namespace Json

/-! ### Records -/

/-- What a document has for a field. -/
inductive Slot where
  /-- An object does not name the field. -/
  | missing
  /-- An array ends before the field. -/
  | cutOff
  | given (value : Json)

/-- The fields of an object, if every name denotes a text. -/
def namedFields? (fields : List (Option String × Json)) : Option (List (String × Json)) :=
  fields.mapM fun f => f.1.map fun name => (name, f.2)

/-- What an object has for a field, which may be named once. -/
def slot? (fields : List (String × Json)) (name : String) : Option Slot :=
  match fields.filter (·.1 = name) with
  | [] => some .missing
  | [f] => some (.given f.2)
  | _ => none

/-- What a document has for each field of a record. -/
def slots? (names : List String) : Json → Option (List Slot)
  | object fields => do
    let fields ← namedFields? fields
    names.mapM (slot? fields)
  | array items =>
    if items.length ≤ names.length then
      some (items.map .given ++ List.replicate (names.length - items.length) .cutOff)
    else none
  | _ => none

namespace Slot

variable {α : Type} [OfJson α]

/-- The value of a field that has to be there. -/
def required? : Slot → Option α
  | given value => ofJson? value
  | _ => none

/-- The value of a field that an object may leave out. -/
def optional? [OfJson (Option α)] : Slot → Option (Option α)
  | given value => ofJson? value
  | missing => some none
  | cutOff => none

/-- The value of a field that may be left out. -/
def orElse? (default : α) : Slot → Option α
  | given value => ofJson? value
  | _ => some default

end Slot

/-! ### Choices -/

/-- The name of a choice, and what belongs to it. -/
def choice? : Json → Option (String × Option Json)
  | string (some name) => some (name, none)
  | object [(some name, value)] => some (name, some value)
  | _ => none

/-- The name of a choice to which nothing belongs. -/
def plainChoice? (j : Json) : Option String :=
  match j.choice? with
  | some (name, none) => some name
  | some (name, some null) => some name
  | _ => none

/-- A choice and what belongs to it. -/
def choose (name : String) (value : Json) : Json := record [(name, value)]

end Json

/-! ### Texts, lists, sets and maps -/

instance : ToJson String := ⟨Json.ofText⟩

instance : OfJson String where
  ofJson?
    | .string text => text
    | _ => none

instance : ToJson Bool := ⟨Json.bool⟩

instance : OfJson Bool where
  ofJson?
    | .bool value => some value
    | _ => none

instance : ToJson Json := ⟨id⟩

variable {α β : Type}

instance [ToJson α] : ToJson (Option α) where
  toJson
    | some a => toJson a
    | none => .null

instance [OfJson α] : OfJson (Option α) where
  ofJson?
    | .null => some none
    | j => (ofJson? j).map some

instance [ToJson α] : ToJson (List α) := ⟨fun l => .array (l.map toJson)⟩

instance [OfJson α] : OfJson (List α) where
  ofJson?
    | .array items => items.mapM ofJson?
    | _ => none

instance [ToJson α] [Ord α] : ToJson (SortedSet α) := ⟨fun s => toJson s.toList⟩

instance [OfJson α] [Ord α] [Std.TransOrd α] : OfJson (SortedSet α) :=
  ⟨fun j => (ofJson? j).map SortedSet.ofList⟩

/-- A map as an object; `name` gives the texts of the keys. -/
def Json.ofMap [Ord α] [ToJson β] (name : α → String) (m : SortedMap α β) : Json :=
  .record (m.entries.map fun e => (name e.1, toJson e.2))

/-- The map that an object describes. Of values with one name the last counts. -/
def Json.toMap? [Ord α] [Std.TransOrd α] [OfJson β] (key : String → α) : Json → Option (SortedMap α β)
  | .object fields => do
    let fields ← namedFields? fields
    let entries ← fields.mapM fun f => (ofJson? f.2).map fun value => (key f.1, value)
    return .ofList entries
  | _ => none

instance [ToJson β] : ToJson (SortedMap String β) := ⟨Json.ofMap id⟩

instance [OfJson β] : OfJson (SortedMap String β) := ⟨Json.toMap? id⟩

end JarPlan
