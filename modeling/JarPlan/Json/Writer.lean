import JarPlan.Bytes.Chunks
import JarPlan.Json.Basic
/-!
# Writing JSON

A value has one compact text, without blanks, and one pretty text, with each item on a line of its own
and two blanks for each level; empty arrays and objects stay on one line in both. In strings only the
quote, the backslash and the characters below the blank are escaped, five of them by a letter.
-/

namespace JarPlan.Json

/-! ### Strings -/

/-- The letter that escapes a control character. -/
def escapeLetter? (c : Char) : Option Char :=
  if c = '\n' then some 'n'
  else if c = '\r' then some 'r'
  else if c = '\t' then some 't'
  else if c.toNat = 0x8 then some 'b'
  else if c.toNat = 0xC then some 'f'
  else if c = '"' then some '"'
  else if c = '\\' then some '\\'
  else none

def writeChar (c : Char) : List Char :=
  match escapeLetter? c with
  | some letter => ['\\', letter]
  | none =>
    if c.toNat < 0x20 then ['\\', 'u', '0', '0'] ++ Bytes.hexByte false (UInt8.ofNat c.toNat) else [c]

/-- A string literal; one that denotes no text is written as half a pair. -/
def writeString : Option String → List Char
  | some s => '"' :: s.toList.flatMap writeChar ++ ['"']
  | none => "\"\\ud800\"".toList

def writeBool : Bool → List Char
  | true => "true".toList
  | false => "false".toList

/-! ### Compact text -/

mutual

def compactChars : Json → List Char
  | null => "null".toList
  | bool value => writeBool value
  | number literal => literal.toList
  | string text => writeString text
  | array items => '[' :: compactItems items
  | object fields => '{' :: compactFields fields

/-- The items of an array and its closing bracket. -/
def compactItems : List Json → List Char
  | [] => [']']
  | item :: rest => compactChars item ++ compactMoreItems rest

/-- The same after an item. -/
def compactMoreItems : List Json → List Char
  | [] => [']']
  | item :: rest => ',' :: compactChars item ++ compactMoreItems rest

/-- The fields of an object and its closing brace. -/
def compactFields : List (Option String × Json) → List Char
  | [] => ['}']
  | (name, value) :: rest => writeString name ++ ':' :: compactChars value ++ compactMoreFields rest

/-- The same after a field. -/
def compactMoreFields : List (Option String × Json) → List Char
  | [] => ['}']
  | (name, value) :: rest => ',' :: writeString name ++ ':' :: compactChars value ++ compactMoreFields rest

end

def compact (j : Json) : String := String.ofList j.compactChars

/-! ### Pretty text -/

/-- A new line at a level. -/
def newLine (level : Nat) : List Char := '\n' :: List.replicate (2 * level) ' '

mutual

def prettyChars (level : Nat) : Json → List Char
  | null => "null".toList
  | bool value => writeBool value
  | number literal => literal.toList
  | string text => writeString text
  | array [] => "[]".toList
  | array (item :: rest) =>
    '[' :: newLine (level + 1) ++ prettyChars (level + 1) item ++ prettyItems level rest
  | object [] => ['{', '}']
  | object ((name, value) :: rest) =>
    '{' :: newLine (level + 1) ++ writeString name ++ ':' :: ' ' :: prettyChars (level + 1) value
      ++ prettyFields level rest

/-- The items after the first one, and the closing bracket. -/
def prettyItems (level : Nat) : List Json → List Char
  | [] => newLine level ++ [']']
  | item :: rest =>
    ',' :: newLine (level + 1) ++ prettyChars (level + 1) item ++ prettyItems level rest

/-- The fields after the first one, and the closing brace. -/
def prettyFields (level : Nat) : List (Option String × Json) → List Char
  | [] => newLine level ++ ['}']
  | (name, value) :: rest =>
    ',' :: newLine (level + 1) ++ writeString name ++ ':' :: ' ' :: prettyChars (level + 1) value
      ++ prettyFields level rest

end

def pretty (j : Json) : String := String.ofList (j.prettyChars 0)

end JarPlan.Json
