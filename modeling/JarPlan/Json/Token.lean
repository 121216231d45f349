import JarPlan.Text.Utf16
/-!
# The words of JSON

A text is cut into brackets, marks, words, numbers and strings, with blanks between them. Strings are
gathered in UTF-16 code units, where an escape is one unit, so two escapes may make up one character.
-/

namespace JarPlan.Json

inductive Token where
  | openArray
  | closeArray
  | openObject
  | closeObject
  | colon
  | comma
  | null
  | bool (value : Bool)
  | number (literal : String)
  /-- A string, with its text if it denotes one. -/
  | string (text : Option String)
deriving DecidableEq

namespace Token

/-- The blanks of JSON. -/
def isBlank (c : Char) : Bool := c == ' ' || c == '\n' || c == '\t' || c == '\r'

/-! ### Strings -/

def hexValue? (c : Char) : Option Nat :=
  if '0' ≤ c ∧ c ≤ '9' then some (c.toNat - '0'.toNat)
  else if 'a' ≤ c ∧ c ≤ 'f' then some (c.toNat - 'a'.toNat + 10)
  else if 'A' ≤ c ∧ c ≤ 'F' then some (c.toNat - 'A'.toNat + 10)
  else none

def hexUnit? (a b c d : Char) : Option Nat := do
  return (((← hexValue? a) * 16 + (← hexValue? b)) * 16 + (← hexValue? c)) * 16 + (← hexValue? d)

/-- The code unit that a letter escapes. -/
def escaped? (c : Char) : Option Nat :=
  match c with
  | '"' => some 0x22
  | '\\' => some 0x5C
  | '/' => some 0x2F
  | 'b' => some 0x8
  | 'f' => some 0xC
  | 'n' => some 0xA
  | 'r' => some 0xD
  | 't' => some 0x9
  | _ => none

/-- Reads a string after its opening quote; `done` holds its code units so far, last first. -/
def readString (done : List Nat) : List Char → Option (Option String × List Char)
  | [] => none
  | '"' :: rest => some ((Text.ofUnits? done.reverse).map String.ofList, rest)
  | '\\' :: 'u' :: a :: b :: c :: d :: rest =>
    match hexUnit? a b c d with
    | some unit => readString (unit :: done) rest
    | none => none
  | '\\' :: letter :: rest =>
    match escaped? letter with
    | some unit => readString (unit :: done) rest
    | none => none
  | c :: rest => if c.toNat < 0x20 then none else readString ((Text.units c).reverse ++ done) rest

/-! ### Numbers -/

/-- A run of digits and what follows it. -/
def takeDigits (s : List Char) : List Char × List Char := s.span Char.isDigit

/-- A run of one digit or more, put behind `lead`. -/
def someDigits (lead s : List Char) : Option (List Char × List Char) :=
  match takeDigits s with
  | ([], _) => none
  | (digits, rest) => some (lead ++ digits, rest)

/-- The digits before the point: a zero alone, or a run that starts with another digit. -/
def takeWhole : List Char → Option (List Char × List Char)
  | '0' :: rest => some (['0'], rest)
  | s => someDigits [] s

/-- The point and the digits after it, if there is a point. -/
def takeFraction : List Char → Option (List Char × List Char)
  | '.' :: rest => someDigits ['.'] rest
  | s => some ([], s)

/-- The exponent, if there is one. -/
def takeExponent : List Char → Option (List Char × List Char)
  | c :: rest =>
    if c = 'e' ∨ c = 'E' then
      match rest with
      | '+' :: rest => someDigits [c, '+'] rest
      | '-' :: rest => someDigits [c, '-'] rest
      | rest => someDigits [c] rest
    else some ([], c :: rest)
  | [] => some ([], [])

def readNumber (s : List Char) : Option (String × List Char) := do
  let (sign, s) := match s with
    | '-' :: rest => (['-'], rest)
    | _ => ([], s)
  let (whole, s) ← takeWhole s
  let (fraction, s) ← takeFraction s
  let (exponent, s) ← takeExponent s
  return (String.ofList (sign ++ whole ++ fraction ++ exponent), s)

/-! ### All tokens -/

/-- The token at the start of a text, which is not blank. -/
def next? : List Char → Option (Token × List Char)
  | '[' :: rest => some (openArray, rest)
  | ']' :: rest => some (closeArray, rest)
  | '{' :: rest => some (openObject, rest)
  | '}' :: rest => some (closeObject, rest)
  | ':' :: rest => some (colon, rest)
  | ',' :: rest => some (comma, rest)
  | '"' :: rest => (readString [] rest).map fun r => (string r.1, r.2)
  | 'n' :: 'u' :: 'l' :: 'l' :: rest => some (null, rest)
  | 't' :: 'r' :: 'u' :: 'e' :: rest => some (bool true, rest)
  | 'f' :: 'a' :: 'l' :: 's' :: 'e' :: rest => some (bool false, rest)
  | s => (readNumber s).map fun r => (number r.1, r.2)

/-- The tokens of a text; `done` holds those before it, last first, and each token takes one from
`fuel`, of which the length of the text is enough. -/
def readFrom (done : List Token) : Nat → List Char → Option (List Token)
  | fuel, s =>
    match s.dropWhile isBlank, fuel with
    | [], _ => some done.reverse
    | _, 0 => none
    | s, fuel + 1 =>
      match next? s with
      | some (token, rest) => readFrom (token :: done) fuel rest
      | none => none

/-- The tokens of a text. -/
def ofChars? (s : List Char) : Option (List Token) := readFrom [] s.length s

end Token

end JarPlan.Json
