import JarPlan.Bytes.Chunks
/-!
# Base64

The standard alphabet with padding. Decoding is strict: the padding has to be there, and the bits that
a short last group leaves over have to be zero, so every byte string has one text. A text may be wrong
in several ways at once, and the order in which they are looked for decides which one is named: a
stray byte at the end of a text of length `4 k + 1`, then the groups before the last one, then the
last group from left to right, then its length, its padding and its unused bits.
-/

namespace JarPlan.Bytes.Base64

/-- What is wrong with a text. -/
inductive Error where
  | invalidByte (offset : Nat) (byte : UInt8)
  | invalidLength (length : Nat)
  | invalidPadding
  | invalidLastSymbol (offset : Nat) (byte : UInt8)
deriving DecidableEq

def Error.message : Error → String
  | invalidByte offset byte => s!"Invalid symbol {byte.toNat}, offset {offset}."
  | invalidLength length => s!"Invalid input length: {length}"
  | invalidPadding => "Invalid padding"
  | invalidLastSymbol offset byte => s!"Invalid last symbol {byte.toNat}, offset {offset}."

def alphabet : List Char := "ABCDEFGHIJKLMNOPQRSTUVWXYZabcdefghijklmnopqrstuvwxyz0123456789+/".toList

def pad : UInt8 := 61

/-! ### Encoding -/

/-- The symbol of a number below 64. -/
def symbol (n : Nat) : Char := alphabet.getD n '='

/-- The four characters of a group of one, two or three bytes. -/
def encodeGroup : List UInt8 → List Char
  | [a, b, c] =>
    let n := bigEndianValue [a, b, c]
    [symbol (n / 262144), symbol (n / 4096 % 64), symbol (n / 64 % 64), symbol (n % 64)]
  | [a, b] =>
    let n := 4 * bigEndianValue [a, b]
    [symbol (n / 4096), symbol (n / 64 % 64), symbol (n % 64), '=']
  | [a] =>
    let n := 16 * bigEndianValue [a]
    [symbol (n / 64), symbol (n % 64), '=', '=']
  | _ => []

def encode (bytes : List UInt8) : String := String.ofList ((chunks 3 bytes).flatMap encodeGroup)

/-! ### Decoding -/

/-- The number that a byte of the text stands for. -/
def value? (byte : UInt8) : Option Nat := alphabet.idxOf? (Char.ofNat byte.toNat)

/-- The values of a run of symbols that starts at `offset`; `done` holds those before, last first. -/
def values (done : List Nat) (offset : Nat) : List UInt8 → Except Error (List Nat)
  | [] => .ok done.reverse
  | byte :: rest =>
    match value? byte with
    | some n => values (n :: done) (offset + 1) rest
    | none => .error (.invalidByte offset byte)

/-- The last group: the values of its symbols, and how many paddings follow them. -/
structure LastGroup where
  symbols : List Nat := []
  paddings : Nat := 0

/-- Reads the last group, which starts at `start`. -/
def lastGroup (start : Nat) (group : LastGroup) : List UInt8 → Except Error LastGroup
  | [] => .ok group
  | byte :: rest =>
    let count := group.symbols.length
    if byte = pad then
      if count + group.paddings < 2 then .error (.invalidByte (start + count + group.paddings) byte)
      else lastGroup start { group with paddings := group.paddings + 1 } rest
    else if 0 < group.paddings then .error (.invalidByte (start + count) pad)
    else match value? byte with
      | some n => lastGroup start { group with symbols := group.symbols ++ [n] } rest
      | none => .error (.invalidByte (start + count) byte)

/-- The bytes of a group of two, three or four symbols. -/
def decodeGroup : List Nat → List UInt8
  | [a, b, c, d] => bigEndian 3 (((a * 64 + b) * 64 + c) * 64 + d)
  | [a, b, c] => bigEndian 2 (((a * 64 + b) * 64 + c) / 4)
  | [a, b] => bigEndian 1 ((a * 64 + b) / 16)
  | _ => []

/-- The bits of the last symbol that no byte takes. -/
def unusedBits : List Nat → Nat
  | [_, _, c] => c % 4
  | [_, b] => b % 16
  | _ => 0

/-- A byte that can stand nowhere, one place into a group at the end of the text. -/
def strayEnd? (text : List UInt8) : Option UInt8 :=
  text.getLast?.filter fun byte => text.length % 4 = 1 && byte != pad && (value? byte).isNone

/-- Where the last group starts; a text of whole groups has its last group whole. -/
def lastStart (length : Nat) : Nat := if length % 4 = 0 then length - 4 else length - length % 4

/-- What is wrong with a last group whose bytes are all in place. -/
def LastGroup.fault? (group : LastGroup) (start : Nat) (text : List UInt8) : Option Error :=
  let count := group.symbols.length
  if text ≠ [] ∧ count < 2 then some (.invalidLength (start + count))
  else if (count + group.paddings) % 4 ≠ 0 then some .invalidPadding
  else if unusedBits group.symbols ≠ 0 then
    some (.invalidLastSymbol (start + count - 1) (text.getD (start + count - 1) 0))
  else none

def decode (text : List UInt8) : Except Error (List UInt8) :=
  let start := lastStart text.length
  match strayEnd? text with
  | some byte => .error (.invalidByte (text.length - 1) byte)
  | none => do
    let full ← values [] 0 (text.take start)
    let last ← lastGroup start {} (text.drop start)
    match last.fault? start text with
    | some fault => .error fault
    | none => .ok ((chunks 4 full).flatMap decodeGroup ++ decodeGroup last.symbols)

end JarPlan.Bytes.Base64
