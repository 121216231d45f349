/-!
# Whole numbers in decimal

Numbers are read from reports and written to reports, arguments and messages. Reading takes an
optional plus sign and at least one digit, and refuses a value of `2 ^ 64` or more.
-/

namespace JarPlan.Text

/-- The digits of a number, most significant first. -/
def decimal (n : Nat) : List Char := Nat.toDigits 10 n

def digitsValue (s : List Char) : Nat := s.foldl (fun n c => 10 * n + (c.toNat - '0'.toNat)) 0

/-- The number that a run of digits denotes. -/
def readDigits? (s : List Char) : Option Nat :=
  if s != [] && s.all Char.isDigit then some (digitsValue s) else none

/-- The number a text denotes, if it has 64 bits. -/
def readWord? (s : List Char) : Option UInt64 := do
  let n ← readDigits? (match s with | '+' :: rest => rest | _ => s)
  if n < UInt64.size then some (UInt64.ofNat n) else none

/-- A number set right in a field of the given width. -/
def padLeft (width : Nat) (fill : Char) (s : List Char) : List Char :=
  List.replicate (width - s.length) fill ++ s

end JarPlan.Text
