import JarPlan.OptionToken.Error
import JarPlan.Text.Utf16
/-!
# Modified UTF-8

The strings of an option stream are written one UTF-16 code unit at a time, each in one, two or three
bytes. It differs from UTF-8 twice: the unit zero takes two bytes, so no byte of a string is zero, and
a character beyond the basic plane is written as its two surrogates, in six bytes. Reading accepts any
unit in any of the three widths, and then requires that the units pair up.
-/

namespace JarPlan.OptionToken

/-- The bytes of a code unit. -/
def unitBytes (u : Nat) : List UInt8 :=
  if 0 < u ∧ u < 0x80 then [UInt8.ofNat u]
  else if u < 0x800 then [UInt8.ofNat (0xC0 + u / 0x40), UInt8.ofNat (0x80 + u % 0x40)]
  else [UInt8.ofNat (0xE0 + u / 0x1000), UInt8.ofNat (0x80 + u / 0x40 % 0x40), UInt8.ofNat (0x80 + u % 0x40)]

def charBytes (c : Char) : List UInt8 := (Text.units c).flatMap unitBytes

def encodeText (s : String) : List UInt8 := s.toList.flatMap charBytes

/-- The six bits of a byte that continues a sequence. -/
def continuation? (b : UInt8) : Option Nat :=
  if b.toNat / 0x40 = 2 then some (b.toNat % 0x40) else none

/-- The code units of a byte string; `done` holds those read before, last first. -/
def readUnits (done : List Nat) : List UInt8 → Except StreamError (List Nat)
  | [] => .ok done.reverse
  | b :: rest =>
    if b.toNat < 0x80 then readUnits (b.toNat :: done) rest
    else if b.toNat / 0x20 = 6 then
      match rest with
      | b2 :: rest =>
        match continuation? b2 with
        | some low => readUnits ((b.toNat % 0x20 * 0x40 + low) :: done) rest
        | none => .error .truncatedCharacter
      | [] => .error .truncatedCharacter
    else if b.toNat / 0x10 = 14 then
      match rest with
      | b2 :: b3 :: rest =>
        match continuation? b2, continuation? b3 with
        | some mid, some low => readUnits ((b.toNat % 0x10 * 0x1000 + mid * 0x40 + low) :: done) rest
        | _, _ => .error .truncatedCharacter
      | _ => .error .truncatedCharacter
    else .error (.invalidLead b)

def decodeText (bytes : List UInt8) : Except StreamError String := do
  let units ← readUnits [] bytes
  match Text.ofUnits? units with
  | some chars => .ok (String.ofList chars)
  | none => .error .loneSurrogate

end JarPlan.OptionToken
