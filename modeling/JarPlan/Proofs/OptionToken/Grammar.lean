import JarPlan.Text.Utf16
/-!
# The grammar of option streams

What an option stream is, said without a reader. A stream is a header and records, and the bodies of the
records together are a payload. A payload is a count and that many pairs of strings, a string is its
length and its text, and the text is a row of UTF-16 code units, each in a form of one, two or three
bytes. The forms overlap, so one unit may be written in several ways, and a payload may be cut into
records anywhere.
-/

namespace JarPlan.OptionToken

/-- The bytes of a code unit; `high`, `mid` and `low` are the bits that a byte has left for it. -/
inductive IsCodeUnit : List UInt8 → Nat → Prop where
  /-- `0xxxxxxx` -/
  | one (low : Nat) (hlow : low < 0x80) : IsCodeUnit [UInt8.ofNat low] low
  /-- `110xxxxx 10xxxxxx` -/
  | two (high low : Nat) (hhigh : high < 0x20) (hlow : low < 0x40) :
    IsCodeUnit [UInt8.ofNat (0xC0 + high), UInt8.ofNat (0x80 + low)] (high * 0x40 + low)
  /-- `1110xxxx 10xxxxxx 10xxxxxx` -/
  | three (high mid low : Nat) (hhigh : high < 0x10) (hmid : mid < 0x40) (hlow : low < 0x40) :
    IsCodeUnit [UInt8.ofNat (0xE0 + high), UInt8.ofNat (0x80 + mid), UInt8.ofNat (0x80 + low)]
      (high * 0x1000 + mid * 0x40 + low)

/-- A row of code units, one behind the other. -/
inductive IsCodeUnits : List UInt8 → List Nat → Prop where
  | nil : IsCodeUnits [] []
  | cons {first rest : List UInt8} {u : Nat} {us : List Nat} (hfirst : IsCodeUnit first u)
    (hrest : IsCodeUnits rest us) : IsCodeUnits (first ++ rest) (u :: us)

/-- A text: the code units are those of `s` in UTF-16, so each surrogate has its partner. -/
def IsText (bytes : List UInt8) (s : String) : Prop := IsCodeUnits bytes (s.toList.flatMap Text.units)

/-- A string: its length in two bytes, and a text of just that length. -/
inductive IsString : List UInt8 → String → Prop where
  | mk (a b : UInt8) {text : List UInt8} {s : String} (hlength : text.length = a.toNat * 0x100 + b.toNat)
    (htext : IsText text s) : IsString (a :: b :: text) s

/-- Pairs of a key and a value, one behind the other. -/
inductive IsPairs : List UInt8 → List (String × String) → Prop where
  | nil : IsPairs [] []
  | cons {key value rest : List UInt8} {k v : String} {pairs : List (String × String)}
    (hkey : IsString key k) (hvalue : IsString value v) (hrest : IsPairs rest pairs) :
    IsPairs (key ++ value ++ rest) ((k, v) :: pairs)

/-- The number in four bytes, most significant first. -/
def quad (a b c d : UInt8) : Nat := ((a.toNat * 0x100 + b.toNat) * 0x100 + c.toNat) * 0x100 + d.toNat

/-- A payload: a signed count of 32 bits, just as many pairs, and nothing behind them. -/
inductive IsPayload : List UInt8 → List (String × String) → Prop where
  | mk (a b c d : UInt8) {rest : List UInt8} {pairs : List (String × String)}
    (hcount : (BitVec.ofNat 32 (quad a b c d)).toInt = pairs.length) (hpairs : IsPairs rest pairs) :
    IsPayload (a :: b :: c :: d :: rest) pairs

/-- A record with its body, whose length stands before it in one byte or in four. -/
inductive IsRecord : List UInt8 → List UInt8 → Prop where
  | short (a : UInt8) {body : List UInt8} (hlength : body.length = a.toNat) :
    IsRecord (0x77 :: a :: body) body
  | long (a b c d : UInt8) {body : List UInt8} (hlength : body.length = quad a b c d) :
    IsRecord (0x7A :: a :: b :: c :: d :: body) body

/-- Records with their bodies, one behind the other. -/
inductive IsRecords : List UInt8 → List (List UInt8) → Prop where
  | nil : IsRecords [] []
  | cons {first rest body : List UInt8} {bodies : List (List UInt8)} (hfirst : IsRecord first body)
    (hrest : IsRecords rest bodies) : IsRecords (first ++ rest) (body :: bodies)

/-- A header and records with the given bodies. -/
def IsFramed (bytes : List UInt8) (bodies : List (List UInt8)) : Prop :=
  ∃ records, bytes = [0xAC, 0xED, 0x00, 0x05] ++ records ∧ IsRecords records bodies

/-- An option stream that holds the given pairs, in this order. -/
def IsStream (bytes : List UInt8) (pairs : List (String × String)) : Prop :=
  ∃ bodies, IsFramed bytes bodies ∧ IsPayload bodies.flatten pairs

end JarPlan.OptionToken
