import JarPlan.OptionToken.Characters
import JarPlan.OptionToken.Records
import JarPlan.Sorted.Map
import JarPlan.Text.Blank
/-!
# Option tokens

Annotation processor options and compiler arguments travel to the compiler plugin as one Base64 token
each. The payload of the token is the number of entries and then each key and value, every string with
its length in bytes before it. Entries are written in the order of their keys; they are read in any
order, and of two entries with one key the later value counts.
-/

namespace JarPlan.OptionToken

def maxTextLength : Nat := 0xFFFF

def maxCount : Nat := 0x7FFFFFFF

/-! ### Writing -/

/-- The bytes of a string with their number. -/
def encodeString (s : String) : Except Error (List UInt8) :=
  let bytes := encodeText s
  if bytes.length ≤ maxTextLength then .ok (Bytes.bigEndian 2 bytes.length ++ bytes)
  else .error (.stringTooLong bytes.length (String.ofList (s.toList.take 32)))

/-- The bytes of one entry; the key is looked at first. -/
def encodeEntry (e : String × String) : Except Error (List UInt8) := do
  let key ← encodeString e.1
  let value ← encodeString e.2
  return key ++ value

def encodePayload (options : SortedMap String String) : Except Error (List UInt8) := do
  if maxCount < options.size then .error (.tooManyEntries options.size)
  else do
    let entries ← options.entries.mapM encodeEntry
    return Bytes.bigEndian 4 options.size ++ entries.flatten

def encode (options : SortedMap String String) : Except Error String :=
  (encodePayload options).map fun payload => Bytes.Base64.encode (frame payload)

/-! ### Reading -/

def readString (c : Cursor) : Except StreamError (String × Cursor) := do
  let (length, c) ← c.takeNumber 2
  let (bytes, c) ← c.take length
  return (← decodeText bytes, c)

def readEntry (c : Cursor) : Except StreamError ((String × String) × Cursor) := do
  let (key, c) ← readString c
  let (value, c) ← readString c
  return ((key, value), c)

/-- The next `n` entries, put into `options` one after the other. -/
def readEntries : Nat → SortedMap String String → Cursor →
    Except StreamError (SortedMap String String × Cursor)
  | 0, options, c => .ok (options, c)
  | n + 1, options, c => do
    let (entry, c) ← readEntry c
    readEntries n (options.insert entry.1 entry.2) c

/-- The entries of a payload, with nothing after them. -/
def readPayload (payload : List UInt8) : Except StreamError (SortedMap String String) := do
  let (count, c) ← (Cursor.start payload).takeNumber 4
  if maxCount < count then .error (.negativeCount ((count : Int) - 0x100000000))
  else do
    let (options, c) ← readEntries count ∅ c
    if c.rest = [] then .ok options else .error (.trailingBytes c.rest.length count)

def readStream (bytes : List UInt8) : Except StreamError (SortedMap String String) := do
  readPayload (← unframe bytes)

/-- The bytes a token carries; white space around it does not count. -/
def tokenBytes (token : String) : Except Bytes.Base64.Error (List UInt8) :=
  Bytes.Base64.decode (Bytes.utf8 (String.ofList (Text.trim Text.isBlank token.toList)))

def decode (token : String) : Except Error (SortedMap String String) := do
  let bytes ← (tokenBytes token).mapError .invalidBase64
  (readStream bytes).mapError .malformed

end JarPlan.OptionToken
