/-!
# Chunks and words

A byte string is cut into chunks of equal length, of which the last may be shorter, and words are
written with the most significant byte first. Base64, the option stream and the digest all work on
such chunks.
-/

namespace JarPlan.Bytes

/-- The cut behind `chunks`: `done` holds the finished chunks and `chunk` the one being filled, both
last first, and `room` is what the latter still takes. -/
def chunksFrom {α : Type} (n : Nat) (done : List (List α)) : Nat → List α → List α → List (List α)
  | _, chunk, [] => (if chunk.isEmpty then done else chunk.reverse :: done).reverse
  | 0, chunk, a :: rest => chunksFrom n (chunk.reverse :: done) (n - 1) [a] rest
  | room + 1, chunk, a :: rest => chunksFrom n done room (a :: chunk) rest

/-- The list cut into chunks of `n` elements, for a positive `n`. -/
def chunks {α : Type} (n : Nat) (l : List α) : List (List α) := chunksFrom n [] n [] l

theorem flatten_chunksFrom {α : Type} (n : Nat) (done : List (List α)) (room : Nat) (chunk l : List α) :
    (chunksFrom n done room chunk l).flatten = done.reverse.flatten ++ chunk.reverse ++ l := by
  induction l generalizing done room chunk with
  | nil => cases chunk <;> simp [chunksFrom]
  | cons a rest ih => cases room <;> simp [chunksFrom, ih]

/-- Cutting loses nothing. -/
@[simp] theorem flatten_chunks {α : Type} (n : Nat) (l : List α) : (chunks n l).flatten = l := by
  simp [chunks, flatten_chunksFrom]

/-- The last `n` bytes of a number, most significant first. -/
def bigEndian : Nat → Nat → List UInt8
  | 0, _ => []
  | n + 1, value => bigEndian n (value / 256) ++ [UInt8.ofNat value]

/-- The number that a byte string denotes, most significant byte first. -/
def bigEndianValue (bytes : List UInt8) : Nat := bytes.foldl (fun n b => 256 * n + b.toNat) 0

@[simp] theorem length_bigEndian (n value : Nat) : (bigEndian n value).length = n := by
  induction n generalizing value with
  | zero => rfl
  | succ n ih => simp [bigEndian, ih]

theorem bigEndianValue_append_singleton (bytes : List UInt8) (b : UInt8) :
    bigEndianValue (bytes ++ [b]) = 256 * bigEndianValue bytes + b.toNat := by
  simp [bigEndianValue]

/-- The bytes of a text in UTF-8. -/
def utf8 (s : String) : List UInt8 := s.toList.flatMap String.utf8EncodeChar

/-- A hexadecimal digit in the given case. -/
def hexDigit (upper : Bool) (n : Nat) : Char :=
  if n < 10 then Char.ofNat ('0'.toNat + n)
  else Char.ofNat ((if upper then 'A' else 'a').toNat + (n - 10))

/-- The two hexadecimal digits of a byte. -/
def hexByte (upper : Bool) (b : UInt8) : List Char :=
  [hexDigit upper (b.toNat / 16), hexDigit upper (b.toNat % 16)]

def hex (bytes : List UInt8) : String := String.ofList (bytes.flatMap (hexByte false))

end JarPlan.Bytes
