import JarPlan.OptionToken.Cursor
/-!
# Block records

An option stream is a header of four bytes and then records, each a tag, a length and that many bytes.
A record has a length of one byte or of four. Writing cuts the payload into blocks of 1024 bytes and
uses the short form up to 255 bytes; reading takes records of any length, in either form, and the
payload is all their bodies together.
-/

namespace JarPlan.OptionToken

def header : List UInt8 := [0xAC, 0xED, 0x00, 0x05]

def shortTag : UInt8 := 0x77

def longTag : UInt8 := 0x7A

def blockSize : Nat := 1024

/-! ### Writing -/

/-- A record with its tag and length. -/
def record (block : List UInt8) : List UInt8 :=
  if block.length ≤ 0xFF then shortTag :: UInt8.ofNat block.length :: block
  else longTag :: Bytes.bigEndian 4 block.length ++ block

def frame (payload : List UInt8) : List UInt8 :=
  header ++ (Bytes.chunks blockSize payload).flatMap record

/-! ### Reading -/

/-- The length of the next record, read from its tag and length field. -/
def readLength (c : Cursor) : Except StreamError (Nat × Cursor) := do
  let (tag, c) ← c.takeNumber 1
  if tag = shortTag.toNat then c.takeNumber 1
  else if tag = longTag.toNat then c.takeNumber 4
  else .error (.unexpectedRecord (UInt8.ofNat tag))

/-- The body of the next record. -/
def readRecord (c : Cursor) : Except StreamError (List UInt8 × Cursor) := do
  let (length, c) ← readLength c
  c.take length

theorem readLength_rest {c next : Cursor} {length : Nat} (h : readLength c = .ok (length, next)) :
    next.rest.length < c.rest.length := by
  obtain ⟨⟨tag, tagged⟩, first, second⟩ := bind_eq_ok.1 h
  have := Cursor.takeNumber_rest first
  dsimp only at second
  split at second
  · have := Cursor.takeNumber_rest second
    omega
  · split at second
    · have := Cursor.takeNumber_rest second
      omega
    · cases second

/-- Reading a record uses up bytes. -/
theorem readRecord_rest {c next : Cursor} {body : List UInt8} (h : readRecord c = .ok (body, next)) :
    next.rest.length < c.rest.length := by
  obtain ⟨⟨length, sized⟩, first, second⟩ := bind_eq_ok.1 h
  have shorter := readLength_rest first
  have split := congrArg List.length (Cursor.take_rest second).2
  rw [List.length_append] at split
  omega

/-- The bodies of all records; `done` holds those read before, last first. -/
def readRecords (done : List (List UInt8)) (c : Cursor) : Except StreamError (List UInt8) :=
  if c.rest = [] then .ok done.reverse.flatten
  else
    match h : readRecord c with
    | .error e => .error e
    | .ok (body, next) =>
      have := readRecord_rest h
      readRecords (body :: done) next
termination_by c.rest.length

/-- The payload of a stream. -/
def unframe (bytes : List UInt8) : Except StreamError (List UInt8) := do
  let (magic, c) ← (Cursor.start bytes).take 2
  if magic ≠ header.take 2 then .error .missingHeader
  else do
    let (version, c) ← c.take 2
    if version ≠ header.drop 2 then .error .missingHeader else readRecords [] c

end JarPlan.OptionToken
