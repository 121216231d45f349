import JarPlan.OptionToken.Error
import JarPlan.Result
/-!
# Reading bytes in turn

A cursor is what is left of a byte string and how much was read before it. Reading past the end is an
error that names the position reached, so the position is kept for messages alone.
-/

namespace JarPlan.OptionToken

structure Cursor where
  position : Nat
  rest : List UInt8
deriving DecidableEq

namespace Cursor

def start (bytes : List UInt8) : Cursor := ⟨0, bytes⟩

/-- The next `n` bytes, all of them. -/
def take (n : Nat) (c : Cursor) : Except StreamError (List UInt8 × Cursor) :=
  let taken := c.rest.take n
  if taken.length = n then .ok (taken, ⟨c.position + n, c.rest.drop n⟩)
  else .error (.unexpectedEnd c.position)

/-- The number in the next `n` bytes. -/
def takeNumber (n : Nat) (c : Cursor) : Except StreamError (Nat × Cursor) := do
  let (bytes, c) ← c.take n
  return (Bytes.bigEndianValue bytes, c)

theorem take_rest {n : Nat} {c next : Cursor} {bytes : List UInt8} (h : c.take n = .ok (bytes, next)) :
    bytes.length = n ∧ c.rest = bytes ++ next.rest := by
  rw [take] at h
  split at h
  · rename_i whole
    obtain ⟨rfl, rfl⟩ := Prod.mk.inj (Except.ok.inj h)
    exact ⟨whole, (List.take_append_drop n c.rest).symm⟩
  · cases h

theorem takeNumber_rest {n value : Nat} {c next : Cursor} (h : c.takeNumber n = .ok (value, next)) :
    c.rest.length = n + next.rest.length := by
  obtain ⟨⟨bytes, last⟩, taken, result⟩ := bind_eq_ok.1 h
  obtain ⟨-, rfl⟩ := Prod.mk.inj (Except.ok.inj result)
  obtain ⟨length, split⟩ := take_rest taken
  rw [split, List.length_append, length]

end Cursor

end JarPlan.OptionToken
