import JarPlan.OptionToken.Cursor
import JarPlan.Proofs.OptionToken.Grammar
/-!
# What lies between two cursors

A reader that succeeds leaves a cursor behind, and what it took are the bytes between the two cursors.
Stated so, the bytes of two readers in turn are put together by appending them.
-/

namespace JarPlan.OptionToken.Cursor

/-- The bytes that lie between two cursors. -/
def Passes (c : Cursor) (bytes : List UInt8) (next : Cursor) : Prop :=
  c.rest = bytes ++ next.rest ∧ next.position = c.position + bytes.length

theorem passes_of_rest_eq {c : Cursor} {s t : List UInt8} (h : c.rest = s ++ t) :
    c.Passes s ⟨c.position + s.length, t⟩ :=
  ⟨h, rfl⟩

@[simp] theorem passes_nil {c next : Cursor} : c.Passes [] next ↔ next = c := by
  obtain ⟨position, rest⟩ := c
  obtain ⟨nextPosition, nextRest⟩ := next
  simp only [Passes, List.nil_append, List.length_nil, Nat.add_zero, mk.injEq]
  constructor
  · rintro ⟨rfl, rfl⟩
    exact ⟨rfl, rfl⟩
  · rintro ⟨rfl, rfl⟩
    exact ⟨rfl, rfl⟩

theorem passes_append {c next : Cursor} {s t : List UInt8} :
    c.Passes (s ++ t) next ↔ ∃ mid, c.Passes s mid ∧ mid.Passes t next := by
  constructor
  · rintro ⟨hrest, hposition⟩
    refine ⟨⟨c.position + s.length, t ++ next.rest⟩, ⟨?_, rfl⟩, rfl, ?_⟩
    · rw [hrest, List.append_assoc]
    · rw [hposition, List.length_append, Nat.add_assoc]
  · rintro ⟨mid, ⟨hrest, hposition⟩, hrest', hposition'⟩
    refine ⟨?_, ?_⟩
    · rw [hrest, hrest', List.append_assoc]
    · rw [hposition', hposition, List.length_append, Nat.add_assoc]

theorem take_eq_ok_iff {n : Nat} {c next : Cursor} {bytes : List UInt8} :
    c.take n = .ok (bytes, next) ↔ bytes.length = n ∧ c.Passes bytes next := by
  constructor
  · intro h
    obtain ⟨hlen, hrest⟩ := take_rest h
    refine ⟨hlen, hrest, ?_⟩
    rw [take] at h
    split at h
    · obtain ⟨-, rfl⟩ := Prod.mk.inj (Except.ok.inj h)
      rw [hlen]
    · cases h
  · rintro ⟨rfl, hrest, hposition⟩
    rw [take, hrest, List.take_left, List.drop_left, ← hposition]
    exact if_pos rfl

theorem takeNumber_eq_ok_iff {n value : Nat} {c next : Cursor} :
    c.takeNumber n = .ok (value, next) ↔
      ∃ bytes, bytes.length = n ∧ Bytes.bigEndianValue bytes = value ∧ c.Passes bytes next := by
  rw [takeNumber, bind_eq_ok]
  constructor
  · rintro ⟨⟨bytes, mid⟩, htake, hvalue⟩
    obtain ⟨rfl, rfl⟩ := Prod.mk.inj (Except.ok.inj hvalue)
    obtain ⟨hlen, hpasses⟩ := take_eq_ok_iff.1 htake
    exact ⟨bytes, hlen, rfl, hpasses⟩
  · rintro ⟨bytes, hlen, rfl, hpasses⟩
    exact ⟨(bytes, next), take_eq_ok_iff.2 ⟨hlen, hpasses⟩, rfl⟩

theorem takeNumber_one_eq_ok_iff {value : Nat} {c next : Cursor} :
    c.takeNumber 1 = .ok (value, next) ↔ ∃ a : UInt8, a.toNat = value ∧ c.Passes [a] next := by
  rw [takeNumber_eq_ok_iff]
  constructor
  · rintro ⟨bytes, hlen, hvalue, hpasses⟩
    obtain ⟨a, rfl⟩ := List.length_eq_one_iff.1 hlen
    exact ⟨a, by simpa [Bytes.bigEndianValue] using hvalue, hpasses⟩
  · rintro ⟨a, rfl, hpasses⟩
    exact ⟨[a], rfl, by simp [Bytes.bigEndianValue], hpasses⟩

theorem bigEndianValue_pair (a b : UInt8) : Bytes.bigEndianValue [a, b] = a.toNat * 0x100 + b.toNat := by
  simp [Bytes.bigEndianValue, Nat.mul_comm]

theorem bigEndianValue_quad (a b c d : UInt8) : Bytes.bigEndianValue [a, b, c, d] = quad a b c d := by
  simp [Bytes.bigEndianValue, quad, Nat.mul_comm]

theorem takeNumber_two_eq_ok_iff {value : Nat} {c next : Cursor} :
    c.takeNumber 2 = .ok (value, next) ↔
      ∃ a b : UInt8, a.toNat * 0x100 + b.toNat = value ∧ c.Passes [a, b] next := by
  rw [takeNumber_eq_ok_iff]
  constructor
  · rintro ⟨bytes, hlen, rfl, hpasses⟩
    match bytes, hlen with
    | [a, b], _ => exact ⟨a, b, (bigEndianValue_pair a b).symm, hpasses⟩
  · rintro ⟨a, b, rfl, hpasses⟩
    exact ⟨[a, b], rfl, bigEndianValue_pair a b, hpasses⟩

theorem takeNumber_four_eq_ok_iff {value : Nat} {c next : Cursor} :
    c.takeNumber 4 = .ok (value, next) ↔
      ∃ a b d e : UInt8, quad a b d e = value ∧ c.Passes [a, b, d, e] next := by
  rw [takeNumber_eq_ok_iff]
  constructor
  · rintro ⟨bytes, hlen, rfl, hpasses⟩
    match bytes, hlen with
    | [a, b, d, e], _ => exact ⟨a, b, d, e, (bigEndianValue_quad a b d e).symm, hpasses⟩
  · rintro ⟨a, b, d, e, rfl, hpasses⟩
    exact ⟨[a, b, d, e], rfl, bigEndianValue_quad a b d e, hpasses⟩

end JarPlan.OptionToken.Cursor
