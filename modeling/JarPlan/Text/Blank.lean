/-!
# White space

The characters trimmed from tokens and report lines are those with the Unicode property `White_Space`,
twenty-five in all. `trim` works with any class of characters, so the same function takes the blanks
off a line and the slashes off a base path.
-/

namespace JarPlan.Text

/-- The ranges of the property `White_Space`. -/
def blankRanges : List (Nat × Nat) :=
  [(0x9, 0xD), (0x20, 0x20), (0x85, 0x85), (0xA0, 0xA0), (0x1680, 0x1680), (0x2000, 0x200A),
    (0x2028, 0x2029), (0x202F, 0x202F), (0x205F, 0x205F), (0x3000, 0x3000)]

def isBlank (c : Char) : Bool := blankRanges.any fun r => r.1 ≤ c.toNat && c.toNat ≤ r.2

/-- Drops the characters of a class at the end of a text. -/
def trimEnd {α : Type} (p : α → Bool) (s : List α) : List α := (s.reverse.dropWhile p).reverse

/-- Drops the characters of a class at both ends of a text. -/
def trim {α : Type} (p : α → Bool) (s : List α) : List α := trimEnd p (s.dropWhile p)

@[simp] theorem trim_nil {α : Type} (p : α → Bool) : trim p ([] : List α) = [] := rfl

end JarPlan.Text
