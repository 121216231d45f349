/-!
# Paths

A path is a text that keeps its spelling and is compared by its components. Cut at the slashes, a path
is a row of segments; an empty segment and a single dot name nothing, so `a//b/.` and `a/b` are two
spellings of one list of components. Two segments are special where they come first: an empty one
with a slash after it is the root, and a dot is the directory itself, which is why `./a` and `a`
differ.

Components are ordered with the root first, then the dot, then `..`, then names by code point. Paths
are ordered by their lists of components, so a directory comes before all that lies in it.

All paths here are texts in UTF-8. A file system also has paths of other bytes; shown as a text, such a
path loses what cannot be decoded, and nothing here speaks of it.
-/

namespace JarPlan

inductive Component where
  /-- The leading slash. -/
  | root
  /-- A leading dot. -/
  | here
  /-- The parent directory. -/
  | up
  | name (text : String)
deriving DecidableEq

namespace Component

def rank : Component → Nat
  | root => 0
  | here => 1
  | up => 2
  | name _ => 3

def text : Component → String
  | root => "/"
  | here => "."
  | up => ".."
  | name text => text

instance : Ord Component := ⟨compareLex (compareOn rank) (compareOn text)⟩

instance : Std.TransOrd Component :=
  inferInstanceAs (Std.TransCmp (compareLex (compareOn rank) (compareOn text)))

theorem eq_of_rank_of_text : ∀ {a b : Component}, a.rank = b.rank → a.text = b.text → a = b
  | root, root, _, _ => rfl
  | here, here, _, _ => rfl
  | up, up, _, _ => rfl
  | name _, name _, _, text => congrArg name text

instance : Std.LawfulEqOrd Component where
  eq_of_compare {a b} tie := by
    obtain ⟨rank, text⟩ := Ordering.then_eq_eq.1 tie
    exact eq_of_rank_of_text (Std.LawfulEqOrd.eq_of_compare rank) (Std.LawfulEqOrd.eq_of_compare text)

/-- The component a segment names inside a path. -/
def ofSegment (s : List Char) : Component := if s = ['.', '.'] then up else name (String.ofList s)

end Component

/-- The text of a path. -/
structure Path where
  spelling : String
deriving DecidableEq

namespace Path

instance : Inhabited Path := ⟨⟨""⟩⟩

/-- A segment that names nothing. -/
def isVoid (s : List Char) : Bool := s.isEmpty || s == ['.']

def segments (p : Path) : List (List Char) := p.spelling.toList.splitOn '/'

/-- The first segment, where it is special: the root or a dot. -/
def lead (p : Path) : Option Component :=
  match p.segments with
  | [] :: _ :: _ => some .root
  | ['.'] :: _ => some .here
  | _ => none

/-- The segments after the lead. -/
def body (p : Path) : List (List Char) :=
  match p.segments with
  | [] :: second :: rest => second :: rest
  | ['.'] :: rest => rest
  | segments => segments

/-- The components of a path, in order. -/
def components (p : Path) : List Component :=
  p.lead.toList ++ (p.body.filter (!isVoid ·)).map Component.ofSegment

/-- Two paths match when they have the same components, whatever their spelling. -/
instance : BEq Path := ⟨fun p q => p.components == q.components⟩

theorem beq_iff {p q : Path} : (p == q) = true ↔ p.components = q.components :=
  beq_iff_eq (a := p.components)

instance : Ord Path := ⟨compareOn components⟩

instance : Std.TransOrd Path := inferInstanceAs (Std.TransCmp (compareOn components))

def isAbsolute (p : Path) : Bool := p.spelling.toList.head? == some '/'

/-- Whether `p` is `dir` or lies below it. -/
def startsWith (p dir : Path) : Bool := dir.components.isPrefixOf p.components

@[simp] theorem startsWith_self (p : Path) : p.startsWith p = true :=
  List.isPrefixOf_iff_prefix.2 (List.prefix_refl p.components)

theorem startsWith_trans {p q dir : Path} (h : p.startsWith q = true) (g : q.startsWith dir = true) :
    p.startsWith dir = true :=
  List.isPrefixOf_iff_prefix.2
    ((List.isPrefixOf_iff_prefix.1 g).trans (List.isPrefixOf_iff_prefix.1 h))

/-- The name of the last component; the root, a lone dot and `..` have none. -/
def fileName? (p : Path) : Option String :=
  match p.components.getLast? with
  | some (.name text) => some text
  | _ => none

/-- What follows the last dot of the file name; a dot that comes first starts no extension. -/
def extension? (p : Path) : Option String := do
  let name ← p.fileName?
  let tail := name.toList.reverse.takeWhile (· != '.')
  if tail.length + 1 < name.length then some (String.ofList tail.reverse) else none

end Path

end JarPlan
