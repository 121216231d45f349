import JarPlan.Path.Basic
import JarPlan.Text.Blank
/-!
# Resolving paths

Joining puts one path below another, `normalize` works out the dots, and `absolutize` does both, which
is how every path that a compiler sees is formed. Normalizing is lexical: a `..` takes away the name
before it, stays at the root, and is kept where nothing stands before it. The result is spelled from
its components, so two paths with the same components normalize to the same text.

`parent?` and `stripLead?` cut a path and leave the rest as it was spelled, except that segments which
name nothing are dropped at the edges of the cut.
-/

namespace JarPlan.Path

/-! ### Spelling components -/

/-- The path spelled from a lead and the segments after it. -/
def ofParts (lead : Option Component) (body : List (List Char)) : Path :=
  match lead with
  | some .root => ⟨String.ofList ('/' :: ['/'].intercalate body)⟩
  | some c => ⟨String.ofList (['/'].intercalate (c.text.toList :: body))⟩
  | none => ⟨String.ofList (['/'].intercalate body)⟩

/-- The plain spelling of a list of components. -/
def ofComponents : List Component → Path
  | .root :: rest => ofParts (some .root) (rest.map (·.text.toList))
  | components => ofParts none (components.map (·.text.toList))

/-! ### Joining -/

/-- `q` seen from `p`: an absolute `q` stands for itself, any other is put below `p`. -/
def join (p q : Path) : Path :=
  if q.isAbsolute then q
  else if p.spelling.isEmpty || p.spelling.toList.getLast? == some '/' then ⟨p.spelling ++ q.spelling⟩
  else ⟨p.spelling ++ "/" ++ q.spelling⟩

/-- The entry `name` of the directory `p`. -/
def entry (p : Path) (name : String) : Path := p.join ⟨name⟩

/-! ### Cutting -/

/-- The directory that holds `p`. -/
def parent? (p : Path) : Option Path :=
  match (Text.trimEnd isVoid p.body), p.lead with
  | [], some .here => some ⟨""⟩
  | [], _ => none
  | body, lead => some (ofParts lead (Text.trimEnd isVoid body.dropLast))

/-- The segments left when `n` components have been passed, from the next component on. -/
def passed : Nat → List (List Char) → List (List Char)
  | _, [] => []
  | n, s :: rest =>
    if isVoid s then passed n rest
    else match n with
      | 0 => s :: rest
      | n + 1 => passed n rest

/-- What is left of `p` below `dir`, where `p` starts with `dir`. -/
def stripLead? (p dir : Path) : Option Path :=
  if p.startsWith dir then
    match dir.components.length with
    | 0 => some (ofParts p.lead (Text.trimEnd isVoid p.body))
    | n + 1 =>
      let below := if p.lead.isSome then n else n + 1
      some (ofParts none (Text.trimEnd isVoid (passed below p.body)))
  else none

/-! ### Normal form -/

/-- Takes in one component; `stack` holds the components so far, last first. -/
def resolveStep (stack : List Component) (c : Component) : List Component :=
  match c, stack with
  | .here, _ => stack
  | .up, .name _ :: below => below
  | .up, .root :: _ => stack
  | _, _ => c :: stack

/-- The components with dots and `..` worked out. -/
def resolve (components : List Component) : List Component := (components.foldl resolveStep []).reverse

/-- The plain path to the same place. -/
def normalize (p : Path) : Path := ofComponents (resolve p.components)

/-- The plain path to `p` seen from `root`. -/
def absolutize (root p : Path) : Path := normalize (root.join p)

/-- `p` as seen from `root`, where it lies below it. -/
def relativize (root p : Path) : Path := (p.stripLead? root).getD p

end JarPlan.Path
