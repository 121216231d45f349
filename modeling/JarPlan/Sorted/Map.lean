import JarPlan.Sorted.Set
/-!
# Sorted maps

A map is its entries in ascending order of their keys. Inserting at a key that is there already keeps
the key, in its first spelling, and takes the new value.
-/

namespace JarPlan

/-- A finite map, held in ascending order of its keys. -/
structure SortedMap (κ ν : Type) [Ord κ] where
  entries : List (κ × ν)
  ascending : Ascending (compareOn Prod.fst) entries

namespace SortedMap

variable {κ ν : Type} [Ord κ]

@[ext] theorem ext {m n : SortedMap κ ν} (h : m.entries = n.entries) : m = n := by
  cases m
  cases n
  cases h
  rfl

instance [DecidableEq κ] [DecidableEq ν] : DecidableEq (SortedMap κ ν) :=
  fun _ _ => decidable_of_iff _ ⟨ext, congrArg entries⟩

instance [BEq κ] [BEq ν] : BEq (SortedMap κ ν) := ⟨fun m n => m.entries == n.entries⟩

def empty : SortedMap κ ν := ⟨[], .nil⟩

instance : EmptyCollection (SortedMap κ ν) := ⟨empty⟩

instance : Inhabited (SortedMap κ ν) := ⟨empty⟩

def size (m : SortedMap κ ν) : Nat := m.entries.length

def isEmpty (m : SortedMap κ ν) : Bool := m.entries.isEmpty

/-- The value at the key that ties with `k`. -/
def get? (m : SortedMap κ ν) (k : κ) : Option ν :=
  (m.entries.find? fun e => (compare k e.1).isEq).map Prod.snd

variable [Std.TransOrd κ]

/-- Sets the value at `k`. -/
def insert (m : SortedMap κ ν) (k : κ) (v : ν) : SortedMap κ ν :=
  ⟨upsert (compareOn Prod.fst) (fun old new => (old.1, new.2)) (k, v) m.entries, by
    refine m.ascending.upsert (fun old new tie => ?_) (k, v)
    exact Std.OrientedCmp.eq_symm (α := κ) tie⟩

def insertAll (m : SortedMap κ ν) (l : List (κ × ν)) : SortedMap κ ν :=
  l.foldl (fun m e => m.insert e.1 e.2) m

def ofList (l : List (κ × ν)) : SortedMap κ ν := insertAll ∅ l

end SortedMap

end JarPlan
