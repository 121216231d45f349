import JarPlan.Sorted.Ascending
/-!
# Sorted sets

A set is its elements in ascending order, so two sets with the same elements, in the same spellings,
are equal. Where elements may tie without being equal there are two ways to add one: `insert` keeps
the element that was there first, `put` leaves the one that came last. Reading a set from a file and
adding to it one by one go through `insert`; collecting a computed list goes through `put`.
-/

namespace JarPlan

/-- A finite set, held in ascending order. -/
structure SortedSet (α : Type) [Ord α] where
  toList : List α
  ascending : Ascending compare toList

namespace SortedSet

variable {α : Type} [Ord α]

@[ext] theorem ext {s t : SortedSet α} (h : s.toList = t.toList) : s = t := by
  cases s
  cases t
  cases h
  rfl

instance [DecidableEq α] : DecidableEq (SortedSet α) := fun _ _ => decidable_of_iff _ ⟨ext, congrArg toList⟩

/-- Two sets match when their elements do, in order. -/
instance [BEq α] : BEq (SortedSet α) := ⟨fun s t => s.toList == t.toList⟩

def empty : SortedSet α := ⟨[], .nil⟩

instance : EmptyCollection (SortedSet α) := ⟨empty⟩

instance : Inhabited (SortedSet α) := ⟨empty⟩

instance : Membership α (SortedSet α) := ⟨fun s a => a ∈ s.toList⟩

instance [DecidableEq α] (a : α) (s : SortedSet α) : Decidable (a ∈ s) := inferInstanceAs (Decidable (a ∈ s.toList))

def isEmpty (s : SortedSet α) : Bool := s.toList.isEmpty

/-- Whether an element that ties with `a` is there. -/
def contains (s : SortedSet α) (a : α) : Bool := s.toList.any fun b => (compare a b).isEq

def filter (p : α → Bool) (s : SortedSet α) : SortedSet α := ⟨s.toList.filter p, s.ascending.filter p⟩

@[simp] theorem toList_empty : (∅ : SortedSet α).toList = [] := rfl

@[simp] theorem mem_toList {s : SortedSet α} {a : α} : a ∈ s.toList ↔ a ∈ s := Iff.rfl

@[simp] theorem toList_filter (p : α → Bool) (s : SortedSet α) : (s.filter p).toList = s.toList.filter p := rfl

@[simp] theorem mem_filter {p : α → Bool} {s : SortedSet α} {a : α} : a ∈ s.filter p ↔ a ∈ s ∧ p a :=
  List.mem_filter

variable [Std.TransOrd α]

/-- Adds `a`, unless an element that ties with it is there already. -/
def insert (s : SortedSet α) (a : α) : SortedSet α :=
  ⟨upsert compare (fun old _ => old) a s.toList,
    s.ascending.upsert (fun _ _ tie => Std.OrientedCmp.eq_symm tie) a⟩

/-- Adds `a` in place of any element that ties with it. -/
def put (s : SortedSet α) (a : α) : SortedSet α :=
  ⟨upsert compare (fun _ new => new) a s.toList,
    s.ascending.upsert (fun _ _ _ => Std.ReflCmp.compare_self) a⟩

def insertAll (s : SortedSet α) (l : List α) : SortedSet α := l.foldl insert s

/-- Only what is added comes in. -/
theorem mem_of_mem_insert {s : SortedSet α} {a b : α} (h : b ∈ s.insert a) : b = a ∨ b ∈ s := by
  obtain rfl | old | ⟨c, old, -, rfl⟩ := mem_of_mem_upsert h
  · exact .inl rfl
  · exact .inr old
  · exact .inr old

/-- The set of a list; of elements that tie, the first stays. -/
def ofList (l : List α) : SortedSet α := insertAll ∅ l

/-- The set of a list; of elements that tie, the last stays. -/
def collect (l : List α) : SortedSet α := l.foldl put ∅

end SortedSet

end JarPlan
