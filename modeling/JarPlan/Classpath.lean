import JarPlan.Friends
/-!
# Classpaths

The Kotlin compiler gets one classpath from three groups of entries: those given from outside, those the
rule declares and the runtime libraries. Every entry is resolved against the project root and, where it
is a friend with a copy, replaced by the copy, so friends and classpath always name the same file. The
result is a sorted set; neither the group an entry comes from nor the way it is spelled shows in it.
-/

namespace JarPlan.Classpath

/-- The place of an entry, or of its copy. -/
def resolve (root : Path) (copies : SortedMap Path Path) (entry : Path) : Path :=
  (copies.get? (root.absolutize entry)).getD (root.absolutize entry)

/-- The classpath made of the three groups. -/
def compose (root : Path) (extra : List Path) (declared runtime : SortedSet Path)
    (copies : SortedMap Path Path) : SortedSet Path :=
  .collect ((extra ++ declared.toList ++ runtime.toList).map (resolve root copies))

end JarPlan.Classpath
