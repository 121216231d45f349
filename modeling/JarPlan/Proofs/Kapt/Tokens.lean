import JarPlan.Kapt.Settings
import JarPlan.Proofs.OptionToken.Limits
import JarPlan.Proofs.Sorted.Map
/-!
# Settings that fit into tokens

The options of the plugin can be put together as soon as the two tokens among them can be written. The first
holds the processor options, and the second one has room for all but a language level that is too long. So
what is refused is the first text that does not fit, of the processor options and then of the level.
-/

namespace JarPlan

namespace Kapt.Settings

theorem entries_levels (level : String) :
    (levels (some level)).entries = [("-source", level), ("-target", level)] := by
  have hascending : Ascending (compareOn Prod.fst) [("-source", level), ("-target", level)] :=
    List.pairwise_pair.2 (by decide : compare "-source" "-target" = .lt)
  exact SortedMap.entries_insertAll (m := ∅) hascending

/-- The language levels themselves are the only texts of their map that can be too long. -/
theorem find?_strings_levels (level : Option String) :
    (OptionToken.strings (levels level)).find? (fun s => ¬ OptionToken.Fits s) =
      level.toList.find? (fun s => ¬ OptionToken.Fits s) := by
  cases level with
  | none => rfl
  | some level =>
    have hstrings : OptionToken.strings (levels (some level)) = ["-source", level, "-target", level] := by
      rw [OptionToken.strings, entries_levels]
      rfl
    have hsource : OptionToken.Fits "-source" := by decide
    have htarget : OptionToken.Fits "-target" := by decide
    rw [hstrings]
    by_cases hlevel : OptionToken.Fits level <;> simp [hsource, htarget, hlevel]

theorem size_levels_le (level : Option String) : (levels level).size ≤ OptionToken.maxCount := by
  cases level with
  | none => decide
  | some level =>
    rw [SortedMap.size, entries_levels]
    exact (by decide : 2 ≤ OptionToken.maxCount)

section Tokens
variable {s : Settings} (root : Path)

theorem pluginOptions_of_count (hsize : OptionToken.maxCount < s.options.size) :
    s.pluginOptions root = .error (.encoding (.tooManyEntries s.options.size)) := by
  rw [pluginOptions, OptionToken.encode_of_count hsize]
  rfl

variable {level : Option String} (hlevel : s.javacArguments = levels level)
  (hsize : s.options.size ≤ OptionToken.maxCount)
include hlevel hsize

theorem pluginOptions_of_find? {text : String}
    (h : (OptionToken.strings s.options ++ level.toList).find? (fun s => ¬ OptionToken.Fits s) = some text) :
    s.pluginOptions root = .error (.encoding (OptionToken.tooLong text)) := by
  rw [List.find?_append] at h
  cases hoptions : (OptionToken.strings s.options).find? fun s => ¬ OptionToken.Fits s with
  | some first =>
    rw [hoptions, Option.some_or] at h
    obtain rfl := Option.some.inj h
    rw [pluginOptions, OptionToken.encode_of_find? hsize hoptions]
    rfl
  | none =>
    rw [hoptions, Option.none_or, ← find?_strings_levels, ← hlevel] at h
    obtain ⟨token, htoken⟩ := OptionToken.encode_of_fits hsize (OptionToken.find?_eq_none_iff.1 hoptions)
    have hjavac := OptionToken.encode_of_find? (hlevel ▸ size_levels_le level) h
    rw [pluginOptions, htoken, hjavac]
    rfl

theorem pluginOptions_of_fits (h : ∀ t ∈ OptionToken.strings s.options ++ level.toList, OptionToken.Fits t) :
    ∃ options, s.pluginOptions root = .ok options := by
  have hjavac : ∀ t ∈ OptionToken.strings s.javacArguments, OptionToken.Fits t := by
    rw [← OptionToken.find?_eq_none_iff, hlevel, find?_strings_levels, OptionToken.find?_eq_none_iff]
    exact fun t ht => h t (List.mem_append_right _ ht)
  obtain ⟨token, htoken⟩ := OptionToken.encode_of_fits hsize fun t ht => h t (List.mem_append_left _ ht)
  obtain ⟨javacToken, hjavacToken⟩ := OptionToken.encode_of_fits (hlevel ▸ size_levels_le level) hjavac
  rw [pluginOptions, htoken, hjavacToken]
  exact ⟨_, rfl⟩

end Tokens

end Kapt.Settings

end JarPlan
