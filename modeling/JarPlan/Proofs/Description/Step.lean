import JarPlan.Description.Step
import JarPlan.Proofs.Json.Description
/-!
# The text of a sequence tells the sequence

Every part of a step has a faithful description: paths are described by their spelling, optional paths are told
from none, and the kinds of steps have different names. So a sequence is read back from its text with the
spelling of every path, and no two sequences have one text.
-/

namespace JarPlan

open Faithful

/-! ### Parts of steps -/

instance : Faithful Path where
  isPlain p := isPlain p.spelling
  ofJson?_toJson _ := rfl

instance : Faithful (Option Path) := faithful_option fun _ => Json.noConfusion

instance : Faithful Target where
  isPlain t := Json.isPlain_record (by simp [isPlain])
  ofJson?_toJson t := Json.slots?_record_bind rfl (by decide) (by simp)

instance : Faithful OutputPaths where
  isPlain o := Json.isPlain_record (by simp [isPlain])
  ofJson?_toJson o := Json.slots?_record_bind rfl (by decide) (by simp)

instance : Faithful CopyMode where
  isPlain m := isPlain m.name
  ofJson?_toJson m := by cases m <;> rfl

instance : Faithful KotlincRun where
  isPlain r := Json.isPlain_record (by simp [isPlain])
  ofJson?_toJson r := Json.slots?_record_bind rfl (by decide) (by simp)

instance : Faithful JavacRun where
  isPlain r := Json.isPlain_record (by simp [isPlain])
  ofJson?_toJson r := Json.slots?_record_bind rfl (by decide) (by simp)

theorem ofJson?_choose (name : String) (value : Json) :
    (ofJson? (Json.choose name value) : Option Step) = Step.ofChoice? name value :=
  rfl

instance : Faithful Step where
  isPlain
    | .makeCleanDir path => Json.isPlain_choose (Json.isPlain_record (by simp [isPlain]))
    | .mkdir path => Json.isPlain_choose (Json.isPlain_record (by simp [isPlain]))
    | .copy source destination mode => Json.isPlain_choose (Json.isPlain_record (by simp [isPlain]))
    | .zip root output sourceDir ignored => Json.isPlain_choose (Json.isPlain_record (by simp [isPlain]))
    | .kotlinc run => Json.isPlain_choose (isPlain run)
    | .forwardTimings report target => Json.isPlain_choose (Json.isPlain_record (by simp [isPlain]))
    | .javac run => Json.isPlain_choose (isPlain run)
  ofJson?_toJson
    | .makeCleanDir path => by
      show ofJson? (Json.choose _ (.record _)) = _
      rw [ofJson?_choose, Step.ofChoice?]
      exact Json.slots?_record_bind rfl (by decide) (by simp)
    | .mkdir path => by
      show ofJson? (Json.choose _ (.record _)) = _
      rw [ofJson?_choose, Step.ofChoice?]
      exact Json.slots?_record_bind rfl (by decide) (by simp)
    | .copy source destination mode => by
      show ofJson? (Json.choose _ (.record _)) = _
      rw [ofJson?_choose, Step.ofChoice?]
      exact Json.slots?_record_bind rfl (by decide) (by simp)
    | .zip root output sourceDir ignored => by
      show ofJson? (Json.choose _ (.record _)) = _
      rw [ofJson?_choose, Step.ofChoice?]
      exact Json.slots?_record_bind rfl (by decide) (by simp)
    | .kotlinc run => by
      show ofJson? (Json.choose _ (toJson run)) = _
      rw [ofJson?_choose, Step.ofChoice?, ofJson?_toJson]
      rfl
    | .forwardTimings report target => by
      show ofJson? (Json.choose _ (.record _)) = _
      rw [ofJson?_choose, Step.ofChoice?]
      exact Json.slots?_record_bind rfl (by decide) (by simp)
    | .javac run => by
      show ofJson? (Json.choose _ (toJson run)) = _
      rw [ofJson?_choose, Step.ofChoice?, ofJson?_toJson]
      rfl

instance : Faithful StepSequence where
  isPlain s := Json.isPlain_record (by simp [isPlain])
  ofJson?_toJson s := Json.slots?_record_bind rfl (by decide) (by simp)

/-! ### Texts of sequences -/

namespace StepSequence

theorem read_text (s : StepSequence) : (Json.read? s.text).bind ofJson? = some s := Faithful.read s

theorem text_injective : Function.Injective text := by
  intro s t h
  have hread := s.read_text
  rw [h, t.read_text] at hread
  exact (Option.some.inj hread).symm

/-- The digest is taken of the text, and sees nothing else of a sequence. -/
theorem digest_eq (s : StepSequence) : s.digest =
    String.ofList ((Bytes.hex (Bytes.Sha256.digest (Bytes.utf8 s.text))).toList.take digestLength) := rfl

/-- A sequence is read back from its text, and no other sequence has that text. -/
theorem text_tells_sequence (s : StepSequence) :
    (Json.read? s.text).bind ofJson? = some s ∧ ∀ t : StepSequence, t.text = s.text ↔ t = s :=
  ⟨s.read_text, fun _ => text_injective.eq_iff⟩

end StepSequence

end JarPlan
