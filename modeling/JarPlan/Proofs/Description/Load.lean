import JarPlan.Bytes.Chunks
import JarPlan.Description.Load
import JarPlan.Proofs.Description.Step
import Mathlib.Tactic.SplitIfs
/-!
# Toolchains and units are read back

Every part of a toolchain and of a unit has a faithful description. What is written has all fields, so no field is
filled in when it is read; paths keep their spelling, and sets and maps, which are built up again one by one, keep
their order. So a toolchain loads from the file that holds its description as it was, unless it is not valid, and
a unit is parsed as it was.
-/

namespace JarPlan

open Faithful

/-! ### Parts of toolchains and units -/

instance : Faithful (Option String) := faithful_option fun _ => Json.noConfusion

instance : Faithful (SortedMap Path (SortedMap String String)) where
  isPlain m := Json.isPlain_ofMap isPlain Path.spelling m
  ofJson?_toJson m := Json.toMap?_ofMap (fun _ => rfl) m

instance : Faithful ProcessorPlugin where
  isPlain p := Json.isPlain_record (by simp [isPlain])
  ofJson?_toJson p := Json.slots?_record_bind rfl (by decide) (by simp)

instance : Faithful Processing where
  isPlain p := Json.isPlain_record (by simp [isPlain])
  ofJson?_toJson p := Json.slots?_record_bind rfl (by decide) (by simp)

instance : Faithful JavacOptions where
  isPlain o := Json.isPlain_record (by simp [isPlain])
  ofJson?_toJson o := Json.slots?_record_bind rfl (by decide) (by simp)

instance : Faithful ProcessingTool where
  isPlain t := isPlain t.name
  ofJson?_toJson t := by cases t <;> rfl

instance : Faithful Toolchain where
  isPlain t := Json.isPlain_record (by simp [isPlain])
  ofJson?_toJson t := Json.slots?_record_bind rfl (by decide) (by simp)

instance : Faithful SourceUnit where
  isPlain u := Json.isPlain_record (by simp [isPlain])
  ofJson?_toJson u := Json.slots?_record_bind rfl (by decide) (by simp)

/-! ### Files -/

/-- A file that holds a text reads as it. -/
theorem FileText.ofBytes_utf8 (text : String) : FileText.ofBytes (Bytes.utf8 text) = .ok text := by
  have hbytes : (⟨(Bytes.utf8 text).toArray⟩ : ByteArray) = text.toByteArray := by
    rw [← String.utf8Encode_toList, List.utf8Encode]
    apply ByteArray.ext
    rw [List.data_toByteArray, Bytes.utf8]
  have hread : String.fromUTF8? text.toByteArray = some text := by
    rw [String.fromUTF8?, dif_pos text.isValidUTF8]
    rfl
  rw [FileText.ofBytes, hbytes, hread]

namespace Toolchain

theorem fault?_eq (t : Toolchain) : t.fault? =
    if t.kotlinc = [] then some .noCommand else if t.jvmTarget = some "" then some .emptyJvmTarget else none := by
  simp only [fault?, List.isEmpty_iff]

/-- What a text describes is looked over when it is loaded, whatever fields the text leaves out. -/
theorem load_of_parse? (path : Path) {text : String} {t : Toolchain} (hparse : parse? text = some t) :
    load path (.ok text) =
      if t.kotlinc = [] then .error (.invalid path .noCommand)
      else if t.jvmTarget = some "" then .error (.invalid path .emptyJvmTarget)
      else .ok t := by
  have hfault := t.fault?_eq
  split_ifs at hfault ⊢ <;> simp only [load, Except.mapError, bind, Except.bind, hparse, hfault]

end Toolchain

/-- Whichever of its texts is in the file, a toolchain loads as it was written if it has a command for the Kotlin
compiler and its target version, if there is one, is not empty; otherwise it is refused, for the command first. A
unit is parsed as it was written. -/
theorem toolchain_and_unit_read_back (path : Path) (t : Toolchain) (u : SourceUnit) :
    (∀ text ∈ (toJson t).texts, Toolchain.load path (.ofBytes (Bytes.utf8 text)) =
      if t.kotlinc = [] then .error (.invalid path .noCommand)
      else if t.jvmTarget = some "" then .error (.invalid path .emptyJvmTarget)
      else .ok t) ∧
    ∀ text ∈ (toJson u).texts, SourceUnit.parse? text = some u := by
  constructor
  · intro text htext
    rw [FileText.ofBytes_utf8]
    exact Toolchain.load_of_parse? path (Faithful.read_of_mem_texts htext)
  · intro text htext
    exact Faithful.read_of_mem_texts htext

/-! Paths in unusual spellings, some of them of one place, names out of order, texts with characters that are
escaped, and a plugin that is named twice. -/

def oddToolchain : Toolchain where
  kotlinc := ["kotlinc", "", "-J-Dname=\"a\\b\""]
  kotlinLibraries := .ofList [⟨"lib//b.jar"⟩, ⟨"./lib/a.jar"⟩, ⟨"lib/b.jar/"⟩, ⟨"lib/a.jar"⟩]
  standardLibrary := some ⟨""⟩
  processingJar := some ⟨"/kapt/./é\n.jar"⟩
  extraKotlincArguments := ["b", "a", "b"]
  compilerPlugins := .ofList [(⟨"p//q.jar"⟩, .ofList [("z", ""), ("a", "\t"), ("", "1")]), (⟨"p/q.jar"⟩, ∅), (⟨"/p"⟩, ∅)]
  friendPaths := [⟨"x,y.jar"⟩, ⟨"x,y.jar"⟩]
  processingTool := .javac
  jvmTarget := some " "
  extraClasspath := [⟨"../boot.jar"⟩]
  javacOptions := {
    sourceLevel := some ""
    processing := { plugins := [{ processors := .ofList ["b.P", "a.P"], classpath := [⟨"p//"⟩] }] } }
  reportsTimings := true

/-- Both of its faults at once. -/
def faultyToolchain : Toolchain := { oddToolchain with kotlinc := [], jvmTarget := some "" }

def oddUnit : SourceUnit where
  target := { basePath := "/a/b/", name := "lib", flavors := .ofList ["src", "abi"] }
  sources := .ofList [⟨"b//B.kt"⟩, ⟨"A.java"⟩, ⟨"b/B.kt"⟩]
  outputPaths := ⟨⟨"out/./classes"⟩, ⟨"out//jar"⟩, ⟨""⟩, ⟨"out/work/"⟩⟩
  classpath := .ofList [⟨"z.jar"⟩, ⟨"./z.jar"⟩]

theorem odd_values_read_back :
    Toolchain.load ⟨"t.json"⟩ (.ofBytes (Bytes.utf8 (toJson oddToolchain).pretty)) = .ok oddToolchain ∧
      Toolchain.load ⟨"t.json"⟩ (.ofBytes (Bytes.utf8 (toJson faultyToolchain).compact)) =
        .error (.invalid ⟨"t.json"⟩ .noCommand) ∧
      SourceUnit.parse? (toJson oddUnit).pretty = some oddUnit := by
  obtain ⟨hodd, hunit⟩ := toolchain_and_unit_read_back ⟨"t.json"⟩ oddToolchain oddUnit
  obtain ⟨hfaulty, -⟩ := toolchain_and_unit_read_back ⟨"t.json"⟩ faultyToolchain oddUnit
  have hcompact (j : Json) : j.compact ∈ j.texts := List.mem_cons_self
  have hpretty (j : Json) : j.pretty ∈ j.texts := List.mem_cons_of_mem _ List.mem_cons_self
  exact ⟨hodd _ (hpretty _), hfaulty _ (hcompact _), hunit _ (hpretty _)⟩

end JarPlan
