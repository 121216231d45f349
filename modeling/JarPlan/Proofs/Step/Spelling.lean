import JarPlan.Proofs.Description.Step
import JarPlan.Proofs.Path.Tidy
import Mathlib.Data.List.Forall2
/-!
# Sequences that match, and their digests

Sequences are compared by the components of their paths, but the digest is taken of a text, which shows how
paths are spelled. Matching sequences differ in the spelling of paths and in nothing else: with the same
spellings they are one sequence, with one text and one digest, and with different spellings they have different
texts. Tidy paths that match are spelled alike.
-/

namespace JarPlan

/-! ### The paths of a step -/

namespace OutputPaths

def paths (o : OutputPaths) : List Path := [o.classesDir, o.outputJarDir, o.sourcesList, o.workingDirectory]

end OutputPaths

namespace KotlincRun

def paths (r : KotlincRun) : List Path :=
  [r.outputDir] ++ r.sources ++ [r.sourcesList] ++ r.classpath ++ r.outputPaths.paths ++ r.record.toList ++
    r.generatedDirs

end KotlincRun

namespace JavacRun

def paths (r : JavacRun) : List Path :=
  [r.outputDir] ++ r.sources ++ [r.sourcesList] ++ r.classpath ++ r.record.toList

end JavacRun

/-- The paths of a step, in the order of its fields. -/
def Step.paths : Step → List Path
  | makeCleanDir path => [path]
  | mkdir path => [path]
  | copy source destination _ => [source, destination]
  | zip root output sourceDir ignored => [root, output, sourceDir] ++ ignored.toList
  | kotlinc run => run.paths
  | forwardTimings report _ => [report]
  | javac run => run.paths

def StepSequence.paths (s : StepSequence) : List Path := s.steps.flatMap Step.paths

/-! ### What matching values have in common -/

/-- `paths` lists all that values which match may differ in. -/
def IsSpelling {α : Type} [BEq α] (paths : α → List Path) : Prop :=
  ∀ ⦃a b : α⦄, (a == b) = true →
    List.Forall₂ (fun p q => (p == q) = true) (paths a) (paths b) ∧ (paths a = paths b → a = b)

namespace IsSpelling

variable {α β : Type} [BEq α] [BEq β] {f : α → List Path} {g : β → List Path}

theorem path : IsSpelling fun p : Path => [p] := fun _ _ h =>
  ⟨.cons h .nil, fun heq => (List.cons.inj heq).1⟩

/-- Values in which there are no paths. -/
theorem plain [LawfulBEq α] : IsSpelling fun _ : α => [] := fun _ _ h => ⟨.nil, fun _ => eq_of_beq h⟩

theorem append (hf : IsSpelling f) {a b : α} (h : (a == b) = true) {rest rest' : List Path}
    (heq : f a ++ rest = f b ++ rest') : a = b ∧ rest = rest' := by
  obtain ⟨hmatch, hsame⟩ := hf h
  obtain ⟨hpaths, hrest⟩ := List.append_inj heq hmatch.length_eq
  exact ⟨hsame hpaths, hrest⟩

theorem prod (hf : IsSpelling f) (hg : IsSpelling g) : IsSpelling fun e : α × β => f e.1 ++ g e.2 := by
  rintro ⟨a, b⟩ ⟨a', b'⟩ h
  obtain ⟨ha, hb⟩ := Bool.and_eq_true_iff.1 (show (a == a' && b == b') = true from h)
  obtain ⟨hmatch, hsame⟩ := hg hb
  refine ⟨List.rel_append (hf ha).1 hmatch, fun heq => ?_⟩
  obtain ⟨rfl, hrest⟩ := hf.append ha heq
  rw [hsame hrest]

theorem list (hf : IsSpelling f) : IsSpelling fun l : List α => l.flatMap f := by
  intro l l' h
  induction l generalizing l' with
  | nil =>
    cases l' with
    | nil => exact ⟨.nil, fun _ => rfl⟩
    | cons b l' => cases h
  | cons a l ih =>
    cases l' with
    | nil => cases h
    | cons b l' =>
      obtain ⟨ha, hl⟩ := Bool.and_eq_true_iff.1 (show (a == b && l == l') = true from h)
      obtain ⟨hmatch, hsame⟩ := ih hl
      refine ⟨List.rel_append (hf ha).1 hmatch, fun heq => ?_⟩
      obtain ⟨rfl, hrest⟩ := hf.append ha heq
      rw [hsame hrest]

theorem of_injective (hf : IsSpelling f) {paths : β → List Path} (parts : β → α)
    (hinjective : Function.Injective parts) (hbeq : ∀ a b, (a == b) = (parts a == parts b))
    (hpaths : ∀ b, paths b = f (parts b)) : IsSpelling paths := by
  intro a b h
  rw [hbeq] at h
  rw [hpaths, hpaths]
  exact ⟨(hf h).1, fun heq => hinjective ((hf h).2 heq)⟩

theorem paths : IsSpelling fun l : List Path => l :=
  path.list.of_injective id Function.injective_id (fun _ _ => rfl) fun l => (List.flatMap_singleton' l).symm

theorem option : IsSpelling (Option.toList : Option Path → List Path) :=
  paths.of_injective Option.toList (fun a b h => by cases a <;> cases b <;> simp_all)
    (fun a b => by cases a <;> cases b <;> simp) fun _ => rfl

theorem set : IsSpelling (SortedSet.toList : SortedSet Path → List Path) :=
  paths.of_injective SortedSet.toList (fun _ _ => SortedSet.ext) (fun _ _ => rfl) fun _ => rfl

end IsSpelling

/-! ### Steps -/

instance : LawfulBEq (SortedSet String) where
  eq_of_beq h := SortedSet.ext (eq_of_beq (α := List String) h)
  rfl {s} := beq_self_eq_true s.toList

instance : LawfulBEq Target where
  eq_of_beq {t u} h := by
    cases t
    cases u
    obtain ⟨hbase, h⟩ := Bool.and_eq_true_iff.1 h
    obtain ⟨hname, hflavors⟩ := Bool.and_eq_true_iff.1 h
    rw [eq_of_beq hbase, eq_of_beq hname, eq_of_beq hflavors]
  rfl {t} := by
    show (t.basePath == t.basePath && (t.name == t.name && t.flavors == t.flavors)) = true
    simp

instance : LawfulBEq CopyMode where
  eq_of_beq {a b} h := by cases a <;> cases b <;> first | rfl | cases h
  rfl {a} := by cases a <;> rfl

namespace IsSpelling

theorem outputPaths : IsSpelling OutputPaths.paths :=
  (path.prod (path.prod (path.prod path))).of_injective
    (fun o => (o.classesDir, o.outputJarDir, o.sourcesList, o.workingDirectory))
    (fun a b h => by cases a; cases b; cases h; rfl) (fun _ _ => rfl) fun _ => rfl

theorem kotlincRun : IsSpelling KotlincRun.paths :=
  (plain.prod (plain.prod (path.prod (paths.prod (path.prod (paths.prod (plain.prod (plain.prod
    (outputPaths.prod (option.prod paths)))))))))).of_injective
    (fun r : KotlincRun => (r.target, r.command, r.outputDir, r.sources, r.sourcesList, r.classpath, r.arguments,
      r.verboseFlags, r.outputPaths, r.record, r.generatedDirs))
    (fun a b h => by cases a; cases b; cases h; rfl) (fun _ _ => rfl)
    fun r => by simp [KotlincRun.paths]

theorem javacRun : IsSpelling JavacRun.paths :=
  (plain.prod (path.prod (paths.prod (path.prod (paths.prod (plain.prod option)))))).of_injective
    (fun r : JavacRun => (r.target, r.outputDir, r.sources, r.sourcesList, r.classpath, r.arguments, r.record))
    (fun a b h => by cases a; cases b; cases h; rfl) (fun _ _ => rfl)
    fun r => by simp [JavacRun.paths]

/-- Parts that match as the steps do that are made of them. -/
theorem step_of_parts {α : Type} [BEq α] {f : α → List Path} (hf : IsSpelling f) (make : α → Step) {a b : α}
    (h : (a == b) = true) :
    List.Forall₂ (fun p q => (p == q) = true) (f a) (f b) ∧ (f a = f b → make a = make b) :=
  (hf h).imp id fun hsame heq => congrArg make (hsame heq)

theorem step : IsSpelling Step.paths := by
  intro a b h
  -- steps of different kinds do not match
  cases a <;> cases b <;> try cases h
  case makeCleanDir.makeCleanDir p q => exact step_of_parts path .makeCleanDir h
  case mkdir.mkdir p q => exact step_of_parts path .mkdir h
  case copy.copy p q m p' q' m' =>
    exact step_of_parts (path.prod (path.prod plain)) (fun e => .copy e.1 e.2.1 e.2.2) (a := (p, q, m))
      (b := (p', q', m')) h
  case zip.zip r o d i r' o' d' i' =>
    exact step_of_parts (path.prod (path.prod (path.prod set))) (fun e => .zip e.1 e.2.1 e.2.2.1 e.2.2.2)
      (a := (r, o, d, i)) (b := (r', o', d', i')) h
  case kotlinc.kotlinc r r' => exact step_of_parts kotlincRun .kotlinc h
  case forwardTimings.forwardTimings p t p' t' =>
    exact step_of_parts (path.prod plain) (fun e => .forwardTimings e.1 e.2) (a := (p, t)) (b := (p', t')) h
  case javac.javac r r' => exact step_of_parts javacRun .javac h

theorem sequence : IsSpelling StepSequence.paths :=
  step.list.of_injective StepSequence.steps (fun a b h => by cases a; cases b; cases h; rfl) (fun _ _ => rfl)
    fun _ => rfl

end IsSpelling

/-! ### Digests -/

theorem eq_of_forall₂_of_isTidy {l l' : List Path} (h : List.Forall₂ (fun p q => (p == q) = true) l l')
    (hl : ∀ p ∈ l, p.IsTidy) (hl' : ∀ p ∈ l', p.IsTidy) : l = l' := by
  induction h with
  | nil => rfl
  | cons hmatch _ ih =>
    obtain ⟨hp, hl⟩ := List.forall_mem_cons.1 hl
    obtain ⟨hq, hl'⟩ := List.forall_mem_cons.1 hl'
    rw [hp.eq_of_beq hq hmatch, ih hl hl']

namespace StepSequence

variable {s t : StepSequence} (h : (s == t) = true)
include h

theorem eq_iff_paths_eq : s = t ↔ s.paths = t.paths := by
  constructor
  · intro heq
    rw [heq]
  · exact (IsSpelling.sequence h).2

theorem paths_eq_of_isTidy (hs : ∀ p ∈ s.paths, p.IsTidy) (ht : ∀ p ∈ t.paths, p.IsTidy) : s.paths = t.paths :=
  eq_of_forall₂_of_isTidy (IsSpelling.sequence h).1 hs ht

/-- Matching sequences have one text exactly when their paths are spelled alike, and then they have one digest.
Tidy paths are. -/
theorem digest_depends_on_spelling_only :
    (s.text = t.text ↔ s.paths = t.paths) ∧ (s.paths = t.paths → s.digest = t.digest) ∧
      ((∀ p ∈ s.paths, p.IsTidy) → (∀ p ∈ t.paths, p.IsTidy) → s.digest = t.digest) := by
  have hdigest (hpaths : s.paths = t.paths) : s.digest = t.digest := by
    rw [(eq_iff_paths_eq h).2 hpaths]
  refine ⟨?_, hdigest, fun hs ht => hdigest (paths_eq_of_isTidy h hs ht)⟩
  rw [text_injective.eq_iff, eq_iff_paths_eq h]

end StepSequence

/-- Makes a directory. -/
def oneSlash : StepSequence := ⟨[.mkdir ⟨"a/b"⟩]⟩

/-- Makes the same directory, in another spelling. -/
def twoSlashes : StepSequence := ⟨[.mkdir ⟨"a//b"⟩]⟩

theorem respelled_have_different_texts : (oneSlash == twoSlashes) = true ∧ oneSlash.text ≠ twoSlashes.text := by
  have hmatch : (oneSlash == twoSlashes) = true := by decide +kernel
  have hpaths : oneSlash.paths ≠ twoSlashes.paths := by decide +kernel
  exact ⟨hmatch, mt (StepSequence.digest_depends_on_spelling_only hmatch).1.1 hpaths⟩

theorem respelled_have_different_digests : ¬ ∀ s t : StepSequence, (s == t) = true → s.digest = t.digest := by
  intro h
  have hmatch : (oneSlash == twoSlashes) = true := by decide +kernel
  have hdigest : oneSlash.digest ≠ twoSlashes.digest := by decide +kernel
  exact hdigest (h oneSlash twoSlashes hmatch)

end JarPlan
