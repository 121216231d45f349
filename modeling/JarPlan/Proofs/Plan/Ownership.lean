import JarPlan.Proofs.Lists
import JarPlan.Proofs.Path.Apart
import JarPlan.Proofs.Plan.Artifacts
import JarPlan.Proofs.Target.Segments
/-!
# Paths that a plan has to itself

A plan cleans up to eight directories, makes one for copies of friends and writes into the four outputs of its
unit. They lie in three trees, all at the package of the target, and each has a segment there that no other one
has; so none is another one or lies in it. This stays so when the paths are seen from the root and their dots
are worked out, although a base path that leads up may take away the name of the tree.
-/

namespace JarPlan

open JarPlan.Path (Apart namesOf)
open Target (IsProper)

namespace Target

/-- A target whose name and flavors stay in one segment. -/
structure IsSlashFree (t : Target) : Prop where
  name : '/' ∉ t.name.toList
  flavors : ∀ f ∈ t.flavors, '/' ∉ f.toList

variable {t : Target}

theorem IsSlashFree.slash_not_mem_flavoredName (ht : t.IsSlashFree) : '/' ∉ t.flavoredName.toList :=
  not_mem_flavoredName (by decide) (by decide) ht.name ht.flavors

theorem isAbsolute_base (t : Target) : t.base.isAbsolute = false := by
  rw [Path.isAbsolute, beq_eq_false_iff_ne, base, trimmedBase, String.toList_ofList]
  intro hhead
  have hkept := Text.eq_false_of_mem_head?_trim hhead
  exact absurd hkept (by decide)

end Target

/-! ### Places below an output directory -/

/-- The path lies in some tree below `out`, at the package of the target and from there at `segment` or below
it. -/
def IsAt (out : Path) (t : Target) (p : Path) (segment : String) : Prop :=
  ∃ tree rest, p.components =
    out.components ++ .name tree :: namesOf t.base.segments ++ .name segment :: List.map Component.name rest

namespace IsAt

variable {out p q : Path} {t : Target} {segment other : String}

theorem of_entry {name : String} (h : IsAt out t p segment) (hname : Path.components ⟨name⟩ = [.name name]) :
    IsAt out t (p.entry name) segment := by
  obtain ⟨tree, rest, hcomponents⟩ := h
  refine ⟨tree, rest ++ [name], ?_⟩
  rw [Path.components_entry p hname, hcomponents, List.map_append, List.append_assoc _ (_ :: _) [_]]
  rfl

theorem isAbsolute_eq (h : IsAt out t p segment) : p.isAbsolute = out.isAbsolute := by
  obtain ⟨tree, rest, hcomponents⟩ := h
  rw [Bool.eq_iff_iff, Path.isAbsolute_iff, Path.isAbsolute_iff, hcomponents, List.append_assoc,
    List.head?_append]
  cases out.components.head? with
  | none => simp
  | some first => rfl

/-- Paths at different segments are apart, in whichever trees they lie. -/
theorem apart (hp : IsAt out t p segment) (hq : IsAt out t q other) (hne : segment ≠ other) : Apart p q := by
  obtain ⟨tree, rest, hp⟩ := hp
  obtain ⟨tree', rest', hq⟩ := hq
  apply Path.Part.apart
  rw [hp, hq]
  refine Path.Part.of_eq_or_part ?_ hne _ _
  by_cases htree : tree = tree'
  · exact .inl (by rw [htree])
  · exact .inr ⟨out.components, tree, tree', _, _, htree, rfl, rfl⟩

/-- So are their places. -/
theorem apart_absolutize (root : Path) (hp : IsAt out t p segment) (hq : IsAt out t q other)
    (hne : segment ≠ other) : Apart (root.absolutize p) (root.absolutize q) := by
  obtain ⟨front, hfront⟩ := Path.exists_components_absolutize root out
  have hplace {p : Path} {tree segment : String} {rest : List String} (habsolute : p.isAbsolute = out.isAbsolute)
      (hp : p.components = out.components ++ .name tree :: namesOf t.base.segments ++
        .name segment :: rest.map Component.name) :
      (root.absolutize p).components = Path.resolve (front ++ out.components ++ .name tree ::
        namesOf t.base.segments) ++ .name segment :: rest.map Component.name := by
    have hnames : ∀ c ∈ (segment :: rest).map Component.name, ∃ text, c = .name text := by
      intro c hc
      obtain ⟨text, -, rfl⟩ := List.mem_map.1 hc
      exact ⟨text, rfl⟩
    rw [hfront p habsolute, hp, ← List.append_assoc, ← List.append_assoc]
    exact Path.resolve_append_names _ hnames
  have hpabs := hp.isAbsolute_eq
  have hqabs := hq.isAbsolute_eq
  obtain ⟨tree, rest, hp⟩ := hp
  obtain ⟨tree', rest', hq⟩ := hq
  apply Path.Part.apart
  rw [hplace hpabs hp, hplace hqabs hq]
  exact Path.Part.of_eq_or_part (Path.resolve_eq_or_part (front ++ out.components) _ tree tree') hne _ _

end IsAt

section Places
variable (out : Path) {t : Target} (tree : String)

theorem components_join_base (htree : Path.components ⟨tree⟩ = [.name tree]) (t : Target) :
    ((out.entry tree).join t.base).components = out.components ++ .name tree :: namesOf t.base.segments := by
  have hentry := Path.components_entry out htree
  have hnonempty : ¬ (out.entry tree).spelling.isEmpty := by
    intro hempty
    have hnil : (out.entry tree).components = [] := by
      rw [show out.entry tree = ⟨""⟩ from congrArg Path.mk (String.isEmpty_iff.1 hempty)]
      rfl
    rw [hnil] at hentry
    exact absurd hentry.symm (List.append_ne_nil_of_right_ne_nil _ (List.cons_ne_nil _ _))
  rw [Path.components_join hnonempty t.isAbsolute_base, hentry, List.append_assoc, List.singleton_append]

theorem isAt_pathIn (htree : Path.components ⟨tree⟩ = [.name tree]) {template : Template}
    (h : IsProper (t.segment template)) :
    IsAt out t (OutputRoots.pathIn (out.entry tree) t template) (t.segment template) := by
  refine ⟨tree, [], ?_⟩
  rw [OutputRoots.pathIn, Path.components_entry _ (Path.components_mk h.1 h.2), components_join_base out tree htree t]
  rfl

theorem isAt_stagingDir (htree : Path.components ⟨tree⟩ = [.name tree]) {template : Template}
    (h : IsProper (t.segment template)) :
    IsAt out t (Friends.stagingDir (OutputRoots.pathIn (out.entry tree) t template))
      (Friends.stripSeparator (t.segment template)) := by
  refine ⟨tree, [], ?_⟩
  rw [OutputRoots.pathIn, Friends.components_stagingDir_entry _ h, components_join_base out tree htree t]
  rfl

end Places

/-! ### The paths of one plan -/

/-- All outputs of a unit. -/
def OutputPaths.all (o : OutputPaths) : List Path :=
  [o.classesDir, o.outputJarDir, o.sourcesList, o.workingDirectory]

/-- The directories that a plan may prepare: those of annotation processing, the one that plugins generate
into and the one for copies. -/
def preparable (roots : OutputRoots) (t : Target) : List Path :=
  (Kapt.Directories.standard roots t).all ++
    [roots.annotationPath t .pluginGenerated, Friends.stagingDir (roots.scratchPath t .friendJars)]

/-- What the plan of a unit that writes to the standard places has to itself. -/
def ownedPaths (roots : OutputRoots) (t : Target) : List Path :=
  preparable roots t ++ (OutputPaths.standard t roots).all

section Owned
variable (root out : Path) {t : Target} (ht : t.IsSlashFree)
include ht

theorem isAt_genPath {template : Template} (h : template.isFrame = true) :
    IsAt out t ((OutputRoots.below out).genPath t template) (t.segment template) :=
  isAt_pathIn out "gen" (by decide +kernel) (Target.isProper_segment ht.slash_not_mem_flavoredName h)

theorem isAt_mergedPath : IsAt out t ((OutputRoots.below out).mergedPath t) (t.segment (.merged t.isFlavored)) := by
  have hsegment := Target.isProper_segment_merged ht.slash_not_mem_flavoredName
  have hdir : IsAt out t ((OutputRoots.below out).genPath t (.merged t.isFlavored))
      (t.segment (.merged t.isFlavored)) := isAt_pathIn out "gen" (by decide +kernel) hsegment
  exact hdir.of_entry (by decide +kernel)

theorem forall₂_isAt_ownedPaths :
    List.Forall₂ (IsAt out t) (ownedPaths (.below out) t) t.ownedSegments := by
  have hproper {template : Template} (h : template.isFrame = true) : IsProper (t.segment template) :=
    Target.isProper_segment ht.slash_not_mem_flavoredName h
  have hkapt {template : Template} (h : template.isFrame = true) :
      IsAt out t ((OutputRoots.below out).annotationPath t template) (t.segment template) :=
    isAt_pathIn out "annotation" (by decide +kernel) (hproper h)
  have hgen {template : Template} (h : template.isFrame = true) :
      IsAt out t ((OutputRoots.below out).genPath t template) (t.segment template) := isAt_genPath out ht h
  have hclasses : IsAt out t ((OutputRoots.below out).scratchPath t .classes) (t.segment .classes) :=
    isAt_pathIn out "bin" (by decide +kernel) (hproper (by decide +kernel))
  have hcopies : IsAt out t (Friends.stagingDir ((OutputRoots.below out).scratchPath t .friendJars))
      (Friends.stripSeparator (t.segment .friendJars)) :=
    isAt_stagingDir out "bin" (by decide +kernel) (hproper (by decide +kernel))
  simp only [ownedPaths, preparable, Kapt.Directories.all, Kapt.Directories.standard, OutputPaths.all,
    OutputPaths.standard, Target.ownedSegments, Template.cleaned, Template.outputs, List.map_cons, List.map_nil,
    List.cons_append, List.nil_append, List.forall₂_cons]
  refine ⟨hkapt ?_, hkapt ?_, hkapt ?_, hkapt ?_, isAt_mergedPath out ht, hgen ?_,
    hkapt ?_, hkapt ?_, hcopies, hclasses, hgen ?_, hgen ?_, hgen ?_, .nil⟩
  all_goals decide +kernel

theorem pairwise_ownedPaths : (ownedPaths (.below out) t).Pairwise Apart :=
  pairwise_of_forall₂ (forall₂_isAt_ownedPaths out ht) t.pairwise_ownedSegments IsAt.apart

theorem pairwise_absolutize_ownedPaths : ((ownedPaths (.below out) t).map root.absolutize).Pairwise Apart := by
  apply List.pairwise_map.2
  exact pairwise_of_forall₂ (forall₂_isAt_ownedPaths out ht) t.pairwise_ownedSegments (IsAt.apart_absolutize root)

/-- The archive lies beside the directory that is archived. -/
theorem apart_archive_merged :
    Apart (root.absolutize (Kapt.Directories.standard (.below out) t).archive)
      (root.absolutize (Kapt.Directories.standard (.below out) t).merged) := by
  have hdir : IsAt out t ((OutputRoots.below out).genPath t .generatedArchive) (t.segment .generatedArchive) :=
    isAt_genPath out ht (by decide +kernel)
  have harchive : IsAt out t (((OutputRoots.below out).genPath t .generatedArchive).entry "generated.src.zip")
      (t.segment .generatedArchive) := hdir.of_entry (by decide +kernel)
  have houtgrows (flavored : Bool) : Template.generatedArchive.outgrows (.merged flavored) = true := by
    cases flavored
    · decide +kernel
    · decide +kernel
  simp only [Kapt.Directories.archive, Kapt.Directories.standard]
  exact harchive.apart_absolutize root (isAt_mergedPath out ht) (t.segment_ne (houtgrows t.isFlavored))

end Owned

/-! ### The steps of a plan -/

theorem Step.preparedDir?_of_isFollowUp {step : Step} (h : step.isFollowUp = true) : step.preparedDir? = none := by
  cases step with
  | makeCleanDir path => cases h
  | mkdir path => cases h
  | _ => rfl

theorem Friends.IsStaging.filterMap_preparedDir? {dir : Path} {steps : List Step} (h : IsStaging dir steps) :
    (steps.filterMap Step.preparedDir?).Sublist [dir] := by
  rcases h with rfl | ⟨copies, rfl, hcopies⟩
  · exact List.nil_sublist [dir]
  · have hnone : copies.filterMap Step.preparedDir? = [] := by
      apply List.filterMap_eq_nil_iff.2
      intro step hstep
      obtain ⟨origin, destination, rfl, -⟩ := hcopies step hstep
      rfl
    have hmkdir : Step.preparedDir? (.mkdir dir) = some dir := rfl
    rw [List.filterMap_cons_some hmkdir, hnone]

/-- The directories that a draft prepares. -/
theorem Draft.filterMap_preparedDir? {ws : Workspace} {unit : SourceUnit} {toolchain : Toolchain}
    {mode : CompileMode} {settings : Option Kapt.Settings}
    (hsettings : Draft.settings ws unit toolchain mode = .ok settings) (run : KotlincRun) :
    ((around ws unit toolchain settings run).steps.filterMap Step.preparedDir?).Sublist
      ((Kapt.Directories.standard ws.roots unit.target).all ++
        [ws.roots.annotationPath unit.target .pluginGenerated,
          ws.root.join (Friends.stagingDir (ws.roots.scratchPath unit.target .friendJars))]) := by
  have hafter : (stepsAfter ws unit settings).filterMap Step.preparedDir? = [] := by
    apply List.filterMap_eq_nil_iff.2
    intro step hstep
    exact Step.preparedDir?_of_isFollowUp (isFollowUp_of_mem_stepsAfter hstep)
  have hstaging : ((friends ws unit toolchain).steps.filterMap Step.preparedDir?).Sublist
      [ws.root.join (Friends.stagingDir (ws.roots.scratchPath unit.target .friendJars))] :=
    (Friends.isStaging_stage ws.root toolchain.friendPaths _).filterMap_preparedDir?
  have hcleaned : (((settings.map (·.dirs.preparation)).getD []).filterMap Step.preparedDir?).Sublist
      (Kapt.Directories.standard ws.roots unit.target).all := by
    cases settings with
    | none => exact List.nil_sublist _
    | some s =>
      rw [← dirs_of_settings hsettings]
      exact List.Sublist.refl s.dirs.all
  have hrun : Step.preparedDir? (.kotlinc run) = none := rfl
  rw [steps_around, stepsBefore, List.filterMap_append, List.filterMap_append, List.filterMap_append,
    List.filterMap_cons_none hrun, hafter, List.append_nil, List.append_assoc]
  exact hcleaned.append (hstaging.cons_cons _)

/-- What the plan of a unit in the standard places has to itself is apart, path by path, also when all is seen
from the root with dots worked out: the directories that its steps prepare and the outputs of the unit. The
archive of generated sources is none of what it archives. -/
theorem owned_paths_apart (out : Path) {t : Target} (ht : t.IsSlashFree) :
    (ownedPaths (.below out) t).Pairwise Apart ∧
    (∀ root : Path, ((ownedPaths (.below out) t).map root.absolutize).Pairwise Apart) ∧
    ∀ (ws : Workspace) (unit : SourceUnit) (toolchain : Toolchain) (planner : JavaPlanner) (plan : Plan),
      ws.root.isAbsolute = true → ws.roots = .below out → unit.target = t →
      unit.outputPaths = .standard t (.below out) → Plan.make ws unit toolchain planner = .ok plan →
      ∃ draft javaSteps, Draft.make ws unit toolchain = .ok draft ∧
        planner draft.request.target draft.request.options draft.request.input = .ok javaSteps ∧
        plan.steps.steps = draft.steps ++ javaSteps ∧
        ((draft.steps.filterMap Step.preparedDir? ++ unit.outputPaths.all).map ws.root.absolutize).Pairwise Apart ∧
        ∀ root output sourceDir ignored, .zip root output sourceDir ignored ∈ draft.steps →
          Apart (ws.root.absolutize output) (ws.root.absolutize sourceDir) := by
  refine ⟨pairwise_ownedPaths out ht, fun root => pairwise_absolutize_ownedPaths root out ht, ?_⟩
  intro ws unit toolchain planner plan hroot hroots htarget houtputs hplan
  obtain ⟨draft, javaSteps, hdraft, hjava, rfl⟩ := Plan.make_eq_ok.1 hplan
  refine ⟨draft, javaSteps, hdraft, hjava, rfl, ?_⟩
  have howned := pairwise_absolutize_ownedPaths ws.root out ht
  rw [ownedPaths, List.map_append, ← houtputs] at howned
  rcases Draft.cases_of_make hdraft with ⟨-, rfl⟩ | ⟨-, settings, run, hsettings, -, rfl⟩
  · refine ⟨howned.sublist (List.sublist_append_right _ _), fun root output sourceDir ignored hzip => ?_⟩
    cases hzip
  · constructor
    · have hprepared := (Draft.filterMap_preparedDir? hsettings run).map ws.root.absolutize
      rw [hroots, htarget, List.map_append, List.map_cons, List.map_singleton, Path.absolutize_join hroot,
        ← List.map_singleton, ← List.map_cons, ← List.map_append] at hprepared
      rw [List.map_append]
      exact howned.sublist (hprepared.append (List.Sublist.refl _))
    · intro root output sourceDir ignored hzip
      obtain ⟨s, rfl, rfl, rfl⟩ := Draft.eq_of_zip_mem hzip
      rw [Draft.dirs_of_settings hsettings, hroots, htarget]
      exact apart_archive_merged ws.root out ht

/-- A target with parts of templates in its name and its flavors, and a base path that leads out of its tree. -/
def lookalikeTarget : Target := ⟨"../java", "lib__a", .ofList ["stubs__", "%s"]⟩

def lookalikeUnit : SourceUnit :=
  (SourceUnit.standard lookalikeTarget kaptWorkspace.roots).withSources [⟨"A.kt"⟩, ⟨"B.java"⟩]

theorem lookalikeUnit_paths_apart :
    (ownedPaths (.below ⟨"out"⟩) lookalikeTarget).Pairwise Apart ∧
    ∃ plan, ∃ draft : Draft, ∃ javaSteps,
      Plan.make kaptWorkspace lookalikeUnit kaptToolchain Javac.planner = .ok plan ∧ plan.mode = .kotlinWithKapt ∧
      plan.steps.steps = draft.steps ++ javaSteps ∧
      ((draft.steps.filterMap Step.preparedDir? ++ lookalikeUnit.outputPaths.all).map
        kaptWorkspace.root.absolutize).Pairwise Apart := by
  obtain ⟨-, plan, -, hplan, hmode⟩ := exists_plan_of_run kaptWorkspace lookalikeUnit kaptToolchain
    (by decide +kernel) (by decide +kernel)
  have hflavors : ∀ f ∈ lookalikeTarget.flavors.toList, '/' ∉ f.toList := by decide +kernel
  have hslash : lookalikeTarget.IsSlashFree := ⟨by decide +kernel, hflavors⟩
  obtain ⟨howned, -, hplans⟩ := owned_paths_apart ⟨"out"⟩ hslash
  obtain ⟨draft, javaSteps, -, -, hsteps, hapart, -⟩ := hplans kaptWorkspace lookalikeUnit kaptToolchain
    Javac.planner plan (by decide +kernel) rfl rfl rfl hplan
  exact ⟨howned, plan, draft, javaSteps, hplan, hmode, hsteps, hapart⟩

end JarPlan
