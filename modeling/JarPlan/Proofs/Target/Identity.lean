import JarPlan.Layout
import JarPlan.Proofs.Path.Tidy
import JarPlan.Proofs.Target.Names
/-!
# Targets told apart by their paths

A generated path ends in the components of the base path and in one segment. Where the base path is tidy its
text is read back from those components. The segment gives the name with its flavors, since a template in use
has its mark once; the name ends at the first `#` and the flavors at commas, so neither mark may stand in them.
The template that is nothing but its mark is left to flavored targets, whose segments hold a `#`: this keeps
them apart from those of plain targets, and from segments that mean something else in a path.
-/

namespace JarPlan

open JarPlan.Path (IsName ofParts)

/-! ### Templates around a name -/

namespace Template

/-- Whether a name is set in between texts, with a line in one of them and no slash. -/
def isFrame (template : Template) : Bool :=
  match Text.splitAll ['%', 's'] template.text.toList with
  | [front, back] => (front ++ back).contains '_' && !(front ++ back).contains '/'
  | _ => false

/-- The templates in use, except for the one that is a mark alone. -/
def frames : List Template :=
  [stubs, processedSources, processedClasses, reports, kotlinGenerated, pluginGenerated, generatedArchive,
    friendJars, classes, outputJar, sourcesList, workingDirectory, merged false]

theorem isFrame_of_mem_frames : ∀ template ∈ frames, template.isFrame = true := by decide +kernel

theorem exists_of_isFrame {template : Template} (h : template.isFrame = true) :
    ∃ front back, Text.splitAll ['%', 's'] template.text.toList = [front, back] ∧
      '_' ∈ front ++ back ∧ '/' ∉ front ++ back := by
  rw [isFrame] at h
  split at h
  · rename_i front back hcut
    rw [Bool.and_eq_true, List.contains_iff_mem, Bool.not_eq_true', ← Bool.not_eq_true,
      List.contains_iff_mem] at h
    exact ⟨front, back, hcut, h⟩
  · cases h

end Template

namespace Target

/-- The characters that have a meaning in generated paths. -/
def marks : List Char := ['/', '#', ',']

theorem forall_mem_marks {P : Char → Prop} (h : P '/' ∧ P '#' ∧ P ',') : ∀ c ∈ marks, P c := by
  simpa [marks] using h

/-- A target with a tidy base path and with no marks in its name and its flavors. -/
structure IsPlain (t : Target) : Prop where
  basePath : ∃ names, (∀ s ∈ names, IsName s) ∧ t.basePath = String.ofList (['/'].intercalate names)
  name : ∀ c ∈ marks, c ∉ t.name.toList
  flavors : ∀ f ∈ t.flavors, ∀ c ∈ marks, c ∉ f.toList

/-- A target with no marks in its name and its flavors, whatever its base path is. -/
structure IsUnmarked (t : Target) : Prop where
  name : ∀ c ∈ marks, c ∉ t.name.toList
  flavors : ∀ f ∈ t.flavors, ∀ c ∈ marks, c ∉ f.toList

variable {t u : Target}

theorem IsPlain.isUnmarked (ht : t.IsPlain) : t.IsUnmarked := ⟨ht.name, ht.flavors⟩

/-! ### The base path -/

theorem trim_spelling {names : List (List Char)} (h : ∀ s ∈ names, IsName s) :
    Text.trim (· == '/') (ofParts none names).spelling.toList = (ofParts none names).spelling.toList := by
  have hfirst : ∀ c ∈ (ofParts none names).spelling.toList.head?, (c == '/') = false := by
    have hrelative := Path.isAbsolute_relative h
    rw [Path.isAbsolute, beq_eq_false_iff_ne] at hrelative
    rintro c hc
    rw [beq_eq_false_iff_ne]
    rintro rfl
    exact hrelative hc
  have hlast : ∀ c ∈ (ofParts none names).spelling.toList.getLast?, (c == '/') = false := by
    by_cases hempty : names = []
    · rw [hempty]
      intro c hc
      cases hc
    · rintro c hc
      rw [beq_eq_false_iff_ne]
      rintro rfl
      have hvoid := Path.getLast?_ofParts (.inl rfl) h hempty [] (Path.getLast?_segments hc)
      cases hvoid
  exact Text.trim_eq_self hfirst hlast

theorem IsPlain.exists_base_eq (ht : t.IsPlain) :
    ∃ names, (∀ s ∈ names, IsName s) ∧ t.base = ofParts none names ∧ t.base.spelling = t.basePath := by
  obtain ⟨names, hnames, hbase⟩ := ht.basePath
  have hspelling : t.basePath = (ofParts none names).spelling := hbase
  have htrim : t.trimmedBase = t.basePath := by
    rw [trimmedBase, hspelling, trim_spelling hnames, String.ofList_toList]
  exact ⟨names, hnames, congrArg Path.mk (htrim.trans hbase), htrim⟩

theorem basePath_eq_of_components_eq (ht : t.IsPlain) (hu : u.IsPlain) (h : t.base.components = u.base.components) :
    t.basePath = u.basePath := by
  obtain ⟨names, hnames, hbase, hspelling⟩ := ht.exists_base_eq
  obtain ⟨others, hothers, hbase', hspelling'⟩ := hu.exists_base_eq
  have heq : t.base = u.base := by
    rw [hbase, hbase'] at h ⊢
    exact (Path.IsTidy.relative names hnames).eq_of_beq (.relative others hothers) (Path.beq_iff.2 h)
  rw [← hspelling, ← hspelling', heq]

/-! ### The name with its flavors -/

/-- The name and, behind a `#`, the flavors with `sep` between them, where there are any. -/
def nameWith (sep : List Char) (t : Target) : List Char :=
  if t.isFlavored then t.name.toList ++ '#' :: sep.intercalate (t.flavors.toList.map String.toList)
  else t.name.toList

theorem toList_flavoredName (t : Target) : t.flavoredName.toList = t.nameWith [','] := by
  rw [flavoredName, nameWith]
  split
  · rw [String.toList_append, String.toList_append, String.toList_intercalate, List.append_assoc]
    rfl
  · rfl

theorem flavors_ne_nil (h : t.isFlavored = true) : t.flavors.toList.map String.toList ≠ [] := by
  intro hnil
  rw [List.map_eq_nil_iff] at hnil
  rw [isFlavored, SortedSet.isEmpty, hnil] at h
  cases h

theorem flavors_of_not_isFlavored (h : ¬ t.isFlavored = true) : t.flavors = ∅ := by
  apply SortedSet.ext
  simpa [isFlavored, SortedSet.isEmpty] using h

theorem flavors_eq_of_map_eq (h : t.flavors.toList.map String.toList = u.flavors.toList.map String.toList) :
    t.flavors = u.flavors :=
  SortedSet.ext (List.map_injective_iff.2 (fun _ _ => String.toList_inj.1) h)

section Unmarked
variable (sep : List Char) (ht : t.IsUnmarked) (hu : u.IsUnmarked)
include ht

theorem IsUnmarked.not_mem_of_mem_flavors {c : Char} (hc : c ∈ marks) :
    ∀ f ∈ t.flavors.toList.map String.toList, c ∉ f := by
  intro f hf
  obtain ⟨flavor, hflavor, rfl⟩ := List.mem_map.1 hf
  exact ht.flavors flavor hflavor c hc

/-- Only the separator comes in between the flavors. -/
theorem IsUnmarked.not_mem_joined {c : Char} (hc : c ∈ marks) (hsep : c ∉ sep) :
    c ∉ sep.intercalate (t.flavors.toList.map String.toList) := by
  intro h
  rcases Text.mem_intercalate h with h | ⟨f, hf, h⟩
  · exact hsep h
  · exact ht.not_mem_of_mem_flavors hc f hf h

theorem IsUnmarked.hash_mem_nameWith_iff : '#' ∈ t.nameWith sep ↔ t.isFlavored = true := by
  rw [nameWith]
  split
  · rename_i hflavored
    exact iff_of_true (List.mem_append_right _ List.mem_cons_self) hflavored
  · rename_i hplain
    exact iff_of_false (ht.name '#' (by decide)) hplain

theorem IsUnmarked.slash_not_mem_flavoredName : '/' ∉ t.flavoredName.toList :=
  not_mem_flavoredName (by decide) (by decide) (ht.name '/' (by decide))
    fun f hf => ht.flavors f hf '/' (by decide)

theorem IsUnmarked.splitOn_nameWith (hsep : '#' ∉ sep) (h : t.isFlavored = true) :
    (t.nameWith sep).splitOn '#' =
      [t.name.toList, sep.intercalate (t.flavors.toList.map String.toList)] :=
  Text.splitOn_eq_pair_iff.2 ⟨if_pos h, ht.name '#' (by decide), ht.not_mem_joined sep (by decide) hsep⟩

include hu

/-- The name with its flavors determines the name and the text that the flavors are joined to. -/
theorem nameWith_eq_iff (hsep : '#' ∉ sep) : t.nameWith sep = u.nameWith sep ↔
    t.name = u.name ∧ t.isFlavored = u.isFlavored ∧
      sep.intercalate (t.flavors.toList.map String.toList) =
        sep.intercalate (u.flavors.toList.map String.toList) := by
  constructor
  · intro h
    have hflavored : t.isFlavored = true ↔ u.isFlavored = true := by
      rw [← ht.hash_mem_nameWith_iff sep, ← hu.hash_mem_nameWith_iff sep, h]
    by_cases hf : t.isFlavored = true
    · have hg := hflavored.1 hf
      have hparts := ht.splitOn_nameWith sep hsep hf
      rw [h, hu.splitOn_nameWith sep hsep hg] at hparts
      obtain ⟨hname, hrest⟩ := List.cons.inj hparts
      exact ⟨(String.toList_inj.1 hname).symm, hf.trans hg.symm, (List.cons.inj hrest).1.symm⟩
    · have hg := mt hflavored.2 hf
      rw [nameWith, nameWith, if_neg hf, if_neg hg, String.toList_inj] at h
      rw [flavors_of_not_isFlavored hf, flavors_of_not_isFlavored hg]
      exact ⟨h, (Bool.eq_false_iff.2 hf).trans (Bool.eq_false_iff.2 hg).symm, rfl⟩
  · rintro ⟨hname, hflavored, hjoined⟩
    rw [nameWith, nameWith, hname, hflavored, hjoined]

/-- Where pieces are cut apart again at the separator, the name with its flavors determines both. -/
theorem eq_of_nameWith_eq (hsep : '#' ∉ sep) (cut : List Char → List (List Char))
    (htcut : t.isFlavored = true →
      cut (sep.intercalate (t.flavors.toList.map String.toList)) = t.flavors.toList.map String.toList)
    (hucut : u.isFlavored = true →
      cut (sep.intercalate (u.flavors.toList.map String.toList)) = u.flavors.toList.map String.toList)
    (h : t.nameWith sep = u.nameWith sep) : t.name = u.name ∧ t.flavors = u.flavors := by
  obtain ⟨hname, hflavored, hjoined⟩ := (nameWith_eq_iff sep ht hu hsep).1 h
  refine ⟨hname, ?_⟩
  by_cases hf : t.isFlavored = true
  · have hpieces := congrArg cut hjoined
    rw [htcut hf, hucut (hflavored ▸ hf)] at hpieces
    exact flavors_eq_of_map_eq hpieces
  · have hg : ¬ u.isFlavored = true := hflavored ▸ hf
    exact (flavors_of_not_isFlavored hf).trans (flavors_of_not_isFlavored hg).symm

theorem eq_of_flavoredName_eq (h : t.flavoredName = u.flavoredName) : t.name = u.name ∧ t.flavors = u.flavors := by
  have hchars := congrArg String.toList h
  rw [toList_flavoredName, toList_flavoredName] at hchars
  have hcut {v : Target} (hv : v.IsUnmarked) (hflavored : v.isFlavored = true) :
      ([','].intercalate (v.flavors.toList.map String.toList)).splitOn ',' = v.flavors.toList.map String.toList :=
    List.splitOn_intercalate ',' (hv.not_mem_of_mem_flavors (by decide)) (flavors_ne_nil hflavored)
  exact eq_of_nameWith_eq [','] ht hu (by decide) (List.splitOn ',') (hcut ht) (hcut hu) hchars

end Unmarked

theorem eq_of_parts_eq (hbase : t.basePath = u.basePath) (h : t.name = u.name ∧ t.flavors = u.flavors) : t = u := by
  cases t
  cases u
  rw [mk.injEq]
  exact ⟨hbase, h⟩

/-! ### Segments -/

/-- A segment that is read as a name and not as a dot or as `..`. -/
def IsProper (segment : String) : Prop := IsName segment.toList ∧ segment ≠ ".."

theorem isProper_of_mem {segment : String} {c : Char} (hslash : '/' ∉ segment.toList) (hc : c ∈ segment.toList)
    (hdot : c ≠ '.') : IsProper segment := by
  refine ⟨⟨hslash, Path.isVoid_eq_false_of_mem hc hdot⟩, ?_⟩
  rintro rfl
  have hdots : "..".toList = ['.', '.'] := rfl
  rw [hdots] at hc
  exact hdot (by simpa using hc)

theorem isProper_segment (ht : '/' ∉ t.flavoredName.toList) {template : Template} (h : template.isFrame = true) :
    IsProper (t.segment template) := by
  obtain ⟨front, back, hcut, hline, hslash⟩ := Template.exists_of_isFrame h
  have hmem (c : Char) : c ∈ (t.segment template).toList ↔ c ∈ front ++ back ∨ c ∈ t.flavoredName.toList := by
    rw [toList_segment hcut, List.mem_append, List.mem_append, List.mem_append, or_right_comm]
  apply isProper_of_mem _ ((hmem '_').2 (.inl hline)) (by decide)
  rw [hmem]
  exact not_or.2 ⟨hslash, ht⟩

theorem flavoredName_eq_of_segment_eq {template : Template} (h : template.isFrame = true)
    (hsegment : t.segment template = u.segment template) : t.flavoredName = u.flavoredName := by
  obtain ⟨front, back, hcut, -⟩ := Template.exists_of_isFrame h
  have hchars := congrArg String.toList hsegment
  rw [toList_segment hcut, toList_segment hcut, List.append_cancel_right_eq, List.append_cancel_left_eq] at hchars
  exact String.toList_inj.1 hchars

/-! ### Segments of merged output -/

theorem toList_segment_merged (t : Target) (flavored : Bool) :
    (t.segment (.merged flavored)).toList = t.flavoredName.toList ++ if flavored then [] else ['_', '_'] := by
  have hsegment {back : List Char}
      (h : Text.splitAll ['%', 's'] (Template.merged flavored).text.toList = [[], back]) :
      (t.segment (.merged flavored)).toList = [] ++ t.flavoredName.toList ++ back := toList_segment h
  rw [List.nil_append] at hsegment
  cases flavored
  · exact hsegment (by decide)
  · exact hsegment (by decide)

theorem IsUnmarked.hash_mem_segment_merged_iff (ht : t.IsUnmarked) :
    '#' ∈ (t.segment (.merged t.isFlavored)).toList ↔ t.isFlavored = true := by
  rw [toList_segment_merged, List.mem_append, toList_flavoredName, ht.hash_mem_nameWith_iff]
  cases t.isFlavored
  · exact iff_of_false (by decide) (by decide)
  · exact iff_of_true (.inl rfl) rfl

theorem isProper_segment_merged (ht : '/' ∉ t.flavoredName.toList) : IsProper (t.segment (.merged t.isFlavored)) := by
  by_cases hflavored : t.isFlavored = true
  · have hsegment : (t.segment (.merged t.isFlavored)).toList = t.flavoredName.toList := by
      rw [toList_segment_merged, hflavored, if_pos rfl, List.append_nil]
    have hhash : '#' ∈ t.flavoredName.toList := by
      rw [toList_flavoredName, nameWith, if_pos hflavored]
      exact List.mem_append_right _ List.mem_cons_self
    rw [← hsegment] at ht hhash
    exact isProper_of_mem ht hhash (by decide)
  · rw [Bool.not_eq_true] at hflavored
    rw [hflavored]
    exact isProper_segment ht (by decide +kernel)

end Target

/-! ### Paths -/

namespace OutputRoots

open Target

variable {root : Path} {t u : Target} {template other : Template}

theorem components_pathIn (root : Path) (ht : t.IsPlain) (h : IsProper (t.segment template)) :
    (pathIn root t template).components =
      root.components ++ t.base.components ++ [.name (t.segment template)] := by
  obtain ⟨names, hnames, hbase, -⟩ := ht.exists_base_eq
  rw [pathIn, Path.components_entry _ (Path.components_mk h.1 h.2), hbase,
    Path.components_join_relative root hnames, Path.components_relative hnames]

/-- What two generated paths in one tree have in common when they match. -/
theorem eq_of_components_pathIn (ht : t.IsPlain) (hu : u.IsPlain) (hsegment : IsProper (t.segment template))
    (hsegment' : IsProper (u.segment other))
    (h : (pathIn root t template).components = (pathIn root u other).components) :
    t.basePath = u.basePath ∧ t.segment template = u.segment other := by
  rw [components_pathIn root ht hsegment, components_pathIn root hu hsegment'] at h
  obtain ⟨hfront, hlast⟩ := List.append_inj' h rfl
  exact ⟨basePath_eq_of_components_eq ht hu (List.append_cancel_left hfront),
    Component.name.inj (List.cons.inj hlast).1⟩

theorem eq_of_pathIn_beq (ht : t.IsPlain) (hu : u.IsPlain) (htemplate : template.isFrame = true)
    (h : (pathIn root t template == pathIn root u template) = true) : t = u := by
  obtain ⟨hbase, hsegment⟩ := eq_of_components_pathIn ht hu
    (isProper_segment ht.isUnmarked.slash_not_mem_flavoredName htemplate)
    (isProper_segment hu.isUnmarked.slash_not_mem_flavoredName htemplate) (Path.beq_iff.1 h)
  exact eq_of_parts_eq hbase (eq_of_flavoredName_eq ht.isUnmarked hu.isUnmarked
    (flavoredName_eq_of_segment_eq htemplate hsegment))

/-! ### Merged output -/

theorem components_mergedPath (roots : OutputRoots) (t : Target) :
    (roots.mergedPath t).components =
      (pathIn roots.gen t (.merged t.isFlavored)).components ++ [.name "__generated__"] :=
  Path.components_entry _ (by decide +kernel)

theorem eq_of_mergedPath_beq (roots : OutputRoots) (ht : t.IsPlain) (hu : u.IsPlain)
    (h : (roots.mergedPath t == roots.mergedPath u) = true) : t = u := by
  rw [Path.beq_iff, components_mergedPath, components_mergedPath] at h
  obtain ⟨hbase, hsegment⟩ := eq_of_components_pathIn ht hu
    (isProper_segment_merged ht.isUnmarked.slash_not_mem_flavoredName)
    (isProper_segment_merged hu.isUnmarked.slash_not_mem_flavoredName) (List.append_cancel_right h)
  have hflavored : t.isFlavored = u.isFlavored := by
    rw [Bool.eq_iff_iff, ← ht.isUnmarked.hash_mem_segment_merged_iff,
      ← hu.isUnmarked.hash_mem_segment_merged_iff, hsegment]
  have hchars := congrArg String.toList hsegment
  rw [toList_segment_merged, toList_segment_merged, hflavored, List.append_cancel_right_eq] at hchars
  exact eq_of_parts_eq hbase (eq_of_flavoredName_eq ht.isUnmarked hu.isUnmarked (String.toList_inj.1 hchars))

end OutputRoots

/-- Targets that share a path made with one template, or the place of their merged output, are one target. -/
theorem generated_paths_tell_targets_apart (roots : OutputRoots) {t u : Target} (ht : t.IsPlain) (hu : u.IsPlain)
    (h : (∃ template ∈ Template.frames, (roots.genPath t template == roots.genPath u template) = true ∨
        (roots.annotationPath t template == roots.annotationPath u template) = true ∨
        (roots.scratchPath t template == roots.scratchPath u template) = true) ∨
      (roots.mergedPath t == roots.mergedPath u) = true) : t = u := by
  rcases h with ⟨template, htemplate, h⟩ | h
  · have hframe := Template.isFrame_of_mem_frames template htemplate
    rcases h with h | h | h
    · exact OutputRoots.eq_of_pathIn_beq ht hu hframe h
    · exact OutputRoots.eq_of_pathIn_beq ht hu hframe h
    · exact OutputRoots.eq_of_pathIn_beq ht hu hframe h
  · exact OutputRoots.eq_of_mergedPath_beq roots ht hu h

/-- A target above the project, with a mark of a template in its name and a flavor without a text. -/
def upperTarget (flavors : List String) : Target := ⟨"java/../..", "__%s_", .ofList flavors⟩

theorem isPlain_upperTarget {flavors : List String}
    (h : ∀ f ∈ (upperTarget flavors).flavors.toList, '/' ∉ f.toList ∧ '#' ∉ f.toList ∧ ',' ∉ f.toList) :
    (upperTarget flavors).IsPlain where
  basePath := by
    refine ⟨["java".toList, "..".toList, "..".toList], by decide +kernel, ?_⟩
    show "java/../.." = _
    decide +kernel
  name := by
    have hname : '/' ∉ "__%s_".toList ∧ '#' ∉ "__%s_".toList ∧ ',' ∉ "__%s_".toList := by decide +kernel
    exact Target.forall_mem_marks hname
  flavors f hf := Target.forall_mem_marks (h f hf)

theorem upperTarget_told_by_paths :
    ((OutputRoots.below ⟨"out"⟩).annotationPath (upperTarget ["abi", ""]) .stubs ==
      (OutputRoots.below ⟨"out"⟩).annotationPath (upperTarget ["", "abi", ""]) .stubs) = true ∧
    upperTarget ["abi", ""] = upperTarget ["", "abi", ""] := by
  have hpath : ((OutputRoots.below ⟨"out"⟩).annotationPath (upperTarget ["abi", ""]) .stubs ==
      (OutputRoots.below ⟨"out"⟩).annotationPath (upperTarget ["", "abi", ""]) .stubs) = true := by
    decide +kernel
  exact ⟨hpath, generated_paths_tell_targets_apart (.below ⟨"out"⟩) (isPlain_upperTarget (by decide +kernel))
    (isPlain_upperTarget (by decide +kernel)) (.inl ⟨.stubs, List.mem_cons_self, .inr (.inl hpath)⟩)⟩

/-- With a comma in a flavor, two targets share all paths. -/
example : (OutputRoots.below ⟨"out"⟩).genPath ⟨"lib", "a", .ofList ["b,c"]⟩ .stubs =
    (OutputRoots.below ⟨"out"⟩).genPath ⟨"lib", "a", .ofList ["b", "c"]⟩ .stubs := by
  decide +kernel

end JarPlan
