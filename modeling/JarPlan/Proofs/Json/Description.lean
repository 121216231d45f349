import JarPlan.Json.Description
import JarPlan.Proofs.Json.Pretty
import JarPlan.Proofs.Lists
import JarPlan.Proofs.Sorted.Map
import JarPlan.Proofs.Sorted.Set
/-!
# Values read back from their descriptions

A description is faithful when the value can be read back from it, as it was spelled, and when it holds no
numbers, so that it can be read back from its texts as well. Texts are faithful, and lists, sets and maps of
faithful values are. A record is if its fields are and have different names: each field is then found by its name.
-/

namespace JarPlan

namespace Json

/-! ### Values without numbers -/

theorem isPlain_null : IsPlain null := List.forall_mem_singleton.2 rfl

theorem isPlain_bool (value : Bool) : IsPlain (bool value) := List.forall_mem_singleton.2 rfl

theorem isPlain_string (text : Option String) : IsPlain (string text) := List.forall_mem_singleton.2 rfl

theorem isNumber_of_mem_moreItemTokens {items : List Json} (h : ∀ j ∈ items, IsPlain j) :
    ∀ token ∈ moreItemTokens items, token.isNumber = false := by
  induction items with
  | nil => exact List.forall_mem_singleton.2 rfl
  | cons item rest ih =>
    obtain ⟨hitem, hrest⟩ := List.forall_mem_cons.1 h
    exact List.forall_mem_append.2 ⟨List.forall_mem_cons.2 ⟨rfl, hitem⟩, ih hrest⟩

theorem isPlain_array {items : List Json} (h : ∀ j ∈ items, IsPlain j) : IsPlain (array items) := by
  rw [IsPlain, tokens, List.forall_mem_cons]
  refine ⟨rfl, ?_⟩
  cases items with
  | nil => exact List.forall_mem_singleton.2 rfl
  | cons item rest =>
    obtain ⟨hitem, hrest⟩ := List.forall_mem_cons.1 h
    exact List.forall_mem_append.2 ⟨hitem, isNumber_of_mem_moreItemTokens hrest⟩

theorem isNumber_of_mem_field {name : Option String} {value : Json} (h : IsPlain value) :
    ∀ token ∈ .string name :: .colon :: tokens value, token.isNumber = false :=
  List.forall_mem_cons.2 ⟨rfl, List.forall_mem_cons.2 ⟨rfl, h⟩⟩

theorem isNumber_of_mem_moreFieldTokens {fields : List (Option String × Json)} (h : ∀ f ∈ fields, IsPlain f.2) :
    ∀ token ∈ moreFieldTokens fields, token.isNumber = false := by
  induction fields with
  | nil => exact List.forall_mem_singleton.2 rfl
  | cons field rest ih =>
    obtain ⟨hfield, hrest⟩ := List.forall_mem_cons.1 h
    exact List.forall_mem_append.2 ⟨List.forall_mem_cons.2 ⟨rfl, isNumber_of_mem_field hfield⟩, ih hrest⟩

theorem isPlain_object {fields : List (Option String × Json)} (h : ∀ f ∈ fields, IsPlain f.2) :
    IsPlain (object fields) := by
  rw [IsPlain, tokens, List.forall_mem_cons]
  refine ⟨rfl, ?_⟩
  cases fields with
  | nil => exact List.forall_mem_singleton.2 rfl
  | cons field rest =>
    obtain ⟨hfield, hrest⟩ := List.forall_mem_cons.1 h
    exact List.forall_mem_append.2 ⟨isNumber_of_mem_field hfield, isNumber_of_mem_moreFieldTokens hrest⟩

theorem isPlain_record {fields : List (String × Json)} (h : ∀ f ∈ fields, IsPlain f.2) : (record fields).IsPlain := by
  apply isPlain_object
  intro f hf
  obtain ⟨field, hfield, rfl⟩ := List.mem_map.1 hf
  exact h field hfield

theorem isPlain_choose {name : String} {value : Json} (h : value.IsPlain) : (choose name value).IsPlain :=
  isPlain_record (List.forall_mem_singleton.2 h)

/-! ### Fields -/

theorem namedFields?_map (fields : List (String × Json)) :
    namedFields? (fields.map fun f => (some f.1, f.2)) = some fields := by
  have hnamed : namedFields? (fields.map fun f => (some f.1, f.2)) = some (fields.map id) :=
    mapM_map_eq_some fun _ _ => rfl
  rwa [List.map_id] at hnamed

theorem slot?_of_mem {fields : List (String × Json)} (hnames : (fields.map Prod.fst).Nodup) {f : String × Json}
    (hf : f ∈ fields) : slot? fields f.1 = some (.given f.2) := by
  have hpair : fields.Pairwise fun a b => ¬ (decide (a.1 = f.1) = true ∧ decide (b.1 = f.1) = true) := by
    rw [List.Nodup, List.pairwise_map] at hnames
    refine hnames.imp fun {a b} hne hboth => hne ?_
    rw [of_decide_eq_true hboth.1, of_decide_eq_true hboth.2]
  rw [slot?, filter_eq_singleton hpair hf (decide_eq_true rfl)]

/-- In a record every field is found. -/
theorem slots?_record {fields : List (String × Json)} {names : List String} (hfields : fields.map Prod.fst = names)
    (hnames : names.Nodup) : (record fields).slots? names = some (fields.map fun f => .given f.2) := by
  subst hfields
  rw [record, slots?, namedFields?_map]
  exact mapM_map_eq_some fun f hf => slot?_of_mem hnames hf

/-- What is made of the fields of a record. -/
theorem slots?_record_bind {α : Type} {fields : List (String × Json)} {names : List String}
    {f : List Slot → Option α} {a : Option α} (hfields : fields.map Prod.fst = names) (hnames : names.Nodup)
    (ha : f (fields.map fun f => .given f.2) = a) : (record fields).slots? names >>= f = a := by
  rw [slots?_record hfields hnames]
  exact ha

end Json

/-! ### Faithful descriptions -/

/-- Descriptions that tell all there is to a value. -/
class Faithful (α : Type) [ToJson α] [OfJson α] : Prop where
  isPlain (a : α) : (toJson a).IsPlain
  ofJson?_toJson (a : α) : ofJson? (toJson a) = some a

open Faithful

attribute [simp] ofJson?_toJson

/-- A value is read back from the text of its description. -/
theorem Faithful.read {α : Type} [ToJson α] [OfJson α] [Faithful α] (a : α) :
    (Json.read? (toJson a).compact).bind ofJson? = some a := by
  rw [Json.read?_compact (isPlain a)]
  exact ofJson?_toJson a

/-- The texts that are written of a value. -/
def Json.texts (j : Json) : List String := [j.compact, j.pretty]

/-- A value is read back from either text. -/
theorem Faithful.read_of_mem_texts {α : Type} [ToJson α] [OfJson α] [Faithful α] {a : α} {text : String}
    (h : text ∈ (toJson a).texts) : (Json.read? text).bind ofJson? = some a := by
  rcases List.mem_pair.1 h with rfl | rfl
  · exact Faithful.read a
  · rw [Json.read?_pretty (isPlain a)]
    exact ofJson?_toJson a

instance : Faithful Bool where
  isPlain value := Json.isPlain_bool value
  ofJson?_toJson _ := rfl

instance : Faithful String where
  isPlain s := Json.isPlain_string (some s)
  ofJson?_toJson _ := rfl

variable {α : Type} [ToJson α] [OfJson α] [Faithful α]

omit [ToJson α] [Faithful α] in
theorem ofJson?_option {j : Json} (h : j ≠ .null) : (ofJson? j : Option (Option α)) = (ofJson? j).map some := by
  cases j with
  | null => exact absurd rfl h
  | _ => rfl

/-- What is written as null is none, so a value must not be. -/
theorem faithful_option (h : ∀ a : α, toJson a ≠ .null) : Faithful (Option α) where
  isPlain
    | none => Json.isPlain_null
    | some a => isPlain a
  ofJson?_toJson
    | none => rfl
    | some a => by
      have hread : (ofJson? (toJson a) : Option (Option α)) = (ofJson? (toJson a)).map some :=
        ofJson?_option (h a)
      rwa [ofJson?_toJson, Option.map_some] at hread

instance : Faithful (List α) where
  isPlain l := by
    apply Json.isPlain_array
    intro j hj
    obtain ⟨a, -, rfl⟩ := List.mem_map.1 hj
    exact isPlain a
  ofJson?_toJson l := by
    have hitems : (l.map toJson).mapM ofJson? = some (l.map id) := mapM_map_eq_some fun a _ => ofJson?_toJson a
    rwa [List.map_id] at hitems

instance [Ord α] [Std.TransOrd α] : Faithful (SortedSet α) where
  isPlain s := isPlain s.toList
  ofJson?_toJson s := by
    show (ofJson? (toJson s.toList)).map SortedSet.ofList = some s
    rw [ofJson?_toJson, Option.map_some, SortedSet.ofList_toList]

section Maps
variable {κ : Type} [Ord κ] [Std.TransOrd κ]

/-- A map is read back when its keys are read back from their names. -/
theorem Json.toMap?_ofMap {name : κ → String} {key : String → κ} (hkey : ∀ k, key (name k) = k)
    (m : SortedMap κ α) : Json.toMap? key (Json.ofMap name m) = some m := by
  have hentries : (m.entries.map fun e => (name e.1, toJson e.2)).mapM
      (fun f => (ofJson? f.2 : Option α).map fun value => (key f.1, value)) = some (m.entries.map id) := by
    apply mapM_map_eq_some
    intro e _
    rw [ofJson?_toJson, Option.map_some, hkey]
    rfl
  rw [Json.ofMap, Json.record, Json.toMap?, Json.namedFields?_map, Option.bind_eq_bind, Option.bind_some, hentries,
    List.map_id, Option.bind_eq_bind, Option.bind_some, SortedMap.ofList_entries]
  rfl

omit [OfJson α] [Std.TransOrd κ] [Faithful α] in
theorem Json.isPlain_ofMap (hvalue : ∀ a : α, (toJson a).IsPlain) (name : κ → String) (m : SortedMap κ α) :
    (Json.ofMap name m).IsPlain := by
  apply Json.isPlain_record
  intro f hf
  obtain ⟨e, -, rfl⟩ := List.mem_map.1 hf
  exact hvalue e.2

end Maps

instance : Faithful (SortedMap String α) where
  isPlain m := Json.isPlain_ofMap isPlain id m
  ofJson?_toJson m := Json.toMap?_ofMap (fun _ => rfl) m

namespace Json.Slot

@[simp] theorem required?_toJson (a : α) : (given (toJson a)).required? = some a := ofJson?_toJson a

@[simp] theorem orElse?_toJson (default a : α) : (given (toJson a)).orElse? default = some a := ofJson?_toJson a

omit [Faithful α] in
@[simp] theorem optional?_toJson [Faithful (Option α)] (a : Option α) :
    (given (toJson a)).optional? = some a :=
  ofJson?_toJson a

end Json.Slot

end JarPlan
