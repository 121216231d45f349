import JarPlan.Proofs.OptionToken.Acceptance
import JarPlan.Proofs.OptionToken.Writing
/-!
# What has no room in a token

The count of entries and the lengths of strings are fields of fixed size, and a map is refused where one of
them overflows. The count is looked at first and then the strings in the order they are written, so the
error names the first string that is too long. Where nothing is refused, the token decodes to the map.
-/

namespace JarPlan.OptionToken

/-- The strings of a map in the order they are written, each key before its value. -/
def strings (options : SortedMap String String) : List String :=
  options.entries.flatMap fun e => [e.1, e.2]

theorem forall_mem_strings_iff {options : SortedMap String String} {P : String → Prop} :
    (∀ s ∈ strings options, P s) ↔ ∀ e ∈ options.entries, P e.1 ∧ P e.2 := by
  simp only [strings, List.forall_mem_flatMap, List.mem_pair, forall_eq_or_imp, forall_eq]

/-- The error for a string that its length field has no room for. -/
def tooLong (s : String) : Error :=
  .stringTooLong (encodeText s).length (String.ofList (s.toList.take 32))

theorem find?_eq_none_iff {texts : List String} :
    texts.find? (fun s => ¬ Fits s) = none ↔ ∀ s ∈ texts, Fits s := by simp

theorem encodeString_of_not_fits {s : String} (hs : ¬ Fits s) : encodeString s = .error (tooLong s) := if_neg hs

theorem mapM_encodeEntry_of_find? {entries : List (String × String)} {s : String}
    (h : (entries.flatMap fun e => [e.1, e.2]).find? (fun s => ¬ Fits s) = some s) :
    entries.mapM encodeEntry = .error (tooLong s) := by
  induction entries with
  | nil => cases h
  | cons e rest ih =>
    rw [List.flatMap_cons, List.cons_append, List.singleton_append] at h
    rw [List.mapM_cons]
    by_cases hkey : Fits e.1
    · rw [List.find?_cons_of_neg (by simpa using hkey)] at h
      by_cases hvalue : Fits e.2
      · rw [List.find?_cons_of_neg (by simpa using hvalue)] at h
        rw [encodeEntry_of_fits hkey hvalue, ih h]
        rfl
      · rw [List.find?_cons_of_pos (by simpa using hvalue)] at h
        obtain rfl := Option.some.inj h
        rw [encodeEntry, encodeString_of_fits hkey, encodeString_of_not_fits hvalue]
        rfl
    · rw [List.find?_cons_of_pos (by simpa using hkey)] at h
      obtain rfl := Option.some.inj h
      rw [encodeEntry, encodeString_of_not_fits hkey]
      rfl

theorem encode_of_count {options : SortedMap String String} (hsize : maxCount < options.size) :
    encode options = .error (.tooManyEntries options.size) := by
  rw [encode, encodePayload, if_pos hsize]
  rfl

theorem encode_of_find? {options : SortedMap String String} (hsize : options.size ≤ maxCount) {s : String}
    (h : (strings options).find? (fun s => ¬ Fits s) = some s) : encode options = .error (tooLong s) := by
  rw [encode, encodePayload, if_neg (Nat.not_lt.2 hsize), mapM_encodeEntry_of_find? h]
  rfl

section Fits
variable {options : SortedMap String String} (hsize : options.size ≤ maxCount) (h : ∀ s ∈ strings options, Fits s)
include hsize h

theorem encode_eq_of_fits : ∃ payload, encode options = .ok (Bytes.Base64.encode (frame payload)) ∧
    IsPayload payload options.entries := by
  obtain ⟨payload, hpayload, hpairs⟩ := encodePayload_of_fits hsize (forall_mem_strings_iff.1 h)
  exact ⟨payload, by rw [encode, hpayload]; rfl, hpairs⟩

theorem encode_of_fits : ∃ token, encode options = .ok token := by
  obtain ⟨payload, hencode, -⟩ := encode_eq_of_fits hsize h
  exact ⟨_, hencode⟩

end Fits

/-- Only what has room is written. -/
theorem room_of_encode {options : SortedMap String String} {token : String} (h : encode options = .ok token) :
    options.size ≤ maxCount ∧ ∀ s ∈ strings options, Fits s := by
  have hsize : options.size ≤ maxCount := by
    by_contra hcount
    rw [encode_of_count (Nat.lt_of_not_le hcount)] at h
    cases h
  refine ⟨hsize, find?_eq_none_iff.1 ?_⟩
  cases hfind : (strings options).find? fun s => ¬ Fits s with
  | none => rfl
  | some s =>
    rw [encode_of_find? hsize hfind] at h
    cases h

/-- A map that is written at all is read back. -/
theorem decode_of_encode {options : SortedMap String String} {token : String} (h : encode options = .ok token) :
    decode token = .ok options := by
  obtain ⟨hsize, hfits⟩ := room_of_encode h
  obtain ⟨payload, hencode, hpairs⟩ := encode_eq_of_fits hsize hfits
  rw [hencode] at h
  obtain rfl := Except.ok.inj h
  exact (decode_eq_ok_iff (tokenBytes_encode _)).2
    ⟨options.entries, isStream_frame hpairs, (SortedMap.ofList_entries options).symm⟩

end JarPlan.OptionToken
