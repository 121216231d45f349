import JarPlan.Proofs.Bytes.Base64
import JarPlan.Proofs.OptionToken.Reading
import JarPlan.Proofs.Sorted.Map
import JarPlan.Proofs.Text.Trim
/-!
# The tokens that are accepted

A token is decoded exactly when the bytes it carries are an option stream, and what it decodes to are
the pairs of the stream, put into a map one after the other. Only the payload matters to this: a stream
that is cut into other records decodes to the same, be it a map or an error.
-/

namespace JarPlan.OptionToken

/-! ### The bytes of a token -/

/-- White space around the text of a byte string does not count. -/
theorem tokenBytes_of_blanks {before after : List Char} (hbefore : ∀ c ∈ before, Text.isBlank c = true)
    (hafter : ∀ c ∈ after, Text.isBlank c = true) (bytes : List UInt8) :
    tokenBytes (String.ofList (before ++ (Bytes.Base64.encode bytes).toList ++ after)) = .ok bytes := by
  have hfirst : ∀ c ∈ (Bytes.Base64.encode bytes).toList.head?, Text.isBlank c = false := fun c hc =>
    Bytes.Base64.isBlank_of_mem_encode (List.mem_of_mem_head? hc)
  have hlast : ∀ c ∈ (Bytes.Base64.encode bytes).toList.getLast?, Text.isBlank c = false := fun c hc =>
    Bytes.Base64.isBlank_of_mem_encode (List.mem_of_mem_getLast? hc)
  rw [tokenBytes, String.toList_ofList, Text.trim_append hbefore hafter hfirst hlast, String.ofList_toList,
    Bytes.Base64.decode_utf8_encode]

theorem tokenBytes_encode (bytes : List UInt8) : tokenBytes (Bytes.Base64.encode bytes) = .ok bytes := by
  have hnone : ∀ c ∈ ([] : List Char), Text.isBlank c = true := by simp
  have h := tokenBytes_of_blanks hnone hnone bytes
  rwa [List.nil_append, List.append_nil, String.ofList_toList] at h

/-! ### Decoding -/

section Decoding
variable {token : String} {bytes : List UInt8} (hbytes : tokenBytes token = .ok bytes)
include hbytes

theorem decode_of_tokenBytes : decode token = (readStream bytes).mapError .malformed := by
  rw [decode, hbytes]
  rfl

theorem decode_eq_ok_iff {options : SortedMap String String} :
    decode token = .ok options ↔ ∃ pairs, IsStream bytes pairs ∧ options = .ofList pairs := by
  rw [decode_of_tokenBytes hbytes, mapError_eq_ok, readStream_eq_ok_iff]

/-- The records of a stream matter by their bodies alone, taken together. -/
theorem decode_of_isFramed {bodies : List (List UInt8)} (hbodies : IsFramed bytes bodies) :
    decode token = (readPayload bodies.flatten).mapError .malformed := by
  have hpayload := unframe_eq_ok_iff.2 ⟨bodies, hbodies, rfl⟩
  rw [decode_of_tokenBytes hbytes, readStream, hpayload]
  rfl

end Decoding

/-- Every byte string can be given as a token, and a token for it is accepted exactly when it is an
option stream; the map returned holds for each key the last of its values. -/
theorem decode_accepts_exactly_streams (bytes : List UInt8) :
    tokenBytes (Bytes.Base64.encode bytes) = .ok bytes ∧
      ∀ token, tokenBytes token = .ok bytes →
        (∀ options, decode token = .ok options ↔
          ∃ pairs, IsStream bytes pairs ∧ options = .ofList pairs) ∧
        (∀ pairs, IsStream bytes pairs → ∃ options, decode token = .ok options ∧
          ∀ k, options.get? k = pairs.reverse.lookup k) ∧
        ∀ token' bytes' bodies bodies', tokenBytes token' = .ok bytes' → IsFramed bytes bodies →
          IsFramed bytes' bodies' → bodies.flatten = bodies'.flatten → decode token = decode token' := by
  refine ⟨tokenBytes_encode bytes, fun token hbytes => ⟨fun options => decode_eq_ok_iff hbytes, ?_, ?_⟩⟩
  · intro pairs hpairs
    refine ⟨.ofList pairs, (decode_eq_ok_iff hbytes).2 ⟨pairs, hpairs, rfl⟩, fun k => ?_⟩
    exact SortedMap.get?_ofList pairs k
  · intro token' bytes' bodies bodies' hbytes' hbodies hbodies' hpayload
    rw [decode_of_isFramed hbytes hbodies, decode_of_isFramed hbytes' hbodies', hpayload]

/-- A stream of three records: an empty one, and two that cut the first key from its length. The key
occurs twice, with the empty string and with a character of three bytes. -/
def cutStream : List UInt8 :=
  [0xAC, 0xED, 0x00, 0x05, 0x77, 0x00, 0x7A, 0x00, 0x00, 0x00, 0x06, 0x00, 0x00, 0x00, 0x02, 0x00, 0x01,
    0x77, 0x0B, 0x61, 0x00, 0x00, 0x00, 0x01, 0x61, 0x00, 0x03, 0xE2, 0x82, 0xAC]

theorem cutStream_isStream : IsStream cutStream [("a", ""), ("a", "€")] := by
  have ha : IsText [0x61] "a" := .cons (.one 0x61 (by decide)) .nil
  have heuro : IsText [0xE2, 0x82, 0xAC] "€" := .cons (.three 2 2 0x2C (by decide) (by decide) (by decide)) .nil
  have hkey : IsString [0x00, 0x01, 0x61] "a" := .mk 0x00 0x01 rfl ha
  have hempty : IsString [0x00, 0x00] "" := .mk 0x00 0x00 rfl .nil
  have hvalue : IsString [0x00, 0x03, 0xE2, 0x82, 0xAC] "€" := .mk 0x00 0x03 rfl heuro
  have hfirst : IsRecord [0x77, 0x00] [] := .short 0x00 rfl
  have hsecond : IsRecord [0x7A, 0x00, 0x00, 0x00, 0x06, 0x00, 0x00, 0x00, 0x02, 0x00, 0x01]
      [0x00, 0x00, 0x00, 0x02, 0x00, 0x01] := .long 0x00 0x00 0x00 0x06 rfl
  have hthird : IsRecord [0x77, 0x0B, 0x61, 0x00, 0x00, 0x00, 0x01, 0x61, 0x00, 0x03, 0xE2, 0x82, 0xAC]
      [0x61, 0x00, 0x00, 0x00, 0x01, 0x61, 0x00, 0x03, 0xE2, 0x82, 0xAC] := .short 0x0B rfl
  refine ⟨_, ⟨_, rfl, .cons hfirst (.cons hsecond (.cons hthird .nil))⟩,
    .mk 0x00 0x00 0x00 0x02 (by decide) ?_⟩
  have hpairs := IsPairs.cons hkey hempty (.cons hkey hvalue .nil)
  exact hpairs

theorem decode_cutStream :
    decode (Bytes.Base64.encode cutStream) = .ok (SortedMap.ofList [("a", ""), ("a", "€")]) :=
  (((decode_accepts_exactly_streams cutStream).2 _ (decode_accepts_exactly_streams cutStream).1).1 _).2
    ⟨_, cutStream_isStream, rfl⟩

end JarPlan.OptionToken
