import JarPlan.Proofs.OptionToken.Acceptance
import JarPlan.Proofs.OptionToken.Writing
/-!
# Tokens are read back

A map whose strings fit their length fields is written, and the token decodes to the very same map,
also with white space around it. What the writer produces is in the grammar and the reader accepts the
grammar, so neither is compared with the other: the entries stand in the order of their keys, and
inserting them in this order builds the map again.
-/

namespace JarPlan.OptionToken

theorem decode_encode (options : SortedMap String String) (hsize : options.size ≤ maxCount)
    (hfits : ∀ e ∈ options.entries, Fits e.1 ∧ Fits e.2) :
    ∃ token, encode options = .ok token ∧ decode token = .ok options ∧
      ∀ before after : List Char, (∀ c ∈ before, Text.isBlank c = true) →
        (∀ c ∈ after, Text.isBlank c = true) →
        decode (String.ofList (before ++ token.toList ++ after)) = .ok options := by
  obtain ⟨payload, hpayload, hpairs⟩ := encodePayload_of_fits hsize hfits
  have hstream : ∃ pairs, IsStream (frame payload) pairs ∧ options = .ofList pairs :=
    ⟨options.entries, isStream_frame hpairs, (SortedMap.ofList_entries options).symm⟩
  refine ⟨Bytes.Base64.encode (frame payload), ?_, ?_, ?_⟩
  · rw [encode, hpayload]
    rfl
  · exact (decode_eq_ok_iff (tokenBytes_encode _)).2 hstream
  · intro before after hbefore hafter
    exact (decode_eq_ok_iff (tokenBytes_of_blanks hbefore hafter _)).2 hstream

def longText : String := String.ofList (List.replicate 600 'é')

/-- An empty key, NUL, a character beyond the basic plane, and a value that takes more than one block. -/
def mixedOptions : SortedMap String String := .ofList [("", "\x00"), ("𝄞", longText)]

theorem length_encodeText_replicate (n : Nat) (c : Char) :
    (encodeText (String.ofList (List.replicate n c))).length = n * (charBytes c).length := by
  simp only [encodeText, String.toList_ofList, List.length_flatMap, List.map_replicate,
    List.sum_replicate_nat]

theorem fits_longText : Fits longText := by
  have hlen : (encodeText longText).length = 600 * (charBytes 'é').length :=
    length_encodeText_replicate 600 'é'
  exact Nat.le_trans (Nat.le_of_eq hlen) (by decide)

theorem decode_encode_mixedOptions :
    ∃ token, encode mixedOptions = .ok token ∧ decode token = .ok mixedOptions ∧
      decode (String.ofList ('\n' :: token.toList ++ [' '])) = .ok mixedOptions := by
  have hentries : mixedOptions.entries = [("", "\x00"), ("𝄞", longText)] := rfl
  have hsize : mixedOptions.size ≤ maxCount := by
    rw [SortedMap.size, hentries]
    decide
  have hfits : ∀ e ∈ mixedOptions.entries, Fits e.1 ∧ Fits e.2 := by
    rw [hentries]
    intro e he
    obtain rfl | rfl := List.mem_pair.1 he
    · exact ⟨by decide, by decide⟩
    · exact ⟨by decide, fits_longText⟩
  have hbefore : ∀ c ∈ ['\n'], Text.isBlank c = true := List.forall_mem_singleton.2 (by decide)
  have hafter : ∀ c ∈ [' '], Text.isBlank c = true := List.forall_mem_singleton.2 (by decide)
  obtain ⟨token, hencode, hdecode, hblanks⟩ := decode_encode mixedOptions hsize hfits
  exact ⟨token, hencode, hdecode, hblanks ['\n'] [' '] hbefore hafter⟩

end JarPlan.OptionToken
