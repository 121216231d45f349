import Mathlib.Data.List.Forall2
import JarPlan.Proofs.OptionToken.Lengths
import JarPlan.Proofs.OptionToken.RoundTrip
/-!
# How the bytes of a token are laid out

The grammar leaves open where a payload is cut into records and in which of its forms a code unit stands, and
reading takes every choice. Another reader may not, so the choices that writing makes are described for
themselves. The payload goes through a buffer of 1024 bytes, which becomes a record each time it is full and once
more at the end. Texts are in modified UTF-8, where each code unit has one form: the shortest, but two bytes for
zero.
-/

namespace JarPlan.OptionToken

/-! ### The layout -/

/-- The records that a buffer of 1024 bytes makes of a payload. All but the last have the long form; the last one
has it only where its length does not fit one byte. -/
inductive IsBuffered : List UInt8 → List UInt8 → Prop where
  /-- The last record, up to 255 bytes. -/
  | short (a : UInt8) {body : List UInt8} (hpos : 0 < body.length) (hlength : body.length = a.toNat) :
    IsBuffered (0x77 :: a :: body) body
  /-- The last record, above 255 bytes. -/
  | long (a b c d : UInt8) {body : List UInt8} (hlong : 255 < body.length) (hle : body.length ≤ 1024)
    (hlength : body.length = quad a b c d) : IsBuffered (0x7A :: a :: b :: c :: d :: body) body
  /-- A full buffer, with others behind it. -/
  | full (a b c d : UInt8) {body rest payload : List UInt8} (hfull : body.length = 1024)
    (hlength : body.length = quad a b c d) (hrest : IsBuffered rest payload) :
    IsBuffered (0x7A :: a :: b :: c :: d :: body ++ rest) (body ++ payload)

/-- The number of bytes that modified UTF-8 has for a code unit. -/
def unitWidth (u : Nat) : Nat := if 0 < u ∧ u < 0x80 then 1 else if u < 0x800 then 2 else 3

/-- The form of a code unit in modified UTF-8. -/
def IsModifiedUnit (bytes : List UInt8) (u : Nat) : Prop := IsCodeUnit bytes u ∧ bytes.length = unitWidth u

/-- A text in modified UTF-8, one code unit of UTF-16 behind the other. -/
def IsModifiedText (bytes : List UInt8) (s : String) : Prop :=
  ∃ forms, List.Forall₂ IsModifiedUnit forms (s.toList.flatMap Text.units) ∧ bytes = forms.flatten

/-- A string: its length in two bytes, and its text in modified UTF-8, in which no byte is zero and none has the
four highest bits set. -/
inductive IsModifiedString : List UInt8 → String → Prop where
  | mk (a b : UInt8) {text : List UInt8} {s : String} (hlength : text.length = a.toNat * 0x100 + b.toNat)
    (htext : IsModifiedText text s) (hbytes : ∀ x ∈ text, x ≠ 0x00 ∧ x < 0xF0) :
    IsModifiedString (a :: b :: text) s

/-- A payload: a signed count of 32 bits, and just as many pairs, each key before its value. -/
inductive IsModifiedPayload : List UInt8 → List (String × String) → Prop where
  | mk (a b c d : UInt8) {strings : List (List UInt8)} {pairs : List (String × String)}
    (hcount : (BitVec.ofNat 32 (quad a b c d)).toInt = pairs.length)
    (hstrings : List.Forall₂ IsModifiedString strings (pairs.flatMap fun e => [e.1, e.2])) :
    IsModifiedPayload (a :: b :: c :: d :: strings.flatten) pairs

/-! ### Records -/

theorem isBuffered_record {block : List UInt8} (hpos : 0 < block.length) (hle : block.length ≤ 1024) :
    IsBuffered (record block) block := by
  rw [record]
  split
  · rename_i hshort
    exact .short _ hpos (toNat_ofNat_byte (Nat.lt_succ_of_le hshort)).symm
  · rename_i hlong
    obtain ⟨a, b, c, d, hbytes, hvalue⟩ := bigEndian_four (n := block.length) (by omega)
    rw [hbytes]
    exact .long a b c d (Nat.lt_of_not_le hlong) hle hvalue.symm

theorem isBuffered_flatMap {full : List (List UInt8)} {last : List UInt8}
    (hfull : ∀ block ∈ full, block.length = 1024) (hpos : 0 < last.length) (hle : last.length ≤ 1024) :
    IsBuffered ((full ++ [last]).flatMap record) (full.flatten ++ last) := by
  induction full with
  | nil => simpa using isBuffered_record hpos hle
  | cons block full ih =>
    obtain ⟨hblock, hrest⟩ := List.forall_mem_cons.1 hfull
    obtain ⟨a, b, c, d, hbytes, hvalue⟩ := bigEndian_four (n := block.length) (by omega)
    have hlong : ¬ block.length ≤ 0xFF := by omega
    have hrecords := IsBuffered.full a b c d hblock hvalue.symm (ih hrest)
    rw [List.cons_append, List.flatMap_cons, record, if_neg hlong, hbytes, List.flatten_cons,
      List.append_assoc block]
    exact hrecords

theorem exists_isBuffered_frame {payload : List UInt8} (h : payload ≠ []) :
    ∃ records, frame payload = [0xAC, 0xED, 0x00, 0x05] ++ records ∧ IsBuffered records payload := by
  obtain ⟨full, last, hcut, hjoin, hfull, hpos, hle⟩ := Bytes.chunks_eq_append (n := blockSize) (by decide) h
  refine ⟨_, rfl, ?_⟩
  rw [hcut, ← hjoin]
  exact isBuffered_flatMap hfull hpos hle

/-! ### Texts -/

theorem isModifiedUnit_unitBytes {u : Nat} (hu : u < 0x10000) : IsModifiedUnit (unitBytes u) u :=
  ⟨isCodeUnit_unitBytes hu, length_unitBytes u⟩

/-- In modified UTF-8 no byte is zero, and none leads a sequence of four. -/
theorem IsModifiedUnit.bytes {bytes : List UInt8} {u : Nat} (h : IsModifiedUnit bytes u) :
    ∀ x ∈ bytes, x ≠ 0x00 ∧ x < 0xF0 := by
  have hbyte {n : Nat} (hpos : 0 < n) (hlt : n < 0xF0) : UInt8.ofNat n ≠ 0x00 ∧ UInt8.ofNat n < 0xF0 := by
    have hvalue : (UInt8.ofNat n).toNat = n := toNat_ofNat_byte (by omega)
    constructor
    · intro hzero
      rw [hzero] at hvalue
      exact absurd hvalue (Nat.ne_of_lt hpos)
    · rw [UInt8.lt_iff_toNat_lt, hvalue]
      exact hlt
  obtain ⟨hform, hwidth⟩ := h
  cases hform with
  | one hlow =>
    -- the form of one byte has room for zero, but its width is two
    have hpos : 0 < u := by
      by_contra hzero
      rw [unitWidth, if_neg fun hone => hzero hone.1] at hwidth
      split at hwidth <;> cases hwidth
    exact List.forall_mem_singleton.2 (hbyte hpos (by omega))
  | two high low hhigh hlow =>
    refine List.forall_mem_cons.2 ⟨hbyte (by omega) (by omega), List.forall_mem_singleton.2 ?_⟩
    exact hbyte (by omega) (by omega)
  | three high mid low hhigh hmid hlow =>
    refine List.forall_mem_cons.2 ⟨hbyte (by omega) (by omega), List.forall_mem_cons.2 ⟨?_, ?_⟩⟩
    · exact hbyte (by omega) (by omega)
    · exact List.forall_mem_singleton.2 (hbyte (by omega) (by omega))

theorem IsModifiedText.bytes {bytes : List UInt8} {s : String} (h : IsModifiedText bytes s) :
    ∀ x ∈ bytes, x ≠ 0x00 ∧ x < 0xF0 := by
  obtain ⟨forms, hforms, rfl⟩ := h
  generalize s.toList.flatMap Text.units = us at hforms
  induction hforms with
  | nil => exact List.forall_mem_nil _
  | cons hform hrest ih =>
    rw [List.flatten_cons]
    exact List.forall_mem_append.2 ⟨hform.bytes, ih⟩

theorem isModifiedText_encodeText (s : String) : IsModifiedText (encodeText s) s := by
  refine ⟨(s.toList.flatMap Text.units).map unitBytes, ?_, ?_⟩
  · rw [List.forall₂_map_left_iff, List.forall₂_same]
    intro u hu
    obtain ⟨c, -, hu⟩ := List.mem_flatMap.1 hu
    exact isModifiedUnit_unitBytes (Text.units_lt c u hu)
  · rw [← List.flatMap_def, List.flatMap_assoc]
    rfl

/-! ### Payloads -/

theorem isModifiedString_stringBytes {s : String} (hs : Fits s) : IsModifiedString (stringBytes s) s := by
  obtain ⟨a, b, hbytes, hvalue⟩ := bigEndian_two (Nat.lt_succ_of_le hs)
  have htext := isModifiedText_encodeText s
  rw [stringBytes, hbytes]
  exact .mk a b hvalue.symm htext htext.bytes

theorem flatMap_entryBytes (entries : List (String × String)) :
    entries.flatMap entryBytes = ((entries.flatMap fun e => [e.1, e.2]).map stringBytes).flatten := by
  rw [← List.flatMap_def, List.flatMap_assoc]
  simp only [List.flatMap_cons, List.flatMap_nil, List.append_nil]
  rfl

section Room
variable {options : SortedMap String String} (hsize : options.size ≤ maxCount) (h : ∀ s ∈ strings options, Fits s)
include hsize h

theorem isModifiedPayload_of_fits :
    IsModifiedPayload (Bytes.bigEndian 4 options.size ++ options.entries.flatMap entryBytes) options.entries := by
  obtain ⟨a, b, c, d, hbytes, hvalue⟩ := bigEndian_four (Nat.lt_of_le_of_lt hsize (by decide))
  rw [hbytes, flatMap_entryBytes]
  refine .mk a b c d (toInt_quad_eq_iff.2 ?_) ?_
  · rw [hvalue]
    exact ⟨hsize, rfl⟩
  · rw [List.forall₂_map_left_iff, List.forall₂_same]
    exact fun s hs => isModifiedString_stringBytes (h s hs)

theorem encode_eq_frame : encode options = .ok (Bytes.Base64.encode
    (frame (Bytes.bigEndian 4 options.size ++ options.entries.flatMap entryBytes))) := by
  rw [encode, encodePayload_eq hsize (forall_mem_strings_iff.1 h)]
  rfl

end Room

theorem pairwise_keys (options : SortedMap String String) : options.entries.Pairwise fun e e' => e.1 < e'.1 :=
  options.ascending.imp fun hlt => compareOfLessAndEq_eq_lt.1 hlt

/-- The bytes of every token are the header and the records that a buffer of 1024 bytes makes, and the payload in
them is the count and then, in ascending order of the keys, each key and its value in modified UTF-8. -/
theorem encode_fills_buffers {options : SortedMap String String} {token : String} (h : encode options = .ok token) :
    ∃ records payload, token = Bytes.Base64.encode ([0xAC, 0xED, 0x00, 0x05] ++ records) ∧
      IsBuffered records payload ∧ IsModifiedPayload payload options.entries ∧
      options.entries.Pairwise fun e e' => e.1 < e'.1 := by
  obtain ⟨hsize, hfits⟩ := room_of_encode h
  have hpayload := isModifiedPayload_of_fits hsize hfits
  have hne : Bytes.bigEndian 4 options.size ++ options.entries.flatMap entryBytes ≠ [] := by
    intro hnil
    rw [hnil] at hpayload
    cases hpayload
  obtain ⟨records, hframe, hrecords⟩ := exists_isBuffered_frame hne
  rw [encode_eq_frame hsize hfits, hframe] at h
  exact ⟨records, _, (Except.ok.inj h).symm, hrecords, hpayload, pairwise_keys options⟩

/-- A full buffer and a short rest, with zero and a character beyond the basic plane in the texts. -/
theorem mixedOptions_fill_buffers :
    ∃ token records payload, encode mixedOptions = .ok token ∧
      token = Bytes.Base64.encode ([0xAC, 0xED, 0x00, 0x05] ++ records) ∧ IsBuffered records payload ∧
      IsModifiedPayload payload [("", "\x00"), ("𝄞", longText)] := by
  have hentries : mixedOptions.entries = [("", "\x00"), ("𝄞", longText)] := rfl
  have hsize : mixedOptions.size ≤ maxCount := by
    rw [SortedMap.size, hentries]
    decide
  have hfits : ∀ s ∈ strings mixedOptions, Fits s := by
    rw [strings, hentries]
    intro s hs
    simp only [List.flatMap_cons, List.flatMap_nil, List.append_nil, List.cons_append, List.nil_append,
      List.mem_cons, List.not_mem_nil, or_false] at hs
    obtain rfl | rfl | rfl | rfl := hs
    · decide
    · decide
    · decide
    · exact fits_longText
  obtain ⟨token, hencode⟩ := encode_of_fits hsize hfits
  obtain ⟨records, payload, htoken, hrecords, hpayload, -⟩ := encode_fills_buffers hencode
  exact ⟨token, records, payload, hencode, htoken, hrecords, hpayload⟩

end JarPlan.OptionToken
