import Mathlib.Data.List.Basic
import JarPlan.Proofs.Bytes.Chunks
import JarPlan.Proofs.OptionToken.Reading
/-!
# What the writer of option streams writes

The writer uses one of the many forms the grammar allows: the shortest record for each block, blocks of
one length, and of each code unit a form that never holds the byte zero. What it writes is in the
grammar, and it writes whenever every string fits its length field and the entries fit their count.
-/

namespace JarPlan.OptionToken

/-! ### Texts -/

theorem isCodeUnit_unitBytes {u : Nat} (hu : u < 0x10000) : IsCodeUnit (unitBytes u) u := by
  rw [unitBytes]
  split
  · rename_i hone
    exact .one u hone.2
  · split
    · have h := IsCodeUnit.two (u / 0x40) (u % 0x40) (by omega) (by omega)
      rwa [Nat.div_add_mod'] at h
    · have h := IsCodeUnit.three (u / 0x1000) (u / 0x40 % 0x40) (u % 0x40) (by omega) (by omega) (by omega)
      have hvalue : u / 0x1000 * 0x1000 + u / 0x40 % 0x40 * 0x40 + u % 0x40 = u := by omega
      rwa [hvalue] at h

theorem isCodeUnits_flatMap {us : List Nat} (hus : ∀ u ∈ us, u < 0x10000) :
    IsCodeUnits (us.flatMap unitBytes) us := by
  induction us with
  | nil => exact .nil
  | cons u us ih =>
    rw [List.flatMap_cons]
    apply IsCodeUnits.cons
    · exact isCodeUnit_unitBytes (hus u List.mem_cons_self)
    · exact ih fun v hv => hus v (List.mem_cons_of_mem u hv)

theorem isText_encodeText (s : String) : IsText (encodeText s) s := by
  have hunits : encodeText s = (s.toList.flatMap Text.units).flatMap unitBytes := by
    rw [List.flatMap_assoc]
    rfl
  rw [IsText, hunits]
  apply isCodeUnits_flatMap
  intro u hu
  obtain ⟨c, -, hu⟩ := List.mem_flatMap.1 hu
  exact Text.units_lt c u hu

/-! ### Words -/

theorem bigEndian_two {n : Nat} (hn : n < 0x10000) :
    ∃ a b : UInt8, Bytes.bigEndian 2 n = [a, b] ∧ a.toNat * 0x100 + b.toNat = n := by
  have hlen := Bytes.length_bigEndian 2 n
  have hvalue := Bytes.bigEndianValue_bigEndian (n := 2) hn
  match Bytes.bigEndian 2 n, hlen, hvalue with
  | [a, b], _, hvalue =>
    rw [Cursor.bigEndianValue_pair] at hvalue
    exact ⟨a, b, rfl, hvalue⟩

theorem bigEndian_four {n : Nat} (hn : n < 0x100000000) :
    ∃ a b c d : UInt8, Bytes.bigEndian 4 n = [a, b, c, d] ∧ quad a b c d = n := by
  have hlen := Bytes.length_bigEndian 4 n
  have hvalue := Bytes.bigEndianValue_bigEndian (n := 4) hn
  match Bytes.bigEndian 4 n, hlen, hvalue with
  | [a, b, c, d], _, hvalue =>
    rw [Cursor.bigEndianValue_quad] at hvalue
    exact ⟨a, b, c, d, rfl, hvalue⟩

/-! ### Payloads -/

/-- A string that its length field has room for. -/
def Fits (s : String) : Prop := (encodeText s).length ≤ maxTextLength

instance (s : String) : Decidable (Fits s) := inferInstanceAs (Decidable (_ ≤ _))

/-- The bytes of a string, behind their number. -/
def stringBytes (s : String) : List UInt8 := Bytes.bigEndian 2 (encodeText s).length ++ encodeText s

def entryBytes (e : String × String) : List UInt8 := stringBytes e.1 ++ stringBytes e.2

theorem encodeString_of_fits {s : String} (hs : Fits s) : encodeString s = .ok (stringBytes s) := if_pos hs

theorem encodeEntry_of_fits {e : String × String} (hkey : Fits e.1) (hvalue : Fits e.2) :
    encodeEntry e = .ok (entryBytes e) := by
  rw [encodeEntry, encodeString_of_fits hkey, encodeString_of_fits hvalue]
  rfl

theorem encodePayload_eq {options : SortedMap String String} (hsize : options.size ≤ maxCount)
    (h : ∀ e ∈ options.entries, Fits e.1 ∧ Fits e.2) :
    encodePayload options = .ok (Bytes.bigEndian 4 options.size ++ options.entries.flatMap entryBytes) := by
  have hentries := mapM_eq_ok_map fun e he => encodeEntry_of_fits (h e he).1 (h e he).2
  rw [encodePayload, if_neg (Nat.not_lt.2 hsize), hentries]
  rfl

theorem isString_stringBytes {s : String} (hs : Fits s) : IsString (stringBytes s) s := by
  obtain ⟨a, b, hbytes, hvalue⟩ := bigEndian_two (Nat.lt_succ_of_le hs)
  rw [stringBytes, hbytes]
  exact .mk a b hvalue.symm (isText_encodeText s)

theorem isPairs_flatMap {entries : List (String × String)} (h : ∀ e ∈ entries, Fits e.1 ∧ Fits e.2) :
    IsPairs (entries.flatMap entryBytes) entries := by
  induction entries with
  | nil => exact .nil
  | cons e entries ih =>
    obtain ⟨⟨hkey, hvalue⟩, hrest⟩ := List.forall_mem_cons.1 h
    rw [List.flatMap_cons]
    exact .cons (isString_stringBytes hkey) (isString_stringBytes hvalue) (ih hrest)

theorem encodePayload_of_fits {options : SortedMap String String} (hsize : options.size ≤ maxCount)
    (h : ∀ e ∈ options.entries, Fits e.1 ∧ Fits e.2) :
    ∃ payload, encodePayload options = .ok payload ∧ IsPayload payload options.entries := by
  obtain ⟨a, b, c, d, hbytes, hvalue⟩ := bigEndian_four (Nat.lt_of_le_of_lt hsize (by decide))
  refine ⟨_, encodePayload_eq hsize h, ?_⟩
  rw [hbytes]
  refine .mk a b c d (toInt_quad_eq_iff.2 ?_) (isPairs_flatMap h)
  rw [hvalue]
  exact ⟨hsize, rfl⟩

/-! ### Records -/

theorem isRecord_record {block : List UInt8} (h : block.length < 0x100000000) :
    IsRecord (record block) block := by
  rw [record]
  split
  · rename_i hshort
    exact .short _ (toNat_ofNat_byte (Nat.lt_succ_of_le hshort)).symm
  · obtain ⟨a, b, c, d, hbytes, hvalue⟩ := bigEndian_four h
    rw [hbytes]
    exact .long a b c d hvalue.symm

theorem isRecords_flatMap {blocks : List (List UInt8)}
    (h : ∀ block ∈ blocks, block.length < 0x100000000) : IsRecords (blocks.flatMap record) blocks := by
  induction blocks with
  | nil => exact .nil
  | cons block blocks ih =>
    rw [List.flatMap_cons]
    apply IsRecords.cons
    · exact isRecord_record (h block List.mem_cons_self)
    · exact ih fun block' hblock' => h block' (List.mem_cons_of_mem block hblock')

theorem isFramed_frame (payload : List UInt8) :
    IsFramed (frame payload) (Bytes.chunks blockSize payload) := by
  refine ⟨_, rfl, isRecords_flatMap fun block hblock => ?_⟩
  have hlen := (Bytes.length_of_mem_chunks (by decide) hblock).2
  rw [blockSize] at hlen
  omega

theorem isStream_frame {payload : List UInt8} {pairs : List (String × String)}
    (h : IsPayload payload pairs) : IsStream (frame payload) pairs := by
  refine ⟨_, isFramed_frame payload, ?_⟩
  rwa [Bytes.flatten_chunks]

end JarPlan.OptionToken
