import JarPlan.Bytes.Base64
import JarPlan.Proofs.Bytes.Chunks
import JarPlan.Text.Blank
/-!
# Base64 is undone by reading it

A group of one, two or three bytes is written as one symbol more than it has bytes, padded to four
characters. Reading takes all groups but the last as runs of symbols and the last one apart, so the
round trip is shown for one group first and then for a text of groups. The characters in use are the
sixty-four of the alphabet and the padding; none of them is white space and none is a comma.
-/

namespace JarPlan.Bytes.Base64

/-! ### Symbols -/

/-- The byte of a symbol in a text. -/
def symbolByte (n : Nat) : UInt8 := UInt8.ofNat (symbol n).toNat

theorem value?_symbolByte : ∀ n < 64, value? (symbolByte n) = some n := by decide +kernel

theorem utf8EncodeChar_symbol : ∀ n < 64, String.utf8EncodeChar (symbol n) = [symbolByte n] := by
  decide +kernel

theorem symbolByte_ne_pad : ∀ n < 64, symbolByte n ≠ pad := by decide +kernel

theorem utf8EncodeChar_padding : String.utf8EncodeChar '=' = [pad] := by decide

/-! ### Groups -/

/-- The numbers whose symbols a group is written with. -/
def groupSymbols : List UInt8 → List Nat
  | [a, b, c] =>
    let n := bigEndianValue [a, b, c]
    [n / 262144, n / 4096 % 64, n / 64 % 64, n % 64]
  | [a, b] =>
    let n := 4 * bigEndianValue [a, b]
    [n / 4096, n / 64 % 64, n % 64]
  | [a] =>
    let n := 16 * bigEndianValue [a]
    [n / 64, n % 64]
  | _ => []

/-- A list that may stand as a group. -/
def IsGroup (g : List UInt8) : Prop := 0 < g.length ∧ g.length ≤ 3

theorem IsGroup.cases {g : List UInt8} (h : IsGroup g) :
    (∃ a, g = [a]) ∨ (∃ a b, g = [a, b]) ∨ ∃ a b c, g = [a, b, c] := by
  obtain ⟨hpos, hlen⟩ := h
  match g with
  | [] => exact absurd hpos (Nat.lt_irrefl 0)
  | [a] => exact .inl ⟨a, rfl⟩
  | [a, b] => exact .inr (.inl ⟨a, b, rfl⟩)
  | [a, b, c] => exact .inr (.inr ⟨a, b, c, rfl⟩)
  | a :: b :: c :: d :: rest =>
    simp only [List.length_cons] at hlen
    omega

variable {g : List UInt8}

theorem length_groupSymbols (h : IsGroup g) : (groupSymbols g).length = g.length + 1 := by
  obtain ⟨a, rfl⟩ | ⟨a, b, rfl⟩ | ⟨a, b, c, rfl⟩ := h.cases <;> rfl

theorem lt_of_mem_groupSymbols (h : IsGroup g) : ∀ n ∈ groupSymbols g, n < 64 := by
  have hlt := bigEndianValue_lt g
  obtain ⟨a, rfl⟩ | ⟨a, b, rfl⟩ | ⟨a, b, c, rfl⟩ := h.cases <;>
    simp only [List.length_cons, List.length_nil] at hlt <;>
    simp only [groupSymbols, List.mem_cons, List.not_mem_nil, or_false, forall_eq_or_imp, forall_eq] <;>
    omega

theorem encodeGroup_eq (h : IsGroup g) :
    encodeGroup g = (groupSymbols g).map symbol ++ List.replicate (3 - g.length) '=' := by
  obtain ⟨a, rfl⟩ | ⟨a, b, rfl⟩ | ⟨a, b, c, rfl⟩ := h.cases <;> rfl

theorem decodeGroup_groupSymbols (h : IsGroup g) : decodeGroup (groupSymbols g) = g := by
  have hback := bigEndian_bigEndianValue g
  obtain ⟨a, rfl⟩ | ⟨a, b, rfl⟩ | ⟨a, b, c, rfl⟩ := h.cases
  · have hvalue : (16 * bigEndianValue [a] / 64 * 64 + 16 * bigEndianValue [a] % 64) / 16 =
        bigEndianValue [a] := by omega
    rw [groupSymbols, decodeGroup, hvalue]
    exact hback
  · have hvalue : ((4 * bigEndianValue [a, b] / 4096 * 64 + 4 * bigEndianValue [a, b] / 64 % 64) * 64 +
        4 * bigEndianValue [a, b] % 64) / 4 = bigEndianValue [a, b] := by omega
    rw [groupSymbols, decodeGroup, hvalue]
    exact hback
  · have hvalue : ((bigEndianValue [a, b, c] / 262144 * 64 + bigEndianValue [a, b, c] / 4096 % 64) * 64 +
        bigEndianValue [a, b, c] / 64 % 64) * 64 + bigEndianValue [a, b, c] % 64 =
          bigEndianValue [a, b, c] := by omega
    rw [groupSymbols, decodeGroup, hvalue]
    exact hback

theorem unusedBits_groupSymbols (h : IsGroup g) : unusedBits (groupSymbols g) = 0 := by
  obtain ⟨a, rfl⟩ | ⟨a, b, rfl⟩ | ⟨a, b, c, rfl⟩ := h.cases <;>
    simp only [groupSymbols, unusedBits] <;> omega

/-- The bytes of a group in a text. -/
def groupText (g : List UInt8) : List UInt8 :=
  (groupSymbols g).map symbolByte ++ List.replicate (3 - g.length) pad

theorem flatMap_utf8EncodeChar_map_symbol {ns : List Nat} (h : ∀ n ∈ ns, n < 64) :
    (ns.map symbol).flatMap String.utf8EncodeChar = ns.map symbolByte := by
  induction ns with
  | nil => rfl
  | cons n ns ih =>
    obtain ⟨hn, hns⟩ := List.forall_mem_cons.1 h
    rw [List.map_cons, List.flatMap_cons, utf8EncodeChar_symbol n hn, ih hns]
    rfl

theorem flatMap_utf8EncodeChar_encodeGroup (h : IsGroup g) :
    (encodeGroup g).flatMap String.utf8EncodeChar = groupText g := by
  rw [encodeGroup_eq h, List.flatMap_append,
    flatMap_utf8EncodeChar_map_symbol (lt_of_mem_groupSymbols h), List.flatMap_replicate,
    utf8EncodeChar_padding, groupText]
  simp

theorem length_groupText (h : IsGroup g) : (groupText g).length = 4 := by
  have hlen := length_groupSymbols h
  have hle := h.2
  rw [groupText, List.length_append, List.length_map, List.length_replicate]
  omega

/-! ### Reading a text of groups -/

theorem values_map_symbolByte {ns : List Nat} (h : ∀ n ∈ ns, n < 64) (done : List Nat) (offset : Nat) :
    values done offset (ns.map symbolByte) = .ok (done.reverse ++ ns) := by
  induction ns generalizing done offset with
  | nil => simp [values]
  | cons n ns ih =>
    obtain ⟨hn, hns⟩ := List.forall_mem_cons.1 h
    rw [List.map_cons, values, value?_symbolByte n hn]
    simp [ih hns]

theorem lastGroup_map_symbolByte {ns : List Nat} (h : ∀ n ∈ ns, n < 64) (start : Nat) (symbols : List Nat)
    (tail : List UInt8) :
    lastGroup start ⟨symbols, 0⟩ (ns.map symbolByte ++ tail) = lastGroup start ⟨symbols ++ ns, 0⟩ tail := by
  induction ns generalizing symbols with
  | nil => simp
  | cons n ns ih =>
    obtain ⟨hn, hns⟩ := List.forall_mem_cons.1 h
    rw [List.map_cons, List.cons_append, lastGroup, if_neg (symbolByte_ne_pad n hn),
      value?_symbolByte n hn]
    simp [ih hns]

theorem lastGroup_replicate_pad (start : Nat) {group : LastGroup} (h : 2 ≤ group.symbols.length)
    (k : Nat) :
    lastGroup start group (List.replicate k pad) = .ok ⟨group.symbols, group.paddings + k⟩ := by
  induction k generalizing group with
  | zero => rfl
  | succ k ih =>
    rw [List.replicate_succ, lastGroup]
    have hroom : ¬ group.symbols.length + group.paddings < 2 := by omega
    simp only [if_true, if_neg hroom]
    rw [ih (by exact h)]
    simp only [Nat.add_assoc, Nat.add_comm 1 k]

theorem lastGroup_groupText (h : IsGroup g) (start : Nat) :
    lastGroup start {} (groupText g) = .ok ⟨groupSymbols g, 3 - g.length⟩ := by
  have hlen := length_groupSymbols h
  have hpos := h.1
  rw [groupText, lastGroup_map_symbolByte (lt_of_mem_groupSymbols h),
    lastGroup_replicate_pad start (by simp only [List.nil_append]; omega)]
  simp

theorem fault?_groupSymbols (h : IsGroup g) (start : Nat) (text : List UInt8) :
    LastGroup.fault? ⟨groupSymbols g, 3 - g.length⟩ start text = none := by
  have hlen := length_groupSymbols h
  have hle := h.2
  have hpos := h.1
  have hcount : ¬ (text ≠ [] ∧ (groupSymbols g).length < 2) := by omega
  have hwhole : ¬ ((groupSymbols g).length + (3 - g.length)) % 4 ≠ 0 := by omega
  simp only [LastGroup.fault?, if_neg hcount, if_neg hwhole, unusedBits_groupSymbols h, ne_eq,
    not_true_eq_false, if_false]

theorem groupText_of_length_eq (h : g.length = 3) : groupText g = (groupSymbols g).map symbolByte := by
  rw [groupText, h]
  simp

theorem IsGroup.of_length_eq (h : g.length = 3) : IsGroup g :=
  ⟨by omega, Nat.le_of_eq h⟩

variable {full : List (List UInt8)}

theorem flatMap_groupText (h : ∀ g ∈ full, g.length = 3) :
    full.flatMap groupText = (full.map groupSymbols).flatten.map symbolByte := by
  rw [List.map_flatten, List.flatMap_def, List.map_map]
  congr 1
  exact List.map_congr_left fun g hg => groupText_of_length_eq (h g hg)

theorem length_flatMap_groupText (h : ∀ g ∈ full, g.length = 3) :
    (full.flatMap groupText).length = 4 * full.length := by
  induction full with
  | nil => rfl
  | cons g full ih =>
    obtain ⟨hg, hfull⟩ := List.forall_mem_cons.1 h
    rw [List.flatMap_cons, List.length_append, length_groupText (.of_length_eq hg), ih hfull,
      List.length_cons]
    omega

theorem flatMap_decodeGroup (h : ∀ g ∈ full, g.length = 3) :
    (full.map groupSymbols).flatMap decodeGroup = full.flatten := by
  rw [List.flatMap_def, List.map_map]
  congr 1
  calc full.map (decodeGroup ∘ groupSymbols)
    _ = full.map id := List.map_congr_left fun g hg => decodeGroup_groupSymbols (.of_length_eq (h g hg))
    _ = full := List.map_id full

theorem decode_flatMap_groupText (hfull : ∀ g ∈ full, g.length = 3) (hlast : IsGroup g) :
    decode (full.flatMap groupText ++ groupText g) = .ok (full.flatten ++ g) := by
  have hlen : (full.flatMap groupText ++ groupText g).length = 4 * full.length + 4 := by
    rw [List.length_append, length_flatMap_groupText hfull, length_groupText hlast]
  have hstray : strayEnd? (full.flatMap groupText ++ groupText g) = none := by
    rw [strayEnd?, hlen]
    simp
  have hstart : lastStart (4 * full.length + 4) = (full.flatMap groupText).length := by
    rw [length_flatMap_groupText hfull, lastStart, if_pos (by omega)]
    omega
  have hsymbols : ∀ n ∈ (full.map groupSymbols).flatten, n < 64 := by
    intro n hn
    obtain ⟨ns, hns, hn⟩ := List.mem_flatten.1 hn
    obtain ⟨g, hg, rfl⟩ := List.mem_map.1 hns
    exact lt_of_mem_groupSymbols (.of_length_eq (hfull g hg)) n hn
  have hgroups : ∀ ns ∈ full.map groupSymbols, ns.length = 4 := by
    intro ns hns
    obtain ⟨g, hg, rfl⟩ := List.mem_map.1 hns
    rw [length_groupSymbols (.of_length_eq (hfull g hg)), hfull g hg]
  have hfirst : values [] 0 (full.flatMap groupText) = .ok (full.map groupSymbols).flatten := by
    rw [flatMap_groupText hfull, values_map_symbolByte hsymbols]
    rfl
  -- the text splits where the last group starts, so each half is one the lemmas above read
  rw [decode, hstray, hlen, hstart]
  simp only [List.take_left', List.drop_left', hfirst, lastGroup_groupText hlast, fault?_groupSymbols hlast,
    chunks_flatten (by decide) hgroups, flatMap_decodeGroup hfull, decodeGroup_groupSymbols hlast,
    bind, Except.bind]

/-! ### The text of a byte string -/

theorem isGroup_of_mem_chunks {bytes g : List UInt8} (h : g ∈ chunks 3 bytes) : IsGroup g :=
  length_of_mem_chunks (by decide) h

theorem utf8_encode (bytes : List UInt8) : utf8 (encode bytes) = (chunks 3 bytes).flatMap groupText := by
  rw [utf8, encode, String.toList_ofList, List.flatMap_assoc, List.flatMap_def, List.flatMap_def]
  congr 1
  exact List.map_congr_left fun g hg => flatMap_utf8EncodeChar_encodeGroup (isGroup_of_mem_chunks hg)

/-- Every byte string is read back from its text. -/
theorem decode_utf8_encode (bytes : List UInt8) : decode (utf8 (encode bytes)) = .ok bytes := by
  rw [utf8_encode]
  by_cases hbytes : bytes = []
  · rw [hbytes, chunks_nil]
    rfl
  · obtain ⟨full, last, hcut, hjoin, hfull, hlast⟩ := chunks_eq_append (n := 3) (by decide) hbytes
    rw [hcut, List.flatMap_append, List.flatMap_singleton, decode_flatMap_groupText hfull hlast, hjoin]

theorem symbol_mem : ∀ n < 64, symbol n ∈ alphabet := by decide +kernel

theorem mem_encode {bytes : List UInt8} {c : Char} (h : c ∈ (encode bytes).toList) : c ∈ '=' :: alphabet := by
  rw [encode, String.toList_ofList, List.mem_flatMap] at h
  obtain ⟨g, hg, hc⟩ := h
  have hgroup := isGroup_of_mem_chunks hg
  rw [encodeGroup_eq hgroup, List.mem_append, List.mem_map, List.mem_replicate] at hc
  rcases hc with ⟨n, hn, rfl⟩ | ⟨-, rfl⟩
  · exact List.mem_cons_of_mem _ (symbol_mem n (lt_of_mem_groupSymbols hgroup n hn))
  · exact List.mem_cons_self

theorem isBlank_of_mem_encode {bytes : List UInt8} {c : Char} (h : c ∈ (encode bytes).toList) :
    Text.isBlank c = false := by
  have hnone : ('=' :: alphabet).any Text.isBlank = false := by decide +kernel
  exact eq_false_of_ne_true (List.any_eq_false.1 hnone c (mem_encode h))

theorem comma_not_mem_encode (bytes : List UInt8) : ',' ∉ (encode bytes).toList := by
  intro h
  have hnone : ',' ∉ '=' :: alphabet := by decide +kernel
  exact hnone (mem_encode h)

end JarPlan.Bytes.Base64
