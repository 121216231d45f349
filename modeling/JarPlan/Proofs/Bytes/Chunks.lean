import JarPlan.Bytes.Chunks
import Mathlib.Algebra.Group.Nat.Defs
import Mathlib.Data.List.Induction
/-!
# How a list is cut into chunks

Cutting takes whole chunks off the front for as long as there are elements behind them, so every chunk
but the last is full and the last one is not empty. A row of full chunks is therefore what cutting its
elements gives back. For words the counterpart is that bytes are the digits of the number they denote.
-/

namespace JarPlan.Bytes

variable {α : Type} {n : Nat}

/-! ### Chunks -/

/-- Finished chunks come out first and play no part in the rest of the cut. -/
theorem chunksFrom_eq_append (n : Nat) (done : List (List α)) (room : Nat) (chunk l : List α) :
    chunksFrom n done room chunk l = done.reverse ++ chunksFrom n [] room chunk l := by
  induction l generalizing done room chunk with
  | nil => cases chunk <;> simp [chunksFrom]
  | cons a rest ih =>
    cases room with
    | zero =>
      rw [chunksFrom, chunksFrom, ih (chunk.reverse :: done), ih [chunk.reverse]]
      simp
    | succ room => rw [chunksFrom, chunksFrom, ih done]

/-- Elements for which there is room go into the chunk being filled. -/
theorem chunksFrom_append (n : Nat) {room : Nat} {a : List α} (h : a.length ≤ room) (chunk l : List α) :
    chunksFrom n [] room chunk (a ++ l) = chunksFrom n [] (room - a.length) (a.reverse ++ chunk) l := by
  induction a generalizing room chunk with
  | nil => simp
  | cons b a ih =>
    cases room with
    | zero => simp at h
    | succ room =>
      have hroom : a.length ≤ room := by simpa using h
      rw [List.cons_append, chunksFrom, ih hroom]
      simp

theorem chunksFrom_zero (hn : 0 < n) {chunk : List α} (hchunk : chunk ≠ []) (l : List α) :
    chunksFrom n [] 0 chunk l = chunk.reverse :: chunks n l := by
  cases l with
  | nil => simp [chunksFrom, chunks, hchunk]
  | cons b rest =>
    obtain ⟨m, rfl⟩ : ∃ m, n = m + 1 := ⟨n - 1, by omega⟩
    rw [chunksFrom, chunksFrom_eq_append, chunks, chunksFrom]
    simp

@[simp] theorem chunks_nil : chunks n ([] : List α) = [] := by
  simp [chunks, chunksFrom]

theorem chunks_append (hn : 0 < n) {a : List α} (ha : a.length = n) (l : List α) :
    chunks n (a ++ l) = a :: chunks n l := by
  have hne : a.reverse ≠ [] := by
    rw [ne_eq, List.reverse_eq_nil_iff, ← List.length_eq_zero_iff]
    omega
  rw [chunks, chunksFrom_append n (by omega), ha, Nat.sub_self, List.append_nil,
    chunksFrom_zero hn hne, List.reverse_reverse]

theorem chunks_of_length_le {l : List α} (hl : l ≠ []) (h : l.length ≤ n) : chunks n l = [l] := by
  have hcut := chunksFrom_append n h [] []
  rw [List.append_nil, List.append_nil] at hcut
  rw [chunks, hcut]
  simp [chunksFrom, hl]

theorem chunks_flatten (hn : 0 < n) {full : List (List α)} (h : ∀ g ∈ full, g.length = n) :
    chunks n full.flatten = full := by
  induction full with
  | nil => simp
  | cons g full ih =>
    rw [List.flatten_cons, chunks_append hn (h g List.mem_cons_self),
      ih fun a ha => h a (List.mem_cons_of_mem g ha)]

theorem chunks_eq_append (hn : 0 < n) {l : List α} (hl : l ≠ []) :
    ∃ full last, chunks n l = full ++ [last] ∧ full.flatten ++ last = l ∧
      (∀ g ∈ full, g.length = n) ∧ 0 < last.length ∧ last.length ≤ n := by
  -- on the length, since a step takes off a whole chunk and not an element
  induction hk : l.length using Nat.strongRecOn generalizing l with
  | _ k ih =>
    by_cases hle : l.length ≤ n
    · exact ⟨[], l, chunks_of_length_le hl hle, by simp, by simp, List.length_pos_iff.2 hl, hle⟩
    · have htake : (l.take n).length = n := by
        rw [List.length_take]
        omega
      have hdrop : (l.drop n).length = k - n := by
        rw [List.length_drop, hk]
      have hne : l.drop n ≠ [] := by
        rw [ne_eq, ← List.length_eq_zero_iff]
        omega
      obtain ⟨full, last, hcut, hjoin, hfull, hlast⟩ := ih (k - n) (by omega) hne hdrop
      refine ⟨l.take n :: full, last, ?_, ?_, List.forall_mem_cons.2 ⟨htake, hfull⟩, hlast⟩
      · rw [← List.take_append_drop n l, chunks_append hn htake, List.take_append_drop, hcut]
        rfl
      · rw [List.flatten_cons, List.append_assoc, hjoin, List.take_append_drop]

theorem length_of_mem_chunks (hn : 0 < n) {l chunk : List α} (h : chunk ∈ chunks n l) :
    0 < chunk.length ∧ chunk.length ≤ n := by
  by_cases hl : l = []
  · simp [hl] at h
  · obtain ⟨full, last, hcut, -, hfull, hlast⟩ := chunks_eq_append hn hl
    rw [hcut, List.mem_append, List.mem_singleton] at h
    rcases h with h | rfl
    · have hlen := hfull chunk h
      omega
    · exact hlast

/-! ### Words -/

theorem bigEndian_bigEndianValue (bytes : List UInt8) :
    bigEndian bytes.length (bigEndianValue bytes) = bytes := by
  induction bytes using List.reverseRecOn with
  | nil => rfl
  | append_singleton bytes b ih =>
    have hb : b.toNat < 256 := b.toNat_lt
    have hdiv : (256 * bigEndianValue bytes + b.toNat) / 256 = bigEndianValue bytes := by omega
    have hlast : UInt8.ofNat (256 * bigEndianValue bytes + b.toNat) = b := by
      apply UInt8.toNat_inj.1
      rw [UInt8.toNat_ofNat']
      omega
    rw [List.length_append, List.length_singleton, bigEndianValue_append_singleton, bigEndian, hdiv,
      ih, hlast]

/-- A number that fits is read back. -/
theorem bigEndianValue_bigEndian {n value : Nat} (h : value < 256 ^ n) :
    bigEndianValue (bigEndian n value) = value := by
  induction n generalizing value with
  | zero =>
    have hzero : value = 0 := by simpa using h
    rw [hzero]
    rfl
  | succ n ih =>
    have hfits : value / 256 < 256 ^ n := by
      rw [Nat.pow_succ] at h
      omega
    rw [bigEndian, bigEndianValue_append_singleton, ih hfits]
    simp
    omega

theorem bigEndianValue_lt (bytes : List UInt8) : bigEndianValue bytes < 256 ^ bytes.length := by
  induction bytes using List.reverseRecOn with
  | nil => simp [bigEndianValue]
  | append_singleton bytes b ih =>
    have hb : b.toNat < 256 := b.toNat_lt
    rw [bigEndianValue_append_singleton, List.length_append, List.length_singleton, Nat.pow_succ]
    omega

end JarPlan.Bytes
