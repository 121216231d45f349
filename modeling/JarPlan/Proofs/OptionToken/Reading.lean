import JarPlan.OptionToken.Codec
import JarPlan.Proofs.OptionToken.Cursor
import JarPlan.Proofs.Sorted.Map
import JarPlan.Proofs.Text.Utf16
/-!
# What the reader of option streams accepts

Each reader takes exactly the bytes that the grammar gives to the value it returns, and it fails only
where there are no such bytes. Both directions are one equivalence for each reader, stated over the
bytes that lie between two cursors; the equivalence of a reader follows from those of its parts.
-/

namespace JarPlan.OptionToken

open Cursor

/-! ### Records -/

theorem readRecord_eq_ok_iff {c next : Cursor} {body : List UInt8} :
    readRecord c = .ok (body, next) ↔ ∃ bytes, IsRecord bytes body ∧ c.Passes bytes next := by
  constructor
  · intro h
    obtain ⟨⟨length, sized⟩, hlength, hbody⟩ := bind_eq_ok.1 h
    obtain ⟨hlen, hpasses⟩ := take_eq_ok_iff.1 hbody
    obtain ⟨⟨tag, tagged⟩, htag, hfield⟩ := bind_eq_ok.1 hlength
    obtain ⟨b, rfl, hb⟩ := takeNumber_one_eq_ok_iff.1 htag
    dsimp only at hfield
    split at hfield
    · rename_i hshort
      obtain ⟨a, ha, hsized⟩ := takeNumber_one_eq_ok_iff.1 hfield
      obtain rfl := UInt8.toNat_inj.1 hshort
      refine ⟨shortTag :: a :: body, .short a (hlen.trans ha.symm), ?_⟩
      exact passes_append (s := [shortTag]).2 ⟨tagged, hb, passes_append.2 ⟨sized, hsized, hpasses⟩⟩
    · split at hfield
      · rename_i hlong
        obtain ⟨a1, a2, a3, a4, ha, hsized⟩ := takeNumber_four_eq_ok_iff.1 hfield
        obtain rfl := UInt8.toNat_inj.1 hlong
        refine ⟨longTag :: a1 :: a2 :: a3 :: a4 :: body, .long a1 a2 a3 a4 (hlen.trans ha.symm), ?_⟩
        exact passes_append.2 ⟨tagged, hb, passes_append.2 ⟨sized, hsized, hpasses⟩⟩
      · cases hfield
  · rintro ⟨bytes, hrecord, hpasses⟩
    cases hrecord with
    | short a hlength =>
      obtain ⟨tagged, htag, hpasses⟩ := passes_append (s := [shortTag]).1 hpasses
      obtain ⟨sized, hsized, hpasses⟩ := passes_append (s := [a]).1 hpasses
      have hfield : readLength c = .ok (a.toNat, sized) :=
        bind_eq_ok.2 ⟨(shortTag.toNat, tagged), takeNumber_one_eq_ok_iff.2 ⟨shortTag, rfl, htag⟩,
          takeNumber_one_eq_ok_iff.2 ⟨a, rfl, hsized⟩⟩
      exact bind_eq_ok.2 ⟨(a.toNat, sized), hfield, take_eq_ok_iff.2 ⟨hlength, hpasses⟩⟩
    | long a1 a2 a3 a4 hlength =>
      obtain ⟨tagged, htag, hpasses⟩ := passes_append (s := [longTag]).1 hpasses
      obtain ⟨sized, hsized, hpasses⟩ := passes_append (s := [a1, a2, a3, a4]).1 hpasses
      have hfield : readLength c = .ok (quad a1 a2 a3 a4, sized) :=
        bind_eq_ok.2 ⟨(longTag.toNat, tagged), takeNumber_one_eq_ok_iff.2 ⟨longTag, rfl, htag⟩,
          takeNumber_four_eq_ok_iff.2 ⟨a1, a2, a3, a4, rfl, hsized⟩⟩
      exact bind_eq_ok.2 ⟨(quad a1 a2 a3 a4, sized), hfield, take_eq_ok_iff.2 ⟨hlength, hpasses⟩⟩

theorem IsRecords.eq_nil {bodies : List (List UInt8)} (h : IsRecords [] bodies) : bodies = [] := by
  generalize hbytes : ([] : List UInt8) = bytes at h
  cases h with
  | nil => rfl
  | cons hfirst _ => cases hfirst <;> cases hbytes

theorem readRecords_eq_ok_iff {done : List (List UInt8)} {c : Cursor} {payload : List UInt8} :
    readRecords done c = .ok payload ↔
      ∃ bodies, IsRecords c.rest bodies ∧ payload = done.reverse.flatten ++ bodies.flatten := by
  fun_induction readRecords done c with
  | case1 done c hend =>
    rw [hend]
    constructor
    · intro h
      obtain rfl := Except.ok.inj h
      exact ⟨[], .nil, by simp⟩
    · rintro ⟨bodies, hbodies, rfl⟩
      rw [hbodies.eq_nil, List.flatten_nil, List.append_nil]
  | case2 done c hmore e hread =>
    constructor
    · intro h
      cases h
    · rintro ⟨bodies, hbodies, -⟩
      generalize hbytes : c.rest = bytes at hbodies
      cases hbodies with
      | nil => exact absurd hbytes hmore
      | cons hfirst hrest =>
        have hbody := readRecord_eq_ok_iff.2 ⟨_, hfirst, passes_of_rest_eq hbytes⟩
        rw [hread] at hbody
        cases hbody
  | case3 done c hmore body next hread hshorter ih =>
    obtain ⟨first, hfirst, hpasses⟩ := readRecord_eq_ok_iff.1 hread
    rw [ih]
    constructor
    · rintro ⟨bodies, hbodies, rfl⟩
      refine ⟨body :: bodies, ?_, by simp⟩
      rw [hpasses.1]
      exact .cons hfirst hbodies
    · rintro ⟨bodies, hbodies, rfl⟩
      generalize hbytes : c.rest = bytes at hbodies
      cases hbodies with
      | nil => exact absurd hbytes hmore
      | cons hfirst' hrest =>
        -- the reader is a function, so it was this record that it took
        have hbody := readRecord_eq_ok_iff.2 ⟨_, hfirst', passes_of_rest_eq hbytes⟩
        rw [hread] at hbody
        obtain ⟨rfl, rfl⟩ := Prod.mk.inj (Except.ok.inj hbody)
        exact ⟨_, hrest, by simp⟩

theorem unframe_eq_ok_iff {bytes payload : List UInt8} :
    unframe bytes = .ok payload ↔ ∃ bodies, IsFramed bytes bodies ∧ payload = bodies.flatten := by
  constructor
  · intro h
    obtain ⟨⟨magic, c⟩, hmagic, h⟩ := bind_eq_ok.1 h
    obtain ⟨-, hfirst⟩ := take_eq_ok_iff.1 hmagic
    dsimp only at h
    split at h
    · cases h
    · rename_i hmagic
      obtain ⟨⟨version, c'⟩, hversion, h⟩ := bind_eq_ok.1 h
      obtain ⟨-, hsecond⟩ := take_eq_ok_iff.1 hversion
      dsimp only at h
      split at h
      · cases h
      · rename_i hversion
        obtain ⟨bodies, hbodies, rfl⟩ := readRecords_eq_ok_iff.1 h
        refine ⟨bodies, ⟨c'.rest, ?_, hbodies⟩, rfl⟩
        have hrest : bytes = magic ++ (version ++ c'.rest) := by
          rw [← hsecond.1, ← hfirst.1]
          rfl
        rw [hrest, Decidable.of_not_not hmagic, Decidable.of_not_not hversion]
        rfl
  · rintro ⟨bodies, ⟨records, rfl, hrecords⟩, rfl⟩
    exact readRecords_eq_ok_iff.2 ⟨bodies, hrecords, rfl⟩

/-! ### Texts -/

theorem toNat_ofNat_byte {n : Nat} (h : n < 0x100) : (UInt8.ofNat n).toNat = n :=
  UInt8.toNat_ofNat_of_lt' h

theorem continuation?_eq_some_iff {b : UInt8} {low : Nat} :
    continuation? b = some low ↔ low < 0x40 ∧ b = UInt8.ofNat (0x80 + low) := by
  have hb := b.toNat_lt
  rw [continuation?]
  constructor
  · intro h
    split at h
    · obtain rfl := Option.some.inj h
      refine ⟨Nat.mod_lt _ (by decide), ?_⟩
      have hvalue : 0x80 + b.toNat % 0x40 = b.toNat := by omega
      rw [hvalue, UInt8.ofNat_toNat]
    · cases h
  · rintro ⟨hlow, rfl⟩
    rw [toNat_ofNat_byte (by omega), if_pos (by omega)]
    congr 1
    omega

theorem IsCodeUnit.lt {bytes : List UInt8} {u : Nat} (h : IsCodeUnit bytes u) : u < 0x10000 := by
  cases h <;> omega

theorem IsCodeUnits.lt {bytes : List UInt8} {us : List Nat} (h : IsCodeUnits bytes us) :
    ∀ u ∈ us, u < 0x10000 := by
  induction h with
  | nil => simp
  | cons hfirst _ ih =>
    intro u hu
    obtain rfl | hu := List.mem_cons.1 hu
    · exact hfirst.lt
    · exact ih u hu

/-- A unit in any of its forms is read, whatever comes behind it. -/
theorem readUnits_append {first : List UInt8} {u : Nat} (h : IsCodeUnit first u) (done : List Nat)
    (rest : List UInt8) : readUnits done (first ++ rest) = readUnits (u :: done) rest := by
  cases h with
  | one _ hlow =>
    rw [List.singleton_append, readUnits.eq_def]
    simp only [toNat_ofNat_byte (Nat.lt_trans hlow (by decide)), if_pos hlow]
  | two high low hhigh hlow =>
    have hlead : (UInt8.ofNat (0xC0 + high)).toNat = 0xC0 + high := toNat_ofNat_byte (by omega)
    have hvalue : (0xC0 + high) % 0x20 = high := by omega
    rw [List.cons_append, List.singleton_append, readUnits, hlead, if_neg (by omega), if_pos (by omega)]
    simp only [continuation?_eq_some_iff.2 ⟨hlow, rfl⟩, hvalue]
  | three high mid low hhigh hmid hlow =>
    have hlead : (UInt8.ofNat (0xE0 + high)).toNat = 0xE0 + high := toNat_ofNat_byte (by omega)
    have hvalue : (0xE0 + high) % 0x10 = high := by omega
    rw [List.cons_append, List.cons_append, List.singleton_append, readUnits, hlead, if_neg (by omega),
      if_neg (by omega), if_pos (by omega)]
    simp only [continuation?_eq_some_iff.2 ⟨hlow, rfl⟩, continuation?_eq_some_iff.2 ⟨hmid, rfl⟩, hvalue]

theorem readUnits_of_isCodeUnits {bytes : List UInt8} {us : List Nat} (h : IsCodeUnits bytes us)
    (done : List Nat) : readUnits done bytes = .ok (done.reverse ++ us) := by
  induction h generalizing done with
  | nil => simp [readUnits]
  | cons hfirst _ ih =>
    rw [readUnits_append hfirst, ih, List.reverse_cons, List.append_assoc, List.singleton_append]

theorem isCodeUnits_of_readUnits {done us : List Nat} {bytes : List UInt8}
    (h : readUnits done bytes = .ok us) : ∃ rest, IsCodeUnits bytes rest ∧ us = done.reverse ++ rest := by
  -- what was read before `bytes` ends with the unit that the step has read
  have cons {done : List Nat} {first bytes : List UInt8} {u : Nat} (hfirst : IsCodeUnit first u)
      (hrest : ∃ rest, IsCodeUnits bytes rest ∧ us = (u :: done).reverse ++ rest) :
      ∃ rest, IsCodeUnits (first ++ bytes) rest ∧ us = done.reverse ++ rest := by
    obtain ⟨rest, hrest, rfl⟩ := hrest
    exact ⟨u :: rest, .cons hfirst hrest, by simp⟩
  fun_induction readUnits done bytes with
  | case1 done => exact ⟨[], .nil, by simpa using (Except.ok.inj h).symm⟩
  | case2 done b bytes hone ih =>
    have hunit := IsCodeUnit.one b.toNat hone
    rw [UInt8.ofNat_toNat] at hunit
    exact cons hunit (ih h)
  | case3 done b hone htwo b2 bytes low hcontinues ih =>
    have hb := b.toNat_lt
    obtain ⟨hlow, rfl⟩ := continuation?_eq_some_iff.1 hcontinues
    have hunit := IsCodeUnit.two (b.toNat % 0x20) low (Nat.mod_lt _ (by decide)) hlow
    have hlead : 0xC0 + b.toNat % 0x20 = b.toNat := by omega
    rw [hlead, UInt8.ofNat_toNat] at hunit
    exact cons hunit (ih h)
  | case6 done b hone htwo hthree b2 b3 bytes mid low hends hcontinues ih =>
    have hb := b.toNat_lt
    obtain ⟨hmid, rfl⟩ := continuation?_eq_some_iff.1 hcontinues
    obtain ⟨hlow, rfl⟩ := continuation?_eq_some_iff.1 hends
    have hunit := IsCodeUnit.three (b.toNat % 0x10) mid low (Nat.mod_lt _ (by decide)) hmid hlow
    have hlead : 0xE0 + b.toNat % 0x10 = b.toNat := by omega
    rw [hlead, UInt8.ofNat_toNat] at hunit
    exact cons hunit (ih h)
  | case4 => cases h
  | case5 => cases h
  | case7 => cases h
  | case8 => cases h
  | case9 => cases h

theorem readUnits_eq_ok_iff {bytes : List UInt8} {us : List Nat} :
    readUnits [] bytes = .ok us ↔ IsCodeUnits bytes us := by
  constructor
  · intro h
    obtain ⟨rest, hrest, rfl⟩ := isCodeUnits_of_readUnits h
    exact hrest
  · intro h
    exact readUnits_of_isCodeUnits h []

theorem decodeText_eq_ok_iff {bytes : List UInt8} {s : String} :
    decodeText bytes = .ok s ↔ IsText bytes s := by
  rw [decodeText, bind_eq_ok]
  constructor
  · rintro ⟨us, hus, h⟩
    have hunits := readUnits_eq_ok_iff.1 hus
    split at h
    · rename_i chars hchars
      obtain rfl := Except.ok.inj h
      rw [IsText, String.toList_ofList, (Text.ofUnits?_eq_some_iff hunits.lt).1 hchars]
      exact hunits
    · cases h
  · intro h
    refine ⟨_, readUnits_eq_ok_iff.2 h, ?_⟩
    rw [Text.ofUnits?_flatMap_units]
    exact congrArg Except.ok String.ofList_toList

/-! ### Payloads -/

theorem readString_eq_ok_iff {c next : Cursor} {s : String} :
    readString c = .ok (s, next) ↔ ∃ bytes, IsString bytes s ∧ c.Passes bytes next := by
  constructor
  · intro h
    obtain ⟨⟨length, sized⟩, hlength, h⟩ := bind_eq_ok.1 h
    obtain ⟨a, b, rfl, hsized⟩ := takeNumber_two_eq_ok_iff.1 hlength
    obtain ⟨⟨text, passed⟩, htext, h⟩ := bind_eq_ok.1 h
    obtain ⟨hlen, hpassed⟩ := take_eq_ok_iff.1 htext
    obtain ⟨s', hs, h⟩ := bind_eq_ok.1 h
    obtain ⟨rfl, rfl⟩ := Prod.mk.inj (Except.ok.inj h)
    exact ⟨a :: b :: text, .mk a b hlen (decodeText_eq_ok_iff.1 hs),
      passes_append.2 ⟨sized, hsized, hpassed⟩⟩
  · rintro ⟨_, ⟨a, b, hlen, htext⟩, hpasses⟩
    obtain ⟨sized, hsized, hpassed⟩ := passes_append (s := [a, b]).1 hpasses
    have hlength := takeNumber_two_eq_ok_iff.2 ⟨a, b, rfl, hsized⟩
    have htaken := take_eq_ok_iff.2 ⟨hlen, hpassed⟩
    exact bind_eq_ok.2 ⟨_, hlength, bind_eq_ok.2 ⟨_, htaken,
      bind_eq_ok.2 ⟨_, decodeText_eq_ok_iff.2 htext, rfl⟩⟩⟩

theorem readEntry_eq_ok_iff {c next : Cursor} {k v : String} :
    readEntry c = .ok ((k, v), next) ↔
      ∃ key value, IsString key k ∧ IsString value v ∧ c.Passes (key ++ value) next := by
  constructor
  · intro h
    obtain ⟨⟨k', mid⟩, hkey, h⟩ := bind_eq_ok.1 h
    obtain ⟨⟨v', last⟩, hvalue, h⟩ := bind_eq_ok.1 h
    obtain ⟨hentry, rfl⟩ := Prod.mk.inj (Except.ok.inj h)
    obtain ⟨rfl, rfl⟩ := Prod.mk.inj hentry
    obtain ⟨key, hkey, hfirst⟩ := readString_eq_ok_iff.1 hkey
    obtain ⟨value, hvalue, hsecond⟩ := readString_eq_ok_iff.1 hvalue
    exact ⟨key, value, hkey, hvalue, passes_append.2 ⟨mid, hfirst, hsecond⟩⟩
  · rintro ⟨key, value, hkey, hvalue, hpasses⟩
    obtain ⟨mid, hfirst, hsecond⟩ := passes_append.1 hpasses
    exact bind_eq_ok.2 ⟨(k, mid), readString_eq_ok_iff.2 ⟨key, hkey, hfirst⟩,
      bind_eq_ok.2 ⟨(v, next), readString_eq_ok_iff.2 ⟨value, hvalue, hsecond⟩, rfl⟩⟩

theorem readEntries_eq_ok_iff {n : Nat} {m options : SortedMap String String} {c next : Cursor} :
    readEntries n m c = .ok (options, next) ↔ ∃ bytes pairs, IsPairs bytes pairs ∧ pairs.length = n ∧
      options = m.insertAll pairs ∧ c.Passes bytes next := by
  induction n generalizing m c with
  | zero =>
    constructor
    · intro h
      obtain ⟨rfl, rfl⟩ := Prod.mk.inj (Except.ok.inj h)
      exact ⟨[], [], .nil, rfl, rfl, passes_nil.2 rfl⟩
    · rintro ⟨bytes, pairs, hpairs, hlen, rfl, hpasses⟩
      obtain rfl := List.length_eq_zero_iff.1 hlen
      cases hpairs
      rw [passes_nil.1 hpasses]
      rfl
  | succ n ih =>
    rw [readEntries, bind_eq_ok]
    constructor
    · rintro ⟨⟨⟨k, v⟩, mid⟩, hentry, h⟩
      obtain ⟨bytes, pairs, hpairs, hlen, rfl, hrest⟩ := ih.1 h
      obtain ⟨key, value, hkey, hvalue, hfirst⟩ := readEntry_eq_ok_iff.1 hentry
      exact ⟨key ++ value ++ bytes, (k, v) :: pairs, .cons hkey hvalue hpairs, by simp [hlen], rfl,
        passes_append.2 ⟨mid, hfirst, hrest⟩⟩
    · rintro ⟨bytes, pairs, hpairs, hlen, rfl, hpasses⟩
      cases hpairs with
      | nil => simp at hlen
      | cons hkey hvalue hrest =>
        obtain ⟨mid, hfirst, hsecond⟩ := passes_append.1 hpasses
        refine ⟨⟨_, mid⟩, readEntry_eq_ok_iff.2 ⟨_, _, hkey, hvalue, hfirst⟩, ?_⟩
        exact ih.2 ⟨_, _, hrest, by simpa using hlen, rfl, hsecond⟩

theorem toInt_quad_eq_iff {a b c d : UInt8} {n : Nat} :
    (BitVec.ofNat 32 (quad a b c d)).toInt = n ↔ quad a b c d ≤ maxCount ∧ n = quad a b c d := by
  have hquad : quad a b c d < 2 ^ 32 := by
    have ha := a.toNat_lt
    have hb := b.toNat_lt
    have hc := c.toNat_lt
    have hd := d.toNat_lt
    rw [quad]
    omega
  rw [BitVec.toInt_eq_toNat_cond, BitVec.toNat_ofNat, Nat.mod_eq_of_lt hquad, maxCount]
  split
  · omega
  · omega

theorem readPayload_eq_ok_iff {payload : List UInt8} {options : SortedMap String String} :
    readPayload payload = .ok options ↔ ∃ pairs, IsPayload payload pairs ∧ options = .ofList pairs := by
  rw [readPayload, bind_eq_ok]
  constructor
  · rintro ⟨⟨count, c⟩, hcount, h⟩
    obtain ⟨a1, a2, a3, a4, rfl, hstart⟩ := takeNumber_four_eq_ok_iff.1 hcount
    dsimp only at h
    split at h
    · cases h
    · rename_i hmax
      obtain ⟨⟨m, last⟩, hentries, h⟩ := bind_eq_ok.1 h
      obtain ⟨bytes, pairs, hpairs, hlen, rfl, hrest⟩ := readEntries_eq_ok_iff.1 hentries
      dsimp only at h
      split at h
      · rename_i hend
        obtain rfl := Except.ok.inj h
        have hbytes : c.rest = bytes := by rw [hrest.1, hend, List.append_nil]
        have hpayload : payload = [a1, a2, a3, a4] ++ bytes := by
          rw [← hbytes]
          exact hstart.1
        rw [hpayload]
        exact ⟨pairs, .mk a1 a2 a3 a4 (toInt_quad_eq_iff.2 ⟨Nat.le_of_not_lt hmax, hlen⟩) hpairs, rfl⟩
      · cases h
  · rintro ⟨pairs, ⟨a1, a2, a3, a4, hcount, hpairs⟩, rfl⟩
    rename_i bytes
    obtain ⟨hmax, hlen⟩ := toInt_quad_eq_iff.1 hcount
    have hstart : (Cursor.start ([a1, a2, a3, a4] ++ bytes)).Passes [a1, a2, a3, a4] ⟨4, bytes⟩ := ⟨rfl, rfl⟩
    have hpassed : (Cursor.mk 4 bytes).Passes bytes ⟨4 + bytes.length, []⟩ :=
      ⟨(List.append_nil bytes).symm, rfl⟩
    refine ⟨_, takeNumber_four_eq_ok_iff.2 ⟨a1, a2, a3, a4, rfl, hstart⟩, ?_⟩
    have hentries := readEntries_eq_ok_iff (m := ∅).2 ⟨bytes, pairs, hpairs, hlen, rfl, hpassed⟩
    dsimp only
    rw [if_neg (Nat.not_lt.2 hmax)]
    exact bind_eq_ok.2 ⟨_, hentries, if_pos rfl⟩

theorem readStream_eq_ok_iff {bytes : List UInt8} {options : SortedMap String String} :
    readStream bytes = .ok options ↔ ∃ pairs, IsStream bytes pairs ∧ options = .ofList pairs := by
  rw [readStream, bind_eq_ok]
  constructor
  · rintro ⟨payload, hframe, hpayload⟩
    obtain ⟨bodies, hbodies, rfl⟩ := unframe_eq_ok_iff.1 hframe
    obtain ⟨pairs, hpairs, rfl⟩ := readPayload_eq_ok_iff.1 hpayload
    exact ⟨pairs, ⟨bodies, hbodies, hpairs⟩, rfl⟩
  · rintro ⟨pairs, ⟨bodies, hbodies, hpairs⟩, rfl⟩
    exact ⟨bodies.flatten, unframe_eq_ok_iff.2 ⟨bodies, hbodies, rfl⟩,
      readPayload_eq_ok_iff.2 ⟨pairs, hpairs, rfl⟩⟩

end JarPlan.OptionToken
