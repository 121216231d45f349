import JarPlan.Json.Token
import JarPlan.Json.Writer
import Mathlib.Tactic.SplitIfs
/-!
# The tokens of compact texts

A compact text is the texts of its tokens, one behind the other. Every token but a number shows where it ends,
so the tokens are found again one at a time, whatever comes behind: a string literal ends at a quote, and in
front of the quotes inside it stands a backslash.
-/

namespace JarPlan.Json

namespace Token

/-! ### Characters of a string -/

/-- The characters escaped by a letter, with their letters. -/
def letters : List (Char × Char) :=
  [('\n', 'n'), ('\r', 'r'), ('\t', 't'), (Char.ofNat 0x8, 'b'), (Char.ofNat 0xC, 'f'), ('"', '"'), ('\\', '\\')]

theorem mem_letters_of_escapeLetter? {c letter : Char} (h : escapeLetter? c = some letter) : (c, letter) ∈ letters := by
  have hchar {n : Nat} (hn : c.toNat = n) : c = Char.ofNat n := by rw [← hn, Char.ofNat_toNat]
  rw [escapeLetter?] at h
  split_ifs at h with hline hreturn htab hback hfeed hquote hslash
  all_goals obtain rfl := Option.some.inj h
  · simp [letters, hline]
  · simp [letters, hreturn]
  · simp [letters, htab]
  · simp [letters, hchar hback]
  · simp [letters, hchar hfeed]
  · simp [letters, hquote]
  · simp [letters, hslash]

theorem escaped?_of_mem_letters : ∀ e ∈ letters, e.2 ≠ 'u' ∧ escaped? e.2 = some e.1.toNat ∧
    Text.units e.1 = [e.1.toNat] := by
  decide

theorem readString_letter (done : List Nat) {letter : Char} {unit : Nat} (rest : List Char) (hletter : letter ≠ 'u')
    (h : escaped? letter = some unit) :
    readString done ('\\' :: letter :: rest) = readString (unit :: done) rest := by
  rw [readString]
  · rw [h]
  · rintro a b c d rest' rfl -
    exact hletter rfl

theorem readString_hex (done : List Nat) {a b c d : Char} {unit : Nat} (rest : List Char)
    (h : hexUnit? a b c d = some unit) :
    readString done ('\\' :: 'u' :: a :: b :: c :: d :: rest) = readString (unit :: done) rest := by
  rw [readString, h]

theorem hexUnit?_hexByte : ∀ n < 0x20, hexUnit? '0' '0' (Bytes.hexDigit false ((UInt8.ofNat n).toNat / 16))
    (Bytes.hexDigit false ((UInt8.ofNat n).toNat % 16)) = some n := by
  decide

theorem readString_plain (done : List Nat) {c : Char} (rest : List Char) (hquote : c ≠ '"') (hslash : c ≠ '\\')
    (h : ¬ c.toNat < 0x20) :
    readString done (c :: rest) = readString ((Text.units c).reverse ++ done) rest := by
  rw [readString, if_neg h]
  · exact hquote
  · exact fun _ _ _ _ _ hc _ => hslash hc
  · exact fun _ _ hc _ => hslash hc

theorem readString_writeChar (done : List Nat) (c : Char) (rest : List Char) :
    readString done (writeChar c ++ rest) = readString ((Text.units c).reverse ++ done) rest := by
  cases hletter : escapeLetter? c with
  | some letter =>
    obtain ⟨hne, hunit, hunits⟩ := escaped?_of_mem_letters _ (mem_letters_of_escapeLetter? hletter)
    rw [writeChar, hletter, hunits]
    exact readString_letter done rest hne hunit
  | none =>
    rw [writeChar, hletter]
    by_cases hlow : c.toNat < 0x20
    · have hunits : Text.units c = [c.toNat] := if_pos (Nat.lt_trans hlow (by decide))
      rw [hunits]
      dsimp only
      rw [if_pos hlow, Bytes.hexByte]
      exact readString_hex done rest (hexUnit?_hexByte _ hlow)
    · dsimp only
      rw [if_neg hlow]
      apply readString_plain done rest _ _ hlow
      · rintro rfl
        cases hletter
      · rintro rfl
        cases hletter

theorem readString_flatMap_writeChar (done : List Nat) (s rest : List Char) :
    readString done (s.flatMap writeChar ++ rest) = readString ((s.flatMap Text.units).reverse ++ done) rest := by
  induction s generalizing done with
  | nil => rfl
  | cons c s ih =>
    rw [List.flatMap_cons, List.append_assoc, readString_writeChar, ih, List.flatMap_cons, List.reverse_append,
      List.append_assoc]

/-- A string literal is read to its last quote. -/
theorem readString_writeString (text : Option String) (rest : List Char) :
    ∃ literal, writeString text = '"' :: literal ∧ readString [] (literal ++ rest) = some (text, rest) := by
  cases text with
  | none =>
    have hunit : hexUnit? 'd' '8' '0' '0' = some 0xD800 := by decide
    refine ⟨['\\', 'u', 'd', '8', '0', '0', '"'], by decide, ?_⟩
    exact readString_hex [] ('"' :: rest) hunit
  | some s =>
    refine ⟨s.toList.flatMap writeChar ++ ['"'], rfl, ?_⟩
    rw [List.append_assoc, readString_flatMap_writeChar, List.singleton_append, readString, List.append_nil,
      List.reverse_reverse, Text.ofUnits?_flatMap_units, Option.map_some, String.ofList_toList]

/-! ### Texts of tokens -/

/-- How a compact text writes a token. -/
def chars : Token → List Char
  | openArray => ['[']
  | closeArray => [']']
  | openObject => ['{']
  | closeObject => ['}']
  | colon => [':']
  | comma => [',']
  | null => "null".toList
  | bool value => writeBool value
  | number literal => literal.toList
  | string text => writeString text

def isNumber : Token → Bool
  | number _ => true
  | _ => false

theorem next?_chars {token : Token} (h : token.isNumber = false) (rest : List Char) :
    next? (token.chars ++ rest) = some (token, rest) := by
  cases token with
  | number literal => cases h
  | bool value => cases value <;> rfl
  | string text =>
    obtain ⟨literal, hwrite, hread⟩ := readString_writeString text rest
    rw [chars, hwrite, List.cons_append, next?, hread]
    rfl
  | _ => rfl

theorem exists_chars_eq_cons {token : Token} (h : token.isNumber = false) :
    ∃ c rest, token.chars = c :: rest ∧ isBlank c = false := by
  cases token with
  | number literal => cases h
  | bool value => cases value <;> exact ⟨_, _, rfl, rfl⟩
  | string text =>
    obtain ⟨literal, hwrite, -⟩ := readString_writeString text []
    exact ⟨'"', literal, hwrite, rfl⟩
  | _ => exact ⟨_, _, rfl, rfl⟩

theorem readFrom_chars (done : List Token) {token : Token} (h : token.isNumber = false) (fuel : Nat)
    (rest : List Char) : readFrom done (fuel + 1) (token.chars ++ rest) = readFrom (token :: done) fuel rest := by
  obtain ⟨c, tail, hchars, hblank⟩ := exists_chars_eq_cons h
  have hnext := next?_chars h rest
  rw [hchars, List.cons_append] at hnext
  have hdrop : (c :: (tail ++ rest)).dropWhile isBlank = c :: (tail ++ rest) :=
    List.dropWhile_cons_of_neg (by simp [hblank])
  rw [hchars, List.cons_append, readFrom.eq_def]
  simp only [hdrop, hnext]

/-! ### Texts of rows of tokens -/

/-- The texts of the tokens one behind the other, with blanks in front of any of them. -/
inductive IsText : List Token → List Char → Prop
  | nil : IsText [] []
  | blank {c : Char} {tokens : List Token} {s : List Char} (hc : isBlank c = true) (hs : IsText tokens s) :
    IsText tokens (c :: s)
  | token (token : Token) {tokens : List Token} {s : List Char} (hs : IsText tokens s) :
    IsText (token :: tokens) (token.chars ++ s)

theorem IsText.blanks {blanks : List Char} (hblanks : ∀ c ∈ blanks, isBlank c = true) {tokens : List Token}
    {s : List Char} (h : IsText tokens s) : IsText tokens (blanks ++ s) := by
  induction blanks with
  | nil => exact h
  | cons c blanks ih =>
    obtain ⟨hc, hrest⟩ := List.forall_mem_cons.1 hblanks
    exact .blank hc (ih hrest)

theorem IsText.append {tokens tokens' : List Token} {s s' : List Char} (h : IsText tokens s)
    (h' : IsText tokens' s') : IsText (tokens ++ tokens') (s ++ s') := by
  induction h with
  | nil => exact h'
  | blank hc _ ih => exact .blank hc ih
  | token token _ ih =>
    rw [List.append_assoc]
    exact .token token ih

theorem isText_chars (token : Token) : IsText [token] token.chars := by
  have htext := IsText.token token .nil
  rwa [List.append_nil] at htext

theorem isText_flatMap_chars (tokens : List Token) : IsText tokens (tokens.flatMap chars) := by
  induction tokens with
  | nil => exact .nil
  | cons token tokens ih => exact .token token ih

theorem readFrom_blank (done : List Token) (fuel : Nat) {c : Char} (hc : isBlank c = true) (s : List Char) :
    readFrom done fuel (c :: s) = readFrom done fuel s := by
  rw [readFrom.eq_def, readFrom.eq_def done fuel s]
  dsimp only
  rw [List.dropWhile_cons_of_pos hc]

theorem IsText.readFrom {tokens : List Token} {s : List Char} (h : IsText tokens s)
    (hnumber : ∀ token ∈ tokens, token.isNumber = false) (done : List Token) {fuel : Nat}
    (hfuel : tokens.length ≤ fuel) : readFrom done fuel s = some (done.reverse ++ tokens) := by
  induction h generalizing done fuel with
  | nil =>
    rw [List.append_nil, readFrom.eq_def]
    rfl
  | blank hc _ ih => rw [readFrom_blank done fuel hc, ih hnumber done hfuel]
  | token token _ ih =>
    obtain ⟨htoken, hrest⟩ := List.forall_mem_cons.1 hnumber
    cases fuel with
    | zero => cases hfuel
    | succ fuel =>
      rw [readFrom_chars done htoken, ih hrest (token :: done) (Nat.le_of_succ_le_succ hfuel), List.reverse_cons,
        List.append_assoc, List.singleton_append]

theorem IsText.length_le {tokens : List Token} {s : List Char} (h : IsText tokens s)
    (hnumber : ∀ token ∈ tokens, token.isNumber = false) : tokens.length ≤ s.length := by
  induction h with
  | nil => exact Nat.le_refl _
  | blank _ _ ih => exact Nat.le_succ_of_le (ih hnumber)
  | token token _ ih =>
    obtain ⟨htoken, hrest⟩ := List.forall_mem_cons.1 hnumber
    obtain ⟨c, rest, hchars, -⟩ := exists_chars_eq_cons htoken
    have hle := ih hrest
    rw [hchars, List.length_append, List.length_cons, List.length_cons]
    omega

/-- Tokens without numbers are read from their texts. -/
theorem IsText.ofChars? {tokens : List Token} {s : List Char} (h : IsText tokens s)
    (hnumber : ∀ token ∈ tokens, token.isNumber = false) : ofChars? s = some tokens := by
  rw [Token.ofChars?, h.readFrom hnumber [] (h.length_le hnumber)]
  rfl

end Token

/-! ### Tokens of a value -/

mutual

def tokens : Json → List Token
  | null => [.null]
  | bool value => [.bool value]
  | number literal => [.number literal]
  | string text => [.string text]
  | array items => .openArray :: itemTokens items
  | object fields => .openObject :: fieldTokens fields

/-- The tokens of the items of an array, and its closing bracket. -/
def itemTokens : List Json → List Token
  | [] => [.closeArray]
  | item :: rest => tokens item ++ moreItemTokens rest

/-- The same after an item. -/
def moreItemTokens : List Json → List Token
  | [] => [.closeArray]
  | item :: rest => .comma :: tokens item ++ moreItemTokens rest

/-- The tokens of the fields of an object, and its closing brace. -/
def fieldTokens : List (Option String × Json) → List Token
  | [] => [.closeObject]
  | (name, value) :: rest => .string name :: .colon :: tokens value ++ moreFieldTokens rest

/-- The same after a field. -/
def moreFieldTokens : List (Option String × Json) → List Token
  | [] => [.closeObject]
  | (name, value) :: rest => .comma :: .string name :: .colon :: tokens value ++ moreFieldTokens rest

end

mutual

theorem compactChars_eq : ∀ j : Json, compactChars j = (tokens j).flatMap Token.chars
  | null => rfl
  | bool value => (List.append_nil _).symm
  | number literal => (List.append_nil _).symm
  | string text => (List.append_nil _).symm
  | array items => by rw [compactChars, tokens, compactItems_eq, List.flatMap_cons]; rfl
  | object fields => by rw [compactChars, tokens, compactFields_eq, List.flatMap_cons]; rfl

theorem compactItems_eq : ∀ items, compactItems items = (itemTokens items).flatMap Token.chars
  | [] => rfl
  | item :: rest => by
    rw [compactItems, itemTokens, compactChars_eq, compactMoreItems_eq, List.flatMap_append]

theorem compactMoreItems_eq : ∀ items, compactMoreItems items = (moreItemTokens items).flatMap Token.chars
  | [] => rfl
  | item :: rest => by
    rw [compactMoreItems, moreItemTokens, compactChars_eq, compactMoreItems_eq, List.flatMap_append,
      List.flatMap_cons]
    rfl

theorem compactFields_eq : ∀ fields, compactFields fields = (fieldTokens fields).flatMap Token.chars
  | [] => rfl
  | (name, value) :: rest => by
    rw [compactFields, fieldTokens, compactChars_eq, compactMoreFields_eq, List.flatMap_append, List.flatMap_cons,
      List.flatMap_cons]
    simp [Token.chars]

theorem compactMoreFields_eq : ∀ fields, compactMoreFields fields = (moreFieldTokens fields).flatMap Token.chars
  | [] => rfl
  | (name, value) :: rest => by
    rw [compactMoreFields, moreFieldTokens, compactChars_eq, compactMoreFields_eq, List.flatMap_append,
      List.flatMap_cons, List.flatMap_cons, List.flatMap_cons]
    simp [Token.chars]

end

end JarPlan.Json
