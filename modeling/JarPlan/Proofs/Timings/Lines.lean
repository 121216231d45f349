import JarPlan.Proofs.Text.Pieces
import JarPlan.Result
import JarPlan.Timings
/-!
# A report is read line by line

What a line gives depends on nothing but its text, and its place is only needed to name it. So a report is
malformed exactly when one of its lines is malformed as a report of its own, and the first such line is named. A
report that is cut at a line break gives the timings of its parts one after the other; a fault in the second part
is found as many lines further down as the first part has.
-/

namespace JarPlan.Timings

/-! ### One line -/

/-- A line without the white space around it, as an error shows it. -/
def shown (line : String) : String := String.ofList (Text.trim Text.isBlank line.toList)

/-- The processor of a line and what is said of it, if the line has a total. -/
def headed? (line : String) : Option (List Char × List Char) :=
  Text.splitAt? ": total: ".toList (Text.trim Text.isBlank line.toList)

/-- The timing that a line gives. -/
def timing? (line : String) : Option Timing := (headed? line).bind fun e => readTiming? e.1 e.2

/-- A line with a total that is not a timing. -/
def IsMalformed (line : String) : Prop := headed? line ≠ none ∧ timing? line = none

instance (line : String) : Decidable (IsMalformed line) := inferInstanceAs (Decidable (_ ∧ _))

theorem readLine_of_isMalformed (number : Nat) {line : String} (h : IsMalformed line) :
    readLine number (Text.trim Text.isBlank line.toList) = .error (.malformed number (shown line)) := by
  obtain ⟨hhead, htiming⟩ := h
  obtain ⟨e, hsome⟩ := Option.ne_none_iff_exists'.1 hhead
  rw [timing?, hsome, Option.bind_some] at htiming
  rw [headed?] at hsome
  simp only [readLine, hsome, htiming, shown]

theorem readLine_of_not_isMalformed (number : Nat) {line : String} (h : ¬ IsMalformed line) :
    readLine number (Text.trim Text.isBlank line.toList) = .ok (timing? line) := by
  cases hhead : headed? line with
  | none =>
    rw [timing?, hhead]
    rw [headed?] at hhead
    simp only [readLine, hhead, Option.bind_none]
  | some e =>
    have hsome : timing? line ≠ none := fun hnone => h ⟨by simp [hhead], hnone⟩
    obtain ⟨t, ht⟩ := Option.ne_none_iff_exists'.1 hsome
    rw [ht]
    rw [timing?, hhead, Option.bind_some] at ht
    rw [headed?] at hhead
    simp only [readLine, hhead, ht]

/-! ### Rows of lines -/

/-- Reads lines of which the first has the number after `above`. -/
def readLines (above : Nat) (lines : List String) : Except ReportError (List (Option Timing)) :=
  (lines.zipIdx above).mapM fun e => readLine (e.2 + 1) (Text.trim Text.isBlank e.1.toList)

theorem readLines_of_forall (above : Nat) {lines : List String} (h : ∀ line ∈ lines, ¬ IsMalformed line) :
    readLines above lines = .ok (lines.map timing?) := by
  have hread : ∀ e ∈ lines.zipIdx above,
      readLine (e.2 + 1) (Text.trim Text.isBlank e.1.toList) = .ok (timing? e.1) :=
    fun e he => readLine_of_not_isMalformed _ (h e.1 (List.fst_mem_of_mem_zipIdx he))
  rw [readLines, mapM_eq_ok_map hread, ← Function.comp_def, ← List.map_map, List.zipIdx_map_fst]

theorem readLines_of_isMalformed (above : Nat) {before after : List String} {line : String}
    (hbefore : ∀ l ∈ before, ¬ IsMalformed l) (hline : IsMalformed line) :
    readLines above (before ++ line :: after) = .error (.malformed (above + before.length + 1) (shown line)) := by
  rw [readLines, List.zipIdx_append, List.zipIdx_cons]
  refine mapM_eq_error (fun e he => ⟨timing? e.1, ?_⟩) ?_
  · exact readLine_of_not_isMalformed _ (hbefore e.1 (List.fst_mem_of_mem_zipIdx he))
  · rw [Nat.add_comm above]
    exact readLine_of_isMalformed _ hline

theorem cases_of_lines (lines : List String) :
    (∀ line ∈ lines, ¬ IsMalformed line) ∨ ∃ before line after, lines = before ++ line :: after ∧
      (∀ l ∈ before, ¬ IsMalformed l) ∧ IsMalformed line := by
  cases hfind : lines.find? fun line => IsMalformed line with
  | none =>
    left
    simpa using hfind
  | some line =>
    right
    obtain ⟨hline, before, after, hsplit, hbefore⟩ := List.find?_eq_some_iff_append.1 hfind
    exact ⟨before, line, after, hsplit, by simpa using hbefore, of_decide_eq_true hline⟩

/-! ### Reports -/

/-- A text has its lines between its line breaks, and after the last break maybe nothing. -/
theorem cutAt_line_break (text : String) :
    Text.cutAt '\n' text = (Text.lines text.toList).map String.ofList ∨
      Text.cutAt '\n' text = (Text.lines text.toList).map String.ofList ++ [""] := by
  rw [Text.lines, Text.cutAt]
  split
  · rename_i hlast
    right
    have hpieces := List.dropLast_append_getLast? [] (eq_of_beq hlast)
    conv_lhs => rw [← hpieces]
    rw [List.map_append]
    rfl
  · left
    rfl

theorem parse_eq (text : String) :
    parse text = (readLines 0 (Text.cutAt '\n' text)).map (List.filterMap id) := by
  have hlines : parse text = (readLines 0 ((Text.lines text.toList).map String.ofList)).map (List.filterMap id) := by
    rw [parse, readLines, List.zipIdx_map, List.mapM_map]
    simp only [Function.comp_def, Prod.map_fst, Prod.map_snd, String.toList_ofList, id_eq]
    cases (Text.lines text.toList).zipIdx.mapM
      fun e => readLine (e.2 + 1) (Text.trim Text.isBlank e.1) <;> rfl
  obtain hcut | hcut := cutAt_line_break text
  · rw [hlines, hcut]
  · -- an empty line has no total, so the last one adds nothing
    rw [hlines, hcut, readLines, readLines, List.zipIdx_append, List.mapM_append]
    cases ((Text.lines text.toList).map String.ofList).zipIdx.mapM
        fun e => readLine (e.2 + 1) (Text.trim Text.isBlank e.1.toList) with
    | error e => rfl
    | ok timings =>
      change Except.ok _ = Except.ok ((timings ++ [none]).filterMap id)
      rw [List.filterMap_append]
      simp

theorem parse_of_forall {text : String} (h : ∀ line ∈ Text.cutAt '\n' text, ¬ IsMalformed line) :
    parse text = .ok ((Text.cutAt '\n' text).filterMap timing?) := by
  rw [parse_eq, readLines_of_forall 0 h]
  change Except.ok _ = _
  rw [List.filterMap_map, Function.id_comp]

theorem parse_of_isMalformed {text : String} {before after : List String} {line : String}
    (hcut : Text.cutAt '\n' text = before ++ line :: after) (hbefore : ∀ l ∈ before, ¬ IsMalformed l)
    (hline : IsMalformed line) : parse text = .error (.malformed (before.length + 1) (shown line)) := by
  rw [parse_eq, hcut, readLines_of_isMalformed 0 hbefore hline, Nat.zero_add]
  rfl

theorem parse_eq_error_iff {text : String} {error : ReportError} :
    parse text = .error error ↔ ∃ before line after, Text.cutAt '\n' text = before ++ line :: after ∧
      (∀ l ∈ before, ¬ IsMalformed l) ∧ IsMalformed line ∧ error = .malformed (before.length + 1) (shown line) := by
  constructor
  · intro h
    obtain hlines | ⟨before, line, after, hcut, hbefore, hline⟩ := cases_of_lines (Text.cutAt '\n' text)
    · rw [parse_of_forall hlines] at h
      cases h
    · rw [parse_of_isMalformed hcut hbefore hline] at h
      exact ⟨before, line, after, hcut, hbefore, hline, (Except.error.inj h).symm⟩
  · rintro ⟨before, line, after, hcut, hbefore, hline, rfl⟩
    exact parse_of_isMalformed hcut hbefore hline

theorem exists_parse_eq_error_iff {text : String} :
    (∃ error, parse text = .error error) ↔ ∃ line ∈ Text.cutAt '\n' text, IsMalformed line := by
  constructor
  · rintro ⟨error, h⟩
    obtain ⟨before, line, after, hcut, -, hline, -⟩ := parse_eq_error_iff.1 h
    refine ⟨line, ?_, hline⟩
    rw [hcut]
    exact List.mem_append_right before List.mem_cons_self
  · rintro ⟨line, hmem, hline⟩
    obtain hlines | ⟨before, first, after, hcut, hbefore, hfirst⟩ := cases_of_lines (Text.cutAt '\n' text)
    · exact absurd hline (hlines line hmem)
    · exact ⟨_, parse_of_isMalformed hcut hbefore hfirst⟩

theorem exists_parse_eq_ok_iff {text : String} :
    (∃ timings, parse text = .ok timings) ↔ ∀ line ∈ Text.cutAt '\n' text, ¬ IsMalformed line := by
  constructor
  · rintro ⟨timings, h⟩ line hmem hline
    obtain ⟨error, herror⟩ := exists_parse_eq_error_iff.2 ⟨line, hmem, hline⟩
    rw [h] at herror
    cases herror
  · exact fun h => ⟨_, parse_of_forall h⟩

/-- The line of a report, taken out of it, is a report with the same fault. -/
theorem exists_line_eq_error_iff {text line : String} (h : line ∈ Text.cutAt '\n' text) :
    (∃ error, parse line = .error error) ↔ IsMalformed line := by
  rw [exists_parse_eq_error_iff, Text.cutAt_eq_singleton (Text.not_mem_of_mem_cutAt h)]
  simp

theorem exists_line_eq_ok_iff {text line : String} (h : line ∈ Text.cutAt '\n' text) :
    (∃ timings, parse line = .ok timings) ↔ ¬ IsMalformed line := by
  rw [exists_parse_eq_ok_iff, Text.cutAt_eq_singleton (Text.not_mem_of_mem_cutAt h), List.forall_mem_singleton]

/-! ### Reports that are cut -/

/-- The same error with the given number of lines above it. -/
def ReportError.below (above : Nat) : ReportError → ReportError
  | .malformed line content => .malformed (line + above) content
  | .read path error => .read path error

/-- The line break that cuts a report ends the last line of the first part. -/
theorem parse_append (a b : String) :
    parse (a ++ "\n" ++ b) = do
      let first ← parse a
      let second ← (parse b).mapError (ReportError.below (a.toList.count '\n' + 1))
      return first ++ second := by
  have hcut : Text.cutAt '\n' (a ++ "\n" ++ b) = Text.cutAt '\n' a ++ Text.cutAt '\n' b :=
    Text.cutAt_append rfl a b
  obtain ha | ⟨before, line, after, hcutA, hbefore, hline⟩ := cases_of_lines (Text.cutAt '\n' a)
  · rw [parse_of_forall ha]
    obtain hb | ⟨before, line, after, hcutB, hbefore, hline⟩ := cases_of_lines (Text.cutAt '\n' b)
    · rw [parse_of_forall hb, parse_of_forall (hcut ▸ List.forall_mem_append.2 ⟨ha, hb⟩), hcut,
        List.filterMap_append]
      rfl
    · rw [hcutB, ← List.append_assoc] at hcut
      have hnumber : (Text.cutAt '\n' a ++ before).length + 1 = before.length + 1 + (a.toList.count '\n' + 1) := by
        rw [List.length_append, Text.length_cutAt]
        omega
      rw [parse_of_isMalformed hcutB hbefore hline,
        parse_of_isMalformed hcut (List.forall_mem_append.2 ⟨ha, hbefore⟩) hline, hnumber]
      rfl
  · rw [hcutA, List.append_assoc, List.cons_append] at hcut
    rw [parse_of_isMalformed hcutA hbefore hline, parse_of_isMalformed hcut hbefore hline]
    rfl

/-- Reading goes line by line. Of two reports with a line break between them the first fault is the one in the first
report, or else the one in the second with its line counted on, and without faults the timings follow each other. A
report has a fault exactly when one of its lines has one when it is read alone, and the error names the first such
line. -/
theorem parse_goes_line_by_line :
    (∀ a b : String, parse (a ++ "\n" ++ b) = do
      let first ← parse a
      let second ← (parse b).mapError (ReportError.below (a.toList.count '\n' + 1))
      return first ++ second) ∧
    (∀ text : String, (∃ error, parse text = .error error) ↔
      ∃ line ∈ Text.cutAt '\n' text, ∃ error, parse line = .error error) ∧
    ∀ (text : String) (error : ReportError), parse text = .error error ↔
      ∃ before line after, Text.cutAt '\n' text = before ++ line :: after ∧
        (∀ l ∈ before, ∃ timings, parse l = .ok timings) ∧ (∃ alone, parse line = .error alone) ∧
        error = .malformed (before.length + 1) (String.ofList (Text.trim Text.isBlank line.toList)) := by
  refine ⟨parse_append, fun text => ?_, fun text error => ?_⟩
  · rw [exists_parse_eq_error_iff]
    exact exists_congr fun line => and_congr_right fun hline => (exists_line_eq_error_iff hline).symm
  · rw [parse_eq_error_iff]
    refine exists_congr fun before => exists_congr fun line => exists_congr fun after => ?_
    refine and_congr_right fun hcut => ?_
    have hbefore : ∀ l ∈ before, l ∈ Text.cutAt '\n' text := by
      intro l hl
      rw [hcut]
      exact List.mem_append_left _ hl
    have hline : line ∈ Text.cutAt '\n' text := by
      rw [hcut]
      exact List.mem_append_right before List.mem_cons_self
    rw [exists_line_eq_error_iff hline, ← shown]
    refine and_congr_left fun _ => ?_
    exact forall₂_congr fun l hl => (exists_line_eq_ok_iff (hbefore l hl)).symm

/-- The heading and the empty line count, and the blanks around a line do not. -/
example : parse "heading\n\n  p: total: 1 ms \r\n" = .error (.malformed 3 "p: total: 1 ms") := by decide +kernel

end JarPlan.Timings
