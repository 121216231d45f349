import JarPlan.Proofs.Lists
import JarPlan.Proofs.Text.Decimal
import JarPlan.Proofs.Timings.Lines
/-!
# Reports are read back

A report has a heading and a line for each timing. The line ends with the times of the rounds and says before them
how many there are. Such a line is read as the very timing it was made from, as long as there is a round: where
there is none, the line ends behind its last colon, and it is malformed.
-/

namespace JarPlan.Timings

/-! ### The text of a report -/

def heading : String := "Kapt Annotation Processing performance report:"

/-- The times of the rounds. -/
def roundsText (t : Timing) : String := ", ".intercalate (t.rounds.map fun n => s!"{n} ms")

/-- The line for a timing. -/
def lineText (t : Timing) : String :=
  s!"{t.processor}: total: {t.total} ms, init: {t.init} ms, {t.rounds.length} round(s): {roundsText t}"

/-- A report, without a line break at its end. -/
def reportText (timings : List Timing) : String := "\n".intercalate (heading :: timings.map lineText)

/-- A name that a line can begin with. -/
def IsName (name : String) : Prop := ∀ c ∈ name.toList, c ≠ ':' ∧ Text.isBlank c = false

instance (name : String) : Decidable (IsName name) := List.decidableBAll _ name.toList

/-! ### Characters of a line -/

def millis (n : UInt64) : List Char := Text.decimal n.toNat ++ " ms".toList

/-- What a line says of the rounds, cut at the commas. -/
def roundParts : List UInt64 → List (List Char)
  | [] => ["0 round(s):".toList]
  | first :: others =>
    (Text.decimal (others.length + 1) ++ " round(s): ".toList ++ millis first) :: others.map millis

/-- What a line says of its processor, cut at the commas. -/
def parts (t : Timing) : List (List Char) :=
  millis t.total :: ("init: ".toList ++ millis t.init) :: roundParts t.rounds

theorem toList_lineText (t : Timing) : (lineText t).toList =
    t.processor.toList ++ ": total: ".toList ++ ", ".toList.intercalate [millis t.total,
      "init: ".toList ++ millis t.init, Text.decimal t.rounds.length ++ " round(s): ".toList ++
        ", ".toList.intercalate (t.rounds.map millis)] := by
  have hrounds : (roundsText t).toList = ", ".toList.intercalate (t.rounds.map millis) := by
    have hmillis : String.toList ∘ (fun n : UInt64 => s!"{n} ms") = millis := by
      funext n
      simp only [Function.comp_apply, toString, String.toList_append, Text.toList_repr, millis]
    rw [roundsText, String.toList_intercalate, List.map_map, hmillis]
  have htotal : " ms, init: ".toList = " ms".toList ++ ", ".toList ++ "init: ".toList := rfl
  have hinit : " ms, ".toList = " ms".toList ++ ", ".toList := rfl
  simp only [lineText, toString, String.toList_append, Text.toList_repr, hrounds, htotal, hinit, millis,
    List.intercalate_cons_cons, List.intercalate_singleton, List.append_assoc]

example : lineText ⟨"p", 133, 36, [97, 0]⟩ = "p: total: 133 ms, init: 36 ms, 2 round(s): 97 ms, 0 ms" := by
  decide +kernel

/-- The line for a timing without blanks around it. -/
def written (t : Timing) : List Char :=
  t.processor.toList ++ ": total: ".toList ++ ", ".toList.intercalate (parts t)

/-- Where there are no rounds, a blank is left behind the colon. -/
theorem toList_lineText_eq (t : Timing) :
    (lineText t).toList = written t ++ if t.rounds = [] then [' '] else [] := by
  rw [toList_lineText, written, parts]
  cases t.rounds with
  | nil =>
    have hcount : Text.decimal 0 ++ " round(s): ".toList = "0 round(s):".toList ++ [' '] := by decide
    simp only [roundParts, List.length_nil, List.map_nil, List.intercalate_nil, List.append_nil, hcount,
      List.intercalate_cons_cons, List.intercalate_singleton, List.append_assoc, if_pos]
  | cons first others =>
    simp only [roundParts, List.length_cons, List.map_cons, Text.append_intercalate, List.intercalate_cons_cons,
      List.intercalate_singleton, List.append_assoc, reduceCtorEq, if_false, List.append_nil]

theorem getLast?_append_millis (front : List Char) (n : UInt64) : (front ++ millis n).getLast? = some 's' := by
  have hunit : " ms".toList.getLast? = some 's' := rfl
  rw [millis, ← List.append_assoc, List.getLast?_append, hunit, Option.some_or]

theorem not_mem_millis {c : Char} (hc : c.isDigit = false) (hunit : c ∉ " ms".toList) (n : UInt64) : c ∉ millis n := by
  rw [millis, List.mem_append, not_or]
  exact ⟨Text.not_mem_decimal hc n.toNat, hunit⟩

/-- A part is a number of milliseconds behind some words, or else it says that there are no rounds. -/
theorem cases_of_mem_parts {t : Timing} {part : List Char} (h : part ∈ parts t) :
    (∃ lead n, part = lead ++ millis n ∧ ',' ∉ lead ∧ '\n' ∉ lead) ∨ part = "0 round(s):".toList := by
  rw [parts] at h
  obtain rfl | h := List.mem_cons.1 h
  · exact .inl ⟨[], t.total, rfl, List.not_mem_nil, List.not_mem_nil⟩
  obtain rfl | h := List.mem_cons.1 h
  · exact .inl ⟨_, t.init, rfl, by decide, by decide⟩
  cases hrounds : t.rounds with
  | nil =>
    rw [hrounds] at h
    exact .inr (List.mem_singleton.1 h)
  | cons first others =>
    have hlead {c : Char} (hc : c.isDigit = false) (hwords : c ∉ " round(s): ".toList) :
        c ∉ Text.decimal (others.length + 1) ++ " round(s): ".toList := by
      rw [List.mem_append, not_or]
      exact ⟨Text.not_mem_decimal hc _, hwords⟩
    rw [hrounds] at h
    obtain rfl | h := List.mem_cons.1 h
    · exact .inl ⟨_, first, rfl, hlead rfl (by decide), hlead rfl (by decide)⟩
    · obtain ⟨n, -, rfl⟩ := List.mem_map.1 h
      exact .inl ⟨[], n, rfl, List.not_mem_nil, List.not_mem_nil⟩

theorem not_mem_of_mem_parts {t : Timing} {part : List Char} (h : part ∈ parts t) : ',' ∉ part ∧ '\n' ∉ part := by
  obtain ⟨lead, n, rfl, hcomma, hbreak⟩ | rfl := cases_of_mem_parts h
  · rw [List.mem_append, not_or, List.mem_append, not_or]
    exact ⟨⟨hcomma, not_mem_millis rfl (by decide) n⟩, hbreak, not_mem_millis rfl (by decide) n⟩
  · decide

theorem exists_getLast?_of_mem_parts {t : Timing} {part : List Char} (h : part ∈ parts t) :
    ∃ c, part.getLast? = some c ∧ Text.isBlank c = false := by
  obtain ⟨lead, n, rfl, -, -⟩ | rfl := cases_of_mem_parts h
  · exact ⟨'s', getLast?_append_millis lead n, by decide⟩
  · exact ⟨':', rfl, by decide⟩

theorem trim_lineText {t : Timing} (hname : IsName t.processor) :
    Text.trim Text.isBlank (lineText t).toList = written t := by
  have hfirst : ∀ c ∈ (written t).head?, Text.isBlank c = false := by
    intro c hc
    rw [written] at hc
    cases hlist : t.processor.toList with
    | nil =>
      rw [hlist] at hc
      obtain rfl := Option.some.inj hc
      decide
    | cons d rest =>
      rw [hlist] at hc
      obtain rfl := Option.some.inj hc
      exact (hname d (hlist ▸ List.mem_cons_self)).2
  have hlast : ∀ c ∈ (written t).getLast?, Text.isBlank c = false := by
    have hne : parts t ≠ [] := List.cons_ne_nil _ _
    obtain ⟨c, hc, hblank⟩ := exists_getLast?_of_mem_parts (List.getLast_mem hne)
    obtain ⟨before, hbefore⟩ := Text.suffix_intercalate ", ".toList ((parts t).getLast hne) (parts t).dropLast
    rw [List.dropLast_concat_getLast hne] at hbefore
    rw [written, ← hbefore, ← List.append_assoc, List.getLast?_append, hc, Option.some_or]
    intro d hd
    rwa [← Option.some.inj hd]
  have hblanks : ∀ c ∈ if t.rounds = [] then [' '] else [], Text.isBlank c = true := by
    split
    · exact List.forall_mem_singleton.2 rfl
    · exact List.forall_mem_nil _
  rw [toList_lineText_eq]
  exact Text.trim_append_right hblanks hfirst hlast

/-! ### Reading a line -/

theorem readMillis?_millis (n : UInt64) : readMillis? (millis n) = some n := by
  have hfirst : ∀ c ∈ (millis n).head?, Text.isBlank c = false := by
    intro c hc
    rw [millis, List.head?_append_of_ne_nil _ (Text.decimal_ne_nil _)] at hc
    exact Text.isBlank_of_mem_decimal (List.mem_of_mem_head? hc)
  have hlast : ∀ c ∈ (millis n).getLast?, Text.isBlank c = false := by
    intro c hc
    have hc' : some 's' = some c := (getLast?_append_millis [] n).symm.trans hc
    rw [← Option.some.inj hc']
    decide
  have hnumber : millis n = Text.decimal n.toNat ++ [' '] ++ "ms".toList := by
    rw [List.append_assoc]
    rfl
  rw [readMillis?, Text.trim_eq_self hfirst hlast, hnumber, Text.dropTail?_append]
  show Text.readWord? (Text.trim Text.isBlank (Text.decimal n.toNat ++ [' '])) = some n
  rw [Text.trim_decimal_append n.toNat (List.forall_mem_singleton.2 rfl), Text.readWord?_decimal, if_pos n.toNat_lt,
    UInt64.ofNat_toNat]

theorem splitAll_parts (t : Timing) :
    Text.splitAll ", ".toList (", ".toList.intercalate (parts t)) = parts t :=
  Text.splitAll_intercalate_of_not_mem (by decide) (List.cons_ne_nil _ _) fun _ hpart =>
    (not_mem_of_mem_parts hpart).1

/-- The rounds are read back where there is one and their number is a word. -/
theorem readRounds?_roundParts (rounds : List UInt64) :
    readRounds? (roundParts rounds) =
      if 0 < rounds.length ∧ rounds.length < UInt64.size then some rounds else none := by
  cases rounds with
  | nil => decide
  | cons first others =>
    have hcut : Text.splitAt? " round(s): ".toList
        (Text.decimal (others.length + 1) ++ " round(s): ".toList ++ millis first) =
          some (Text.decimal (others.length + 1), millis first) :=
      Text.splitAt?_append (Text.not_mem_decimal rfl _) (millis first)
    have hrounds : (millis first :: others.map millis).mapM readMillis? = some (first :: others) := by
      have hmap := mapM_map_eq_some (l := first :: others) (g := millis) (k := id) fun n _ => readMillis?_millis n
      rwa [List.map_id] at hmap
    rw [roundParts, readRounds?, hcut, List.length_cons]
    show (Text.readWord? (Text.trim Text.isBlank (Text.decimal (others.length + 1)))).bind _ = _
    rw [Text.trim_decimal, Text.readWord?_decimal]
    by_cases hcount : others.length + 1 < UInt64.size
    · have hvalue : (UInt64.ofNat (others.length + 1)).toNat = others.length + 1 :=
        UInt64.toNat_ofNat_of_lt' hcount
      rw [if_pos hcount, if_pos ⟨Nat.succ_pos _, hcount⟩, Option.bind_some, hrounds]
      exact if_pos hvalue.symm
    · rw [if_neg hcount, if_neg fun h => hcount h.2]
      rfl

/-- A timing whose rounds a line can count: there is one, and their number is a word. -/
def HasRounds (t : Timing) : Prop := 0 < t.rounds.length ∧ t.rounds.length < UInt64.size

instance (t : Timing) : Decidable (HasRounds t) := inferInstanceAs (Decidable (_ ∧ _))

theorem readTiming?_parts {t : Timing} (hname : IsName t.processor) :
    readTiming? t.processor.toList (", ".toList.intercalate (parts t)) = if HasRounds t then some t else none := by
  have hprocessor : Text.trim Text.isBlank t.processor.toList = t.processor.toList :=
    Text.trim_eq_self (fun c hc => (hname c (List.mem_of_mem_head? hc)).2)
      fun c hc => (hname c (List.mem_of_mem_getLast? hc)).2
  have hreadRounds := readRounds?_roundParts t.rounds
  rw [readTiming?, splitAll_parts]
  simp only [parts, readMillis?_millis, Text.dropLead?_append, hreadRounds, hprocessor, String.ofList_toList,
    Option.bind_eq_bind, Option.bind_some]
  by_cases hrounds : 0 < t.rounds.length ∧ t.rounds.length < UInt64.size
  · rw [if_pos hrounds, if_pos (show HasRounds t from hrounds)]
    rfl
  · rw [if_neg hrounds, if_neg (show ¬ HasRounds t from hrounds)]
    rfl

theorem headed?_lineText {t : Timing} (hname : IsName t.processor) :
    headed? (lineText t) = some (t.processor.toList, ", ".toList.intercalate (parts t)) := by
  have hcolon : ':' ∉ t.processor.toList := fun h => (hname ':' h).1 rfl
  rw [headed?, trim_lineText hname]
  exact Text.splitAt?_append hcolon _

theorem timing?_lineText {t : Timing} (hname : IsName t.processor) :
    timing? (lineText t) = if HasRounds t then some t else none := by
  rw [timing?, headed?_lineText hname, Option.bind_some, readTiming?_parts hname]

theorem isMalformed_lineText_iff {t : Timing} (hname : IsName t.processor) :
    IsMalformed (lineText t) ↔ ¬ HasRounds t := by
  rw [IsMalformed, headed?_lineText hname, timing?_lineText hname, ite_eq_right_iff]
  simp

/-! ### Reading a report -/

theorem not_mem_lineText {t : Timing} (hname : IsName t.processor) : '\n' ∉ (lineText t).toList := by
  have hprocessor : '\n' ∉ t.processor.toList := fun h => absurd (hname '\n' h).2 (by decide)
  have hparts : '\n' ∉ ", ".toList.intercalate (parts t) := by
    intro h
    obtain h | ⟨part, hpart, h⟩ := Text.mem_intercalate h
    · revert h
      decide
    · exact (not_mem_of_mem_parts hpart).2 h
  rw [toList_lineText_eq, written]
  simp only [List.mem_append, not_or]
  refine ⟨⟨⟨hprocessor, by decide⟩, hparts⟩, ?_⟩
  split
  · decide
  · exact List.not_mem_nil

variable {timings : List Timing} {ending : String}

theorem cutAt_reportText (hnames : ∀ t ∈ timings, IsName t.processor) :
    Text.cutAt '\n' (reportText timings) = heading :: timings.map lineText := by
  have hlines : ∀ line ∈ heading :: timings.map lineText, '\n' ∉ line.toList := by
    rw [List.forall_mem_cons, List.forall_mem_map]
    exact ⟨by decide, fun t ht => not_mem_lineText (hnames t ht)⟩
  exact (Text.cutAt_intercalate_iff rfl (List.cons_ne_nil _ _)).2 hlines

theorem headed?_heading : headed? heading = none := by decide +kernel

theorem not_isMalformed_of_hasRounds (hnames : ∀ t ∈ timings, IsName t.processor)
    (hrounds : ∀ t ∈ timings, HasRounds t) : ∀ line ∈ heading :: timings.map lineText, ¬ IsMalformed line := by
  rw [List.forall_mem_cons, List.forall_mem_map]
  refine ⟨fun h => h.1 headed?_heading, fun t ht => ?_⟩
  rw [isMalformed_lineText_iff (hnames t ht), not_not]
  exact hrounds t ht

theorem parse_reportText (hnames : ∀ t ∈ timings, IsName t.processor) (hrounds : ∀ t ∈ timings, HasRounds t) :
    parse (reportText timings) = .ok timings := by
  have hread : ∀ t ∈ timings, (timing? ∘ lineText) t = some t := by
    intro t ht
    rw [Function.comp_apply, timing?_lineText (hnames t ht), if_pos (hrounds t ht)]
  have hheading : timing? heading = none := by
    rw [timing?, headed?_heading]
    rfl
  have hlines := not_isMalformed_of_hasRounds hnames hrounds
  rw [← cutAt_reportText hnames] at hlines
  rw [parse_of_forall hlines, cutAt_reportText hnames, List.filterMap_cons_none hheading, List.filterMap_map,
    List.filterMap_congr hread, List.filterMap_some]

theorem parse_reportText_of_not_hasRounds {before after : List Timing} {t : Timing}
    (hnames : ∀ u ∈ before ++ t :: after, IsName u.processor) (hbefore : ∀ u ∈ before, HasRounds u)
    (ht : ¬ HasRounds t) :
    parse (reportText (before ++ t :: after)) = .error (.malformed (before.length + 2) (shown (lineText t))) := by
  have hcut : Text.cutAt '\n' (reportText (before ++ t :: after)) =
      (heading :: before.map lineText) ++ lineText t :: after.map lineText := by
    rw [cutAt_reportText hnames, List.map_append]
    rfl
  obtain ⟨hnamesBefore, hnamesAfter⟩ := List.forall_mem_append.1 hnames
  have hline : IsMalformed (lineText t) :=
    (isMalformed_lineText_iff (hnamesAfter t List.mem_cons_self)).2 ht
  rw [parse_of_isMalformed hcut (not_isMalformed_of_hasRounds hnamesBefore hbefore) hline, List.length_cons,
    List.length_map]

/-- A line break behind the last line of a report adds nothing. -/
theorem parse_append_line_break (report : String) : parse (report ++ "\n") = parse report := by
  have hempty : parse "" = .ok [] := rfl
  rw [← String.append_empty (s := report ++ "\n"), parse_append, hempty]
  cases parse report with
  | error e => rfl
  | ok timings =>
    change Except.ok (timings ++ []) = _
    rw [List.append_nil]

theorem parse_reportText_append (hending : ending = "" ∨ ending = "\n") :
    parse (reportText timings ++ ending) = parse (reportText timings) := by
  obtain rfl | rfl := hending
  · rw [String.append_empty]
  · exact parse_append_line_break _

theorem shown_lineText_of_no_rounds {t : Timing} (hname : IsName t.processor) (h : t.rounds = []) :
    shown (lineText t) = s!"{t.processor}: total: {t.total} ms, init: {t.init} ms, 0 round(s):" := by
  have hend : " ms, 0 round(s):".toList = " ms".toList ++ ", ".toList ++ "0 round(s):".toList := rfl
  have htotal : " ms, init: ".toList = " ms".toList ++ ", ".toList ++ "init: ".toList := rfl
  rw [shown, trim_lineText hname, ← String.toList_inj, String.toList_ofList, written, parts, h]
  simp only [roundParts, millis, toString, String.toList_append, Text.toList_repr, htotal, hend,
    List.intercalate_cons_cons, List.intercalate_singleton, List.append_assoc]

/-- What is written for timings is read as these timings exactly when each has a round. The first line without one
is malformed. -/
theorem report_read_back_iff (hnames : ∀ t ∈ timings, IsName t.processor) (hending : ending = "" ∨ ending = "\n") :
    (parse (reportText timings ++ ending) = .ok timings ↔ ∀ t ∈ timings, HasRounds t) ∧
    ∀ before t after, timings = before ++ t :: after → (∀ u ∈ before, HasRounds u) → t.rounds = [] →
      parse (reportText timings ++ ending) = .error (.malformed (before.length + 2)
        s!"{t.processor}: total: {t.total} ms, init: {t.init} ms, 0 round(s):") := by
  rw [parse_reportText_append hending]
  refine ⟨⟨fun h t ht => ?_, parse_reportText hnames⟩, ?_⟩
  · have hlines := exists_parse_eq_ok_iff.1 ⟨timings, h⟩
    rw [cutAt_reportText hnames] at hlines
    have hline := hlines (lineText t) (List.mem_cons_of_mem _ (List.mem_map_of_mem ht))
    rwa [isMalformed_lineText_iff (hnames t ht), not_not] at hline
  · rintro before t after rfl hbefore ht
    have hnone : ¬ HasRounds t := by
      rw [HasRounds, ht]
      exact fun h => absurd h.1 (Nat.lt_irrefl 0)
    have hname : IsName t.processor := hnames t (List.mem_append_right before List.mem_cons_self)
    rw [parse_reportText_of_not_hasRounds hnames hbefore hnone, shown_lineText_of_no_rounds hname ht]

/-- A processor that ran in two rounds is read back; one that never ran is not. -/
theorem two_rounds_read_back_none_malformed :
    parse (reportText [⟨"com.example.Proc", 133, 36, [97, 0]⟩] ++ "\n") =
      .ok [⟨"com.example.Proc", 133, 36, [97, 0]⟩] ∧
    parse (reportText [⟨"com.example.Proc", 133, 36, [97, 0]⟩, ⟨"p", 1, 1, []⟩] ++ "") =
      .error (.malformed 3 "p: total: 1 ms, init: 1 ms, 0 round(s):") :=
  ⟨(report_read_back_iff (by decide) (.inr rfl)).1.2 (by decide),
    (report_read_back_iff (by decide) (.inl rfl)).2 [⟨"com.example.Proc", 133, 36, [97, 0]⟩] _ [] rfl
      (by decide) rfl⟩

end JarPlan.Timings
