import Mathlib.Data.List.Basic
import JarPlan.CommandLine.Run
/-!
# The total of a report

The summary of a report shows how long all processors took together. The times are added one by one as words, and
the command stops where a sum is no word. Sums only grow on the way, so it stops exactly when the sum of all times
is no word, and otherwise the total that is shown is this sum.
-/

namespace JarPlan.CommandLine

/-! ### The sum -/

/-- The time of all processors together, as it is. -/
def exactTotal : List Timing → Nat
  | [] => 0
  | t :: timings => t.total.toNat + exactTotal timings

theorem toNat_add_of_lt {a b : UInt64} (h : a.toNat + b.toNat < UInt64.size) : (a + b).toNat = a.toNat + b.toNat := by
  rw [UInt64.toNat_add]
  exact Nat.mod_eq_of_lt h

/-- Adding one by one is looking once whether the whole sum is a word. -/
theorem foldlM_checkedAdd (timings : List Timing) (sum : UInt64) :
    timings.foldlM (fun sum t => checkedAdd sum t.total) sum =
      if sum.toNat + exactTotal timings < UInt64.size then some (UInt64.ofNat (sum.toNat + exactTotal timings))
      else none := by
  induction timings generalizing sum with
  | nil =>
    have hword : sum.toNat + exactTotal [] < UInt64.size := sum.toNat_lt
    rw [if_pos hword, exactTotal, Nat.add_zero, UInt64.ofNat_toNat]
    rfl
  | cons t timings ih =>
    rw [List.foldlM_cons, checkedAdd, exactTotal, ← Nat.add_assoc]
    by_cases hfits : sum.toNat + t.total.toNat < UInt64.size
    · rw [if_pos hfits, ← toNat_add_of_lt hfits]
      exact ih (sum + t.total)
    · -- what has no room already has none with the rest
      have hrest : ¬ sum.toNat + t.total.toNat + exactTotal timings < UInt64.size :=
        fun h => hfits (Nat.lt_of_le_of_lt (Nat.le_add_right _ _) h)
      rw [if_neg hfits, if_neg hrest]
      rfl

theorem totalTime_eq (timings : List Timing) : totalTime timings =
    if exactTotal timings < UInt64.size then some (UInt64.ofNat (exactTotal timings)) else none := by
  rw [totalTime, foldlM_checkedAdd, UInt64.toNat_zero, Nat.zero_add]

/-! ### The summary -/

section Summary
variable {around : Surroundings} {report : Path} {text : String} {timings : List Timing}

theorem run_stats (hfile : around.file report = .ok text) (hparse : Timings.parse text = .ok timings)
    (hne : timings ≠ []) (verbose : Bool) :
    run around ⟨.stats report, .text, verbose⟩ =
      if exactTotal timings < UInt64.size then .ok (summary timings (durationText (exactTotal timings)))
      else .error .overflow := by
  have hsome : timings.isEmpty = false := by simpa using hne
  show runStats around report .text = _
  rw [runStats, hfile]
  show (Timings.parse text).mapError _ >>= _ = _
  rw [hparse]
  show (if timings.isEmpty = true then _ else _) = _
  rw [hsome, totalTime_eq]
  by_cases hfits : exactTotal timings < UInt64.size
  · rw [if_pos hfits, if_pos hfits]
    show Except.ok (summary timings (durationText (UInt64.ofNat (exactTotal timings)).toNat)) = _
    rw [UInt64.toNat_ofNat_of_lt' hfits]
  · rw [if_neg hfits, if_neg hfits]
    rfl

/-- The summary of a report with timings is printed, with the sum of their totals, exactly when the sum is less than
`2 ^ 64`. A greater sum stops the command, and nothing is printed. -/
theorem stats_total_exact_iff (hfile : around.file report = .ok text) (hparse : Timings.parse text = .ok timings)
    (hne : timings ≠ []) (verbose : Bool) :
    (run around ⟨.stats report, .text, verbose⟩ = .ok (summary timings (durationText (exactTotal timings))) ↔
        exactTotal timings < UInt64.size) ∧
      (UInt64.size ≤ exactTotal timings → run around ⟨.stats report, .text, verbose⟩ = .error .overflow) := by
  rw [run_stats hfile hparse hne]
  constructor
  · by_cases hfits : exactTotal timings < UInt64.size
    · rw [if_pos hfits]
      exact iff_of_true rfl hfits
    · rw [if_neg hfits]
      exact iff_of_false (fun h => nomatch h) hfits
  · intro hlarge
    rw [if_neg (Nat.not_lt.2 hlarge)]

end Summary

/-- The greatest total and one millisecond have no total that is shown, though one is to be shown for them. -/
theorem greatest_total_and_one_overflow :
    let report := "p: total: 18446744073709551615 ms, init: 0 ms\nq: total: 1 ms, init: 0 ms"
    let around : Surroundings := ⟨fun _ => .ok report, none, ⟨"/"⟩⟩
    let timings : List Timing := [⟨"p", 18446744073709551615, 0, []⟩, ⟨"q", 1, 0, []⟩]
    Timings.parse report = .ok timings ∧ durationText (exactTotal timings) = "307445734561825m 51s" ∧
      run around ⟨.stats ⟨"ap_stats.report"⟩, .text, false⟩ = .error .overflow ∧
      run around ⟨.stats ⟨"ap_stats.report"⟩, .text, false⟩ ≠ .ok (summary timings "307445734561825m 51s") := by
  intro report around timings
  have hparse : Timings.parse report = .ok timings := by decide +kernel
  have hsum : durationText (exactTotal timings) = "307445734561825m 51s" := by decide +kernel
  obtain ⟨hexact, hoverflow⟩ := @stats_total_exact_iff around ⟨"ap_stats.report"⟩ report timings rfl hparse
    (List.cons_ne_nil _ _) false
  rw [hsum] at hexact
  have hlarge : UInt64.size ≤ exactTotal timings := by decide +kernel
  exact ⟨hparse, hsum, hoverflow hlarge, fun hshown => absurd (hexact.1 hshown) (Nat.not_lt.2 hlarge)⟩

end JarPlan.CommandLine
