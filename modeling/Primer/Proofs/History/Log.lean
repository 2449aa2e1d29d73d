import Mathlib.Data.List.Nodup
import Primer.History

/-!
# The history is a log

A history keeps two tables, and a save inserts into both. Seen from outside it is a log of the runs that were saved,
each with its steps: `logOf` says which runs those are, without a database. The tables are at any time what
`History.ofLog` makes of the log (`History.serveAll_ofLog`): the newest run first, and its pieces of narration in
front of all others, the last one first. From that the answers follow.

* A save inserts pieces whose keys are all free, as their run was not there before. So it fails only for a run
  whose id is taken, before any piece is inserted.
* Two runs of the log differ in their ids, so a look-up by id finds one run, and the pieces with that id are its own.
* The pieces are numbered throughout, so sorting brings them back into order, and the pieces of one step, taken
  together, are what was narrated.
-/

set_option autoImplicit false

namespace Primer

/-! ## The log -/

/-- A run as it was saved, with its steps. -/
structure SavedRun where
  run : RunRecord
  steps : List Step

/-- Whether a run of that id was saved. -/
def Saved (log : List SavedRun) (id : String) : Prop := ∃ s ∈ log, s.run.id = id

instance (log : List SavedRun) (id : String) : Decidable (Saved log id) :=
  inferInstanceAs (Decidable (∃ s ∈ log, s.run.id = id))

/-- The log after a call: a run is added whose id was not there before. -/
def HistoryCall.logged (log : List SavedRun) : HistoryCall → List SavedRun
  | .save run fresh now narrated =>
    if Saved log (run.completed fresh now).id then log else log ++ [⟨run.completed fresh now, narrated⟩]
  | .get _ | .list _ | .steps _ => log

/-- The log after calls on a fresh history. -/
def logOf (calls : List HistoryCall) : List SavedRun := calls.foldl HistoryCall.logged []

/-- What comes first in the list of runs: the newer run, or of two of the same moment the one with the smaller id. -/
def RunRecord.Precedes (a b : RunRecord) : Prop :=
  b.createdAt < a.createdAt ∨ a.createdAt = b.createdAt ∧ a.id < b.id

/-! ## Rows -/

section Rows

variable {ρ κ : Type} [DecidableEq κ] {key : ρ → κ} {table : List ρ} {row : ρ}

/-- A row with a free key is added in front. -/
theorem insertRow_of_free (hfree : ∀ other ∈ table, key other ≠ key row) :
    insertRow key table row = some (row :: table) := by
  unfold insertRow
  rw [if_neg]
  simpa using hfree

/-- A row with a taken key is refused. -/
theorem insertRow_of_taken {other : ρ} (hother : other ∈ table) (hkey : key other = key row) :
    insertRow key table row = none := by
  unfold insertRow
  rw [if_pos]
  simpa using ⟨other, hother, hkey⟩

end Rows

/-- The rows of a step, numbered from `seq` on. -/
def stepRows (run : String) (step : Nat) : Nat → List Fragment → List NarrationRow
  | _, [] => []
  | seq, f :: rest => ⟨run, seq, step, f.node, f.category, f.message⟩ :: stepRows run step (seq + 1) rest

/-- The rows of steps, which are numbered from `step` on, with the pieces numbered from `seq` on. -/
def rowsOf (run : String) : Nat → Nat → List Step → List NarrationRow
  | _, _, [] => []
  | step, seq, s :: rest =>
    stepRows run step seq s.fragments ++ rowsOf run (step + 1) (seq + s.fragments.length) rest

/-- The piece of narration in a row. -/
def NarrationRow.fragment (r : NarrationRow) : Fragment := ⟨r.node, r.category, r.message⟩

section Narration

variable {run : String}

/-- The rows of a step are numbered one after the other. -/
theorem seq_stepRows (step seq : Nat) (pieces : List Fragment) :
    (stepRows run step seq pieces).map NarrationRow.seq = List.range' seq pieces.length := by
  induction pieces generalizing seq with
  | nil => rfl
  | cons f rest ih => simp [stepRows, ih, List.range'_succ]

/-- The rows of a step carry its fragments in order. -/
theorem fragment_stepRows (run : String) (step seq : Nat) (pieces : List Fragment) :
    (stepRows run step seq pieces).map NarrationRow.fragment = pieces := by
  induction pieces generalizing seq with
  | nil => rfl
  | cons f rest ih => simp [stepRows, ih, NarrationRow.fragment]

/-- A step has as many rows as fragments. -/
theorem length_stepRows (step seq : Nat) (pieces : List Fragment) :
    (stepRows run step seq pieces).length = pieces.length := by
  simpa using congrArg List.length (fragment_stepRows run step seq pieces)

/-- Which run, step and numbers the rows of a step have. -/
theorem mem_stepRows {step seq : Nat} {pieces : List Fragment} {r : NarrationRow}
    (hr : r ∈ stepRows run step seq pieces) : r.run = run ∧ r.step = step ∧ r.seq < seq + pieces.length := by
  induction pieces generalizing seq with
  | nil => cases hr
  | cons f rest ih =>
    rw [stepRows, List.mem_cons] at hr
    rcases hr with rfl | hr
    · simp
    · obtain ⟨hrun, hstep, hseq⟩ := ih hr
      rw [List.length_cons]
      exact ⟨hrun, hstep, by omega⟩

/-- The pieces of all steps are numbered throughout. -/
theorem seq_rowsOf (step seq : Nat) (steps : List Step) :
    (rowsOf run step seq steps).map NarrationRow.seq = List.range' seq (rowsOf run step seq steps).length := by
  induction steps generalizing step seq with
  | nil => rfl
  | cons s rest ih =>
    rw [rowsOf, List.map_append, List.length_append, seq_stepRows, ih, length_stepRows, List.range'_append_1]

/-- Which run and steps the rows of a narration have. -/
theorem mem_rowsOf {step seq : Nat} {steps : List Step} {r : NarrationRow} (hr : r ∈ rowsOf run step seq steps) :
    r.run = run ∧ step ≤ r.step := by
  induction steps generalizing step seq with
  | nil => cases hr
  | cons s rest ih =>
    rw [rowsOf, List.mem_append] at hr
    rcases hr with hr | hr
    · obtain ⟨hrun, hstep, -⟩ := mem_stepRows hr
      exact ⟨hrun, by omega⟩
    · obtain ⟨hrun, hstep⟩ := ih hr
      exact ⟨hrun, by omega⟩

/-- The rows with the number of a step hold what was narrated in that step, and there are none with another number. -/
theorem fragment_rowsOf (run : String) (step seq : Nat) (steps : List Step) (i : Nat) :
    ((rowsOf run step seq steps).filter fun r => r.step = step + i).map NarrationRow.fragment =
      (steps[i]?.map Step.fragments).getD [] := by
  induction steps generalizing step seq i with
  | nil => simp [rowsOf]
  | cons s rest ih =>
    rw [rowsOf, List.filter_append, List.map_append]
    -- The rows of the first step come first, and all the others have a larger number.
    cases i with
    | zero =>
      have hfirst : (stepRows run step seq s.fragments).filter (fun r => r.step = step + 0) =
          stepRows run step seq s.fragments := by
        rw [List.filter_eq_self]
        intro r hr
        simpa using (mem_stepRows hr).2.1
      have hrest : (rowsOf run (step + 1) (seq + s.fragments.length) rest).filter (fun r => r.step = step + 0) =
          [] := by
        rw [List.filter_eq_nil_iff]
        intro r hr
        have hstep := (mem_rowsOf hr).2
        simp
        omega
      rw [hfirst, hrest, fragment_stepRows]
      simp
    | succ i =>
      have hfirst : (stepRows run step seq s.fragments).filter (fun r => r.step = step + (i + 1)) = [] := by
        rw [List.filter_eq_nil_iff]
        intro r hr
        have hstep := (mem_stepRows hr).2.1
        simp
        omega
      have hnumber : step + (i + 1) = step + 1 + i := by omega
      rw [hfirst, hnumber, ih]
      simp

end Narration

/-! ## One save -/

namespace History

variable {run : String}

/-- A row with a number above all others of its run is added. -/
theorem insertPiece_of_free {h : History} (row : NarrationRow)
    (hfree : ∀ r ∈ h.rows, r.run = row.run → r.seq < row.seq) :
    h.insertPiece row = .ok { h with rows := row :: h.rows } := by
  have hkey : ∀ r ∈ h.rows, r.key ≠ row.key := by
    intro r hr hsame
    rw [NarrationRow.key, NarrationRow.key, Prod.mk.injEq] at hsame
    have hless := hfree r hr hsame.2
    omega
  unfold insertPiece
  rw [insertRow_of_free hkey]

/-- The pieces of a step are inserted if all numbers from `seq` on are free. -/
theorem insertStep_of_free (step : Nat) (pieces : List Fragment) (h : History) (seq : Nat)
    (hfree : ∀ r ∈ h.rows, r.run = run → r.seq < seq) :
    insertStep run step h seq pieces =
      .ok ({ h with rows := (stepRows run step seq pieces).reverse ++ h.rows }, seq + pieces.length) := by
  induction pieces generalizing h seq with
  | nil => simp [insertStep, stepRows]
  | cons f rest ih =>
    rw [insertStep, insertPiece_of_free ⟨run, seq, step, f.node, f.category, f.message⟩ hfree]
    have hnext : ∀ r ∈ (⟨run, seq, step, f.node, f.category, f.message⟩ : NarrationRow) :: h.rows,
        r.run = run → r.seq < seq + 1 := by
      intro r hr hrun
      rcases List.mem_cons.mp hr with rfl | hr
      · exact Nat.lt_succ_self seq
      · exact Nat.lt_succ_of_lt (hfree r hr hrun)
    show insertStep run step { h with rows := _ :: h.rows } (seq + 1) rest = _
    rw [ih _ _ hnext]
    simp only [stepRows, List.reverse_cons, List.append_assoc, List.singleton_append, List.length_cons]
    rw [Nat.add_assoc, Nat.add_comm 1]

/-- Steps are inserted if all numbers from `seq` on are free. -/
theorem insertSteps_of_free (steps : List Step) (h : History) (step seq : Nat)
    (hfree : ∀ r ∈ h.rows, r.run = run → r.seq < seq) :
    insertSteps run h step seq steps = .ok { h with rows := (rowsOf run step seq steps).reverse ++ h.rows } := by
  induction steps generalizing h step seq with
  | nil => simp [insertSteps, rowsOf]
  | cons s rest ih =>
    rw [insertSteps, insertStep_of_free step s.fragments h seq hfree]
    have hnext : ∀ r ∈ (stepRows run step seq s.fragments).reverse ++ h.rows,
        r.run = run → r.seq < seq + s.fragments.length := by
      intro r hr hrun
      rcases List.mem_append.mp hr with hr | hr
      · exact (mem_stepRows (List.mem_reverse.mp hr)).2.2
      · exact Nat.lt_add_right _ (hfree r hr hrun)
    show insertSteps run { h with rows := _ ++ h.rows } (step + 1) (seq + s.fragments.length) rest = _
    rw [ih _ _ _ hnext]
    simp [rowsOf]

end History

/-! ## The tables of a log -/

/-- The rows of a saved run. -/
def SavedRun.rows (s : SavedRun) : List NarrationRow := rowsOf s.run.id 0 0 s.steps

/-- A log in which no two runs have the same id. -/
def Distinct (log : List SavedRun) : Prop := (log.map fun s => s.run.id).Nodup

/-- Two saved runs with one id are the same. -/
theorem Distinct.eq {log : List SavedRun} (h : Distinct log) {s t : SavedRun} (hs : s ∈ log) (ht : t ∈ log)
    (hid : s.run.id = t.run.id) : s = t := List.inj_on_of_nodup_map h hs ht hid

/-- Answering a call keeps the ids of a log distinct. -/
theorem Distinct.logged {log : List SavedRun} (h : Distinct log) (c : HistoryCall) : Distinct (c.logged log) := by
  cases c with
  | save run fresh now steps =>
    rw [HistoryCall.logged]
    split
    case isTrue => exact h
    case isFalse hnew =>
      unfold Distinct
      rw [List.map_append, List.nodup_append]
      refine ⟨h, by simp, ?_⟩
      intro id hid other hother
      obtain ⟨s, hs, rfl⟩ := List.mem_map.mp hid
      obtain rfl : other = (run.completed fresh now).id := by simpa using hother
      intro hsame
      exact hnew ⟨s, hs, hsame⟩
  | get id => exact h
  | list limit => exact h
  | steps id => exact h

namespace History

/-- The tables of a log. -/
def ofLog (log : List SavedRun) : History :=
  ⟨(log.map SavedRun.run).reverse, (log.flatMap SavedRun.rows).reverse, false⟩

/-- A row belongs to a saved run. -/
theorem mem_rows_ofLog {log : List SavedRun} {r : NarrationRow} (hr : r ∈ (ofLog log).rows) : Saved log r.run := by
  obtain ⟨s, hs, hrow⟩ := List.mem_flatMap.mp (List.mem_reverse.mp hr)
  exact ⟨s, hs, (mem_rowsOf hrow).1.symm⟩

/-- A run whose id is taken is not saved. -/
theorem save_ofLog_of_saved {log : List SavedRun} {run : RunRecord} (hsaved : Saved log run.id) (steps : List Step) :
    (ofLog log).save run steps = .error .duplicate := by
  obtain ⟨s, hs, hid⟩ := hsaved
  have htaken : insertRow RunRecord.id (ofLog log).runs run = none := by
    have hrun : s.run ∈ (ofLog log).runs := List.mem_reverse.mpr (List.mem_map_of_mem hs)
    exact insertRow_of_taken hrun hid
  show (do
    let h ← (ofLog log).insertRun run
    insertSteps run.id h 0 0 steps) = _
  rw [insertRun, htaken]
  rfl

/-- A run whose id is free is saved, with all of its narration. -/
theorem save_ofLog_of_free {log : List SavedRun} {run : RunRecord} (hfree : ¬ Saved log run.id) (steps : List Step) :
    (ofLog log).save run steps = .ok (ofLog (log ++ [⟨run, steps⟩])) := by
  have hrun : insertRow RunRecord.id (ofLog log).runs run = some (run :: (ofLog log).runs) := by
    apply insertRow_of_free
    intro other hother hid
    obtain ⟨s, hs, rfl⟩ := List.mem_map.mp (List.mem_reverse.mp hother)
    exact hfree ⟨s, hs, hid⟩
  have hrows : ∀ r ∈ (ofLog log).rows, r.run = run.id → r.seq < 0 := by
    intro r hr hid
    have hsaved := mem_rows_ofLog hr
    rw [hid] at hsaved
    exact absurd hsaved hfree
  show (do
    let h ← (ofLog log).insertRun run
    insertSteps run.id h 0 0 steps) = _
  rw [insertRun, hrun]
  have hrest := insertSteps_of_free steps { ofLog log with runs := run :: (ofLog log).runs } 0 0 hrows
  refine hrest.trans ?_
  simp [ofLog, SavedRun.rows]

/-! ## All calls -/

/-- Saving under a taken id is refused and changes nothing. -/
theorem serve_save_of_saved {log : List SavedRun} {run : RunRecord} {fresh : String} {now : Int}
    (hsaved : Saved log (run.completed fresh now).id) (steps : List Step) :
    (ofLog log).serve (.save run fresh now steps) = (.failed .duplicate, ofLog log) := by
  rw [serve, save_ofLog_of_saved hsaved]

/-- Saving under a free id adds the run to the end of the log. -/
theorem serve_save_of_free {log : List SavedRun} {run : RunRecord} {fresh : String} {now : Int}
    (hfree : ¬ Saved log (run.completed fresh now).id) (steps : List Step) :
    (ofLog log).serve (.save run fresh now steps) =
      (.saved, ofLog (log ++ [⟨run.completed fresh now, steps⟩])) := by
  rw [serve, save_ofLog_of_free hfree]

/-- After a call the tables are those of the log with that call. -/
theorem serve_ofLog (log : List SavedRun) (c : HistoryCall) : ((ofLog log).serve c).2 = ofLog (c.logged log) := by
  cases c with
  | save run fresh now steps =>
    rw [HistoryCall.logged]
    by_cases hsaved : Saved log (run.completed fresh now).id
    · rw [serve_save_of_saved hsaved, if_pos hsaved]
    · rw [serve_save_of_free hsaved, if_neg hsaved]
  | get id => rfl
  | list limit => rfl
  | steps id => rfl

/-- After any calls the tables are those of the log with these calls, and ids in it are distinct. -/
theorem serveAll_ofLog (calls : List HistoryCall) {log : List SavedRun} (hlog : Distinct log) :
    ((ofLog log).serveAll calls).2 = ofLog (calls.foldl HistoryCall.logged log) ∧
      Distinct (calls.foldl HistoryCall.logged log) := by
  induction calls generalizing log with
  | nil => exact ⟨rfl, hlog⟩
  | cons c calls ih =>
    have hstep := serve_ofLog log c
    have hrest := ih (hlog.logged c)
    rw [serveAll, List.foldl_cons, hstep]
    exact hrest

/-! ## What is answered -/

variable {log : List SavedRun}

/-- A saved run is found under its id. -/
theorem get_ofLog (hlog : Distinct log) {s : SavedRun} (hs : s ∈ log) :
    (ofLog log).get s.run.id = .ok s.run := by
  have hsome : ∃ r ∈ (ofLog log).runs, r.id = s.run.id := ⟨s.run, by simpa [ofLog] using ⟨s, hs, rfl⟩, rfl⟩
  rw [get, if_neg (by simp [ofLog])]
  cases hfound : (ofLog log).runs.find? fun r => r.id = s.run.id with
  | none =>
    obtain ⟨r, hr, hid⟩ := hsome
    simpa [hid] using List.find?_eq_none.mp hfound r hr
  | some r =>
    have hid : r.id = s.run.id := by simpa using List.find?_some hfound
    obtain ⟨t, ht, rfl⟩ := List.mem_map.mp (List.mem_reverse.mp (List.mem_of_find?_eq_some hfound))
    rw [hlog.eq ht hs hid]

/-- Nothing is found under a free id. -/
theorem get_ofLog_of_free {id : String} (hfree : ¬ Saved log id) : (ofLog log).get id = .error .notFound := by
  have hnone : (ofLog log).runs.find? (fun r => r.id = id) = none := by
    rw [List.find?_eq_none]
    intro r hr hid
    obtain ⟨s, hs, rfl⟩ := List.mem_map.mp (List.mem_reverse.mp hr)
    exact hfree ⟨s, hs, by simpa using hid⟩
  rw [get, if_neg (by simp [ofLog]), hnone]

/-- Runs are listed from the newest on, and by their ids at one moment. -/
theorem listedBefore_iff {a b : RunRecord} :
    listedBefore a b = true ↔ b.createdAt < a.createdAt ∨ a.createdAt = b.createdAt ∧ a.id ≤ b.id := by
  simp [listedBefore]

/-- The order of the list is transitive. -/
theorem listedBefore_trans (a b c : RunRecord) (hab : listedBefore a b = true) (hbc : listedBefore b c = true) :
    listedBefore a c = true := by
  rw [listedBefore_iff] at hab hbc ⊢
  rcases hab with hab | ⟨hab, hid⟩
  · rcases hbc with hbc | ⟨hbc, -⟩
    · left; omega
    · left; omega
  · rcases hbc with hbc | ⟨hbc, hid'⟩
    · left; omega
    · exact .inr ⟨hab.trans hbc, String.le_trans hid hid'⟩

/-- The order of the list is total. -/
theorem listedBefore_total (a b : RunRecord) : (listedBefore a b || listedBefore b a) = true := by
  rw [Bool.or_eq_true, listedBefore_iff, listedBefore_iff]
  rcases Int.lt_trichotomy a.createdAt b.createdAt with h | h | h
  · exact .inr (.inl h)
  · rcases String.le_total a.id b.id with hid | hid
    · exact .inl (.inr ⟨h, hid⟩)
    · exact .inr (.inr ⟨h.symm, hid⟩)
  · exact .inl (.inl h)

/-- The list is a rearrangement of the saved runs. -/
theorem sorted_perm (log : List SavedRun) : (ofLog log).sorted.Perm (log.map SavedRun.run) :=
  (List.mergeSort_perm _ _).trans (List.reverse_perm _)

/-- No two runs of a log have the same place in the order of the list. -/
theorem sorted_pairwise (hlog : Distinct log) : (ofLog log).sorted.Pairwise RunRecord.Precedes := by
  have hsorted := List.pairwise_mergeSort listedBefore_trans listedBefore_total (ofLog log).runs
  have hids : ((ofLog log).sorted.map RunRecord.id).Nodup := by
    apply ((sorted_perm log).map RunRecord.id).nodup_iff.mpr
    rw [List.map_map]
    exact hlog
  refine (hsorted.and (List.pairwise_map.mp hids)).imp ?_
  rintro a b ⟨hlisted, hne⟩
  rcases listedBefore_iff.mp hlisted with htime | ⟨htime, hid⟩
  · exact .inl htime
  · refine .inr ⟨htime, ?_⟩
    by_contra hnot
    exact hne (String.le_antisymm hid (String.not_lt.mp hnot))

/-- No rows belong to a free id. -/
theorem filter_rows_of_free {id : String} (hfree : ¬ Saved log id) :
    (log.flatMap SavedRun.rows).filter (fun r => r.run = id) = [] := by
  rw [List.filter_eq_nil_iff]
  intro r hr hid
  obtain ⟨s, hs, hrow⟩ := List.mem_flatMap.mp hr
  have hrun := (mem_rowsOf hrow).1
  exact hfree ⟨s, hs, by simpa [hrun] using hid⟩

/-- All rows of a saved run belong to its id. -/
theorem filter_own_rows (s : SavedRun) : s.rows.filter (fun r => r.run = s.run.id) = s.rows := by
  rw [List.filter_eq_self]
  intro r hr
  simpa using (mem_rowsOf hr).1

/-- The rows with the id of a saved run are its own. -/
theorem filter_rows (hlog : Distinct log) {s : SavedRun} (hs : s ∈ log) :
    (log.flatMap SavedRun.rows).filter (fun r => r.run = s.run.id) = s.rows := by
  induction log with
  | nil => cases hs
  | cons t rest ih =>
    obtain ⟨hnew, hrest⟩ := List.nodup_cons.mp hlog
    have hfree : ¬ Saved rest t.run.id := by
      rintro ⟨u, hu, hid⟩
      exact hnew (List.mem_map.mpr ⟨u, hu, hid⟩)
    rw [List.flatMap_cons, List.filter_append]
    rcases List.mem_cons.mp hs with rfl | hs
    · rw [filter_own_rows, filter_rows_of_free hfree, List.append_nil]
    · have hother : t.rows.filter (fun r => r.run = s.run.id) = [] := by
        rw [List.filter_eq_nil_iff]
        intro r hr hid
        have hrun := (mem_rowsOf hr).1
        exact hfree ⟨s, hs, by simpa [hrun, eq_comm] using hid⟩
      rw [hother, ih hrest hs, List.nil_append]

/-- The order of rows by their numbers. -/
theorem pairwise_mergeSort_seq (rows : List NarrationRow) :
    (rows.mergeSort fun a b => a.seq ≤ b.seq).Pairwise fun a b => a.seq ≤ b.seq := by
  have htrans : ∀ a b c : NarrationRow, decide (a.seq ≤ b.seq) = true → decide (b.seq ≤ c.seq) = true →
      decide (a.seq ≤ c.seq) = true := by
    intro a b c
    simp only [decide_eq_true_iff]
    exact Nat.le_trans
  have htotal : ∀ a b : NarrationRow, (decide (a.seq ≤ b.seq) || decide (b.seq ≤ a.seq)) = true := by
    intro a b
    simp only [Bool.or_eq_true, decide_eq_true_iff]
    exact Nat.le_total a.seq b.seq
  simpa using List.pairwise_mergeSort htrans htotal rows

/-- Rows in reverse are brought back into order by their numbers. -/
theorem mergeSort_rows {rows : List NarrationRow} (hseq : rows.map NarrationRow.seq = List.range' 0 rows.length) :
    (rows.reverse.mergeSort fun a b => a.seq ≤ b.seq) = rows := by
  have hless : rows.Pairwise fun a b => a.seq < b.seq := by
    have hrange : (rows.map NarrationRow.seq).Pairwise (· < ·) := by
      rw [hseq]
      exact List.pairwise_lt_range' 1
    exact List.pairwise_map.mp hrange
  have hdistinct : (rows.map NarrationRow.seq).Nodup := by
    rw [hseq]
    exact List.nodup_range' 1
  have hperm : (rows.reverse.mergeSort fun a b => a.seq ≤ b.seq).Perm rows :=
    (List.mergeSort_perm _ _).trans (List.reverse_perm _)
  refine List.Perm.eq_of_pairwise ?_ (pairwise_mergeSort_seq rows.reverse) (hless.imp Nat.le_of_lt) hperm
  intro a b ha hb hab hba
  exact List.inj_on_of_nodup_map hdistinct (hperm.mem_iff.mp ha) hb (Nat.le_antisymm hab hba)

/-- The rows of a saved run are found under its id. -/
theorem steps_ofLog (hlog : Distinct log) {s : SavedRun} (hs : s ∈ log) :
    (ofLog log).steps s.run.id = .ok s.rows := by
  rw [History.steps, if_neg (by simp [ofLog])]
  have hrows : (ofLog log).rows.filter (fun r => r.run = s.run.id) = s.rows.reverse := by
    rw [ofLog, List.filter_reverse, filter_rows hlog hs]
  have hsorted : (s.rows.reverse.mergeSort fun a b => a.seq ≤ b.seq) = s.rows :=
    mergeSort_rows (seq_rowsOf 0 0 s.steps)
  rw [hrows, hsorted]

/-- Under a free id there are no rows. -/
theorem steps_ofLog_of_free {id : String} (hfree : ¬ Saved log id) : (ofLog log).steps id = .ok [] := by
  rw [History.steps, if_neg (by simp [ofLog])]
  have hrows : (ofLog log).rows.filter (fun r => r.run = id) = [] := by
    rw [ofLog, List.filter_reverse, filter_rows_of_free hfree, List.reverse_nil]
  rw [hrows, List.mergeSort_nil]

/-- The list is the sorted runs, up to a limit if there is one. -/
theorem list_ofLog (log : List SavedRun) (limit : Int) :
    (ofLog log).list limit =
      .ok (if limit ≤ 0 then (ofLog log).sorted else (ofLog log).sorted.take limit.toNat) := by
  rw [list, if_neg (by simp [ofLog])]
  by_cases h : 0 < limit
  · rw [if_pos h, if_neg (by omega)]
  · rw [if_neg h, if_pos (by omega)]

/-- What a fresh history shows after any calls is the log of the runs that they saved.

* A run whose id was saved before is refused, and all later calls are answered as if it had not been sent. Any other
  run is saved, and the log is longer by it.
* The run of an id is the one of the log, with all that was saved, and no run is found for any other id.
* The list of runs holds those of the log, each once, newest first and by their ids if they are of the same moment,
  and up to a limit the first of these.
* The pieces of narration of a saved run are numbered from zero on, and those of its steps are what was narrated in
  them, in order. There are none for any other id. -/
theorem history_is_append_only_log (calls : List HistoryCall) :
    let h := (empty.serveAll calls).2
    let log := logOf calls
    (∀ run fresh now narrated, Saved log (run.completed fresh now).id →
      (h.serve (.save run fresh now narrated)).1 = .failed .duplicate ∧
      ∀ later, ((h.serve (.save run fresh now narrated)).2.serveAll later).1 = (h.serveAll later).1) ∧
    (∀ run fresh now narrated, ¬ Saved log (run.completed fresh now).id →
      (h.serve (.save run fresh now narrated)).1 = .saved ∧
      logOf (calls ++ [.save run fresh now narrated]) = log ++ [⟨run.completed fresh now, narrated⟩]) ∧
    (∀ s ∈ log, (h.serve (.get s.run.id)).1 = .run s.run) ∧
    (∀ id, ¬ Saved log id → (h.serve (.get id)).1 = .failed .notFound) ∧
    (∃ runs, runs.Perm (log.map SavedRun.run) ∧ runs.Pairwise RunRecord.Precedes ∧
      ∀ limit, (h.serve (.list limit)).1 = .runs (if limit ≤ 0 then runs else runs.take limit.toNat)) ∧
    (∀ s ∈ log, ∃ rows, (h.serve (.steps s.run.id)).1 = .rows rows ∧
      rows.map NarrationRow.seq = List.range rows.length ∧ (∀ r ∈ rows, r.run = s.run.id) ∧
      ∀ i, (rows.filter fun r => r.step = i).map NarrationRow.fragment = (s.steps[i]?.map Step.fragments).getD []) ∧
    ∀ id, ¬ Saved log id → (h.serve (.steps id)).1 = .rows [] := by
  have hempty : Distinct [] := List.nodup_nil
  obtain ⟨hstate, hlog⟩ := serveAll_ofLog calls hempty
  have hafter : (empty.serveAll calls).2 = ofLog (logOf calls) := hstate
  have hdistinct : Distinct (logOf calls) := hlog
  intro h log
  have hh : h = ofLog log := hafter
  rw [hh]
  refine ⟨?_, ?_, ?_, ?_, ?_, ?_, ?_⟩
  · intro run fresh now narrated hsaved
    rw [serve_save_of_saved hsaved]
    exact ⟨rfl, fun later => rfl⟩
  · intro run fresh now narrated hfree
    rw [serve_save_of_free hfree]
    refine ⟨rfl, ?_⟩
    rw [logOf, List.foldl_concat]
    exact if_neg hfree
  · intro s hs
    rw [serve, get_ofLog hdistinct hs, HistoryAnswer.of]
  · intro id hfree
    rw [serve, get_ofLog_of_free hfree, HistoryAnswer.of]
  · refine ⟨(ofLog log).sorted, sorted_perm log, sorted_pairwise hdistinct, ?_⟩
    intro limit
    rw [serve, list_ofLog, HistoryAnswer.of]
  · intro s hs
    refine ⟨s.rows, ?_, ?_, ?_, ?_⟩
    · rw [serve, steps_ofLog hdistinct hs, HistoryAnswer.of]
    · rw [List.range_eq_range']
      exact seq_rowsOf 0 0 s.steps
    · intro r hr
      exact (mem_rowsOf hr).1
    · intro i
      have hgroup := fragment_rowsOf s.run.id 0 0 s.steps i
      rwa [Nat.zero_add] at hgroup
  · intro id hfree
    rw [serve, steps_ofLog_of_free hfree, HistoryAnswer.of]

/-- Two runs, and a third one under the id of the first. -/
def repeatedSaves : List HistoryCall :=
  let run (id : String) : RunRecord := ⟨id, "step", "", "", "", "", 0, 0, 0, 0⟩
  let step (messages : List String) : Step := ⟨messages.map fun m => ⟨0, .inline, m⟩, [], []⟩
  [.save (run "b") "" 0 [step ["one", "two"], step [], step ["three"]], .save (run "a") "" 0 [],
    .save (run "") "b" 0 [step ["four"]]]

/-- The third run is refused and leaves nothing behind: the narration of the first one is what it was. -/
theorem repeated_save_refused :
    (empty.serveAll repeatedSaves).1 = [.saved, .saved, .failed .duplicate] ∧
      ∃ rows, ((empty.serveAll repeatedSaves).2.serve (.steps "b")).1 = .rows rows ∧
        rows.map NarrationRow.seq = List.range rows.length ∧
        (rows.filter fun r => r.step = 0).map NarrationRow.fragment =
          [⟨0, .inline, "one"⟩, ⟨0, .inline, "two"⟩] ∧
        (rows.filter fun r => r.step = 2).map NarrationRow.fragment = [⟨0, .inline, "three"⟩] := by
  obtain ⟨-, -, -, -, -, hsteps, -⟩ := history_is_append_only_log repeatedSaves
  obtain ⟨rows, hrows, hseq, -, hgroups⟩ := hsteps _ (List.mem_cons_self ..)
  exact ⟨by decide, rows, hrows, hseq, hgroups 0, hgroups 2⟩

end History

end Primer
