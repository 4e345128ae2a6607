import Mathlib.Data.List.Forall2
import RustCourse.Lesson07.Threads

/-!
# `fork_join`

The distributer deals every item to every line, in the order of the lines; the workers
run ahead of each other; the gatherer takes one result of every line, in the order of the
lines, and joins them.  Seen from outside this is a loop that handles one item at a time:
fork, then join (`joined`).

The argument is about the rows of the gatherer.  The results taken from line `k` are
column `k` of the rows gathered so far, and they are a prefix of what line `k` makes of
the items dealt to it.  Since all lines are dealt the same items, row `i` consists of the
results of item `i` (`exists_split`); this is where at least one line is needed.

That nothing is lost at the end is a question of who stops first.  A distributer stops
because its input ended, because the gatherer is gone, or because a line died; in the
third case every line was dealt the item on which the line died, so that the gatherer
cannot get past it (`Dealt`).
-/

namespace RustCourse.Lesson07

open Dataflow Transition

variable {O L U : Type}

namespace Outcome

theorem all_map_ret {α : Type} (results : List α) : all (results.map ret) = ret results := by
  induction results with
  | nil => rfl
  | cons result rest ih => simp [all, ih]

private theorem all_eq_panic {α : Type} {calls : List (Outcome α)} (h : .panic ∈ calls) :
    all calls = .panic := by
  induction calls with
  | nil => cases h
  | cons call rest ih =>
      cases call with
      | panic => rfl
      | ret result => simp [all, ih (by simpa using h)]

end Outcome

/-! ## Rows and columns -/

/-- Fork and join for one item. -/
def joined (workerFunction : O → ℕ → Outcome L) (nLines : ℕ) (join : List L → Outcome U) (x : O) :
    Outcome (Option U) :=
  ((Outcome.all ((List.range nLines).map (workerFunction x))).bind join).map some

/-- What line `k` makes of a list of items. -/
def lineResults (workerFunction : O → ℕ → Outcome L) (k : ℕ) (xs : List O) : List L :=
  emitted (fun x => (workerFunction x k).map some) xs

/-- The results of item `x`, one for every line. -/
def IsRow (workerFunction : O → ℕ → Outcome L) (nLines : ℕ) (x : O) (row : List L) : Prop :=
  row.length = nLines ∧ ∀ k y, row[k]? = some y → workerFunction x k = .ret y

/-- The results of line `k` in rows of which the last may be incomplete. -/
def column (rows : List (List L)) (k : ℕ) : List L :=
  rows.filterMap (·[k]?)

section Rows

variable {f : O → ℕ → Outcome L} {nLines k : ℕ} {join : List L → Outcome U} {x : O}
  {xs before rest : List O} {row acc : List L} {rows : List (List L)} {y : L} {ys : List L}

theorem column_append (first second : List (List L)) (k : ℕ) :
    column (first ++ second) k = column first k ++ column second k :=
  List.filterMap_append ..

theorem column_single (row : List L) (k : ℕ) : column [row] k = row[k]?.toList := by
  cases h : row[k]? <;> simp [column, h]

theorem IsRow.all_eq (h : IsRow f nLines x row) :
    Outcome.all ((List.range nLines).map (f x)) = .ret row := by
  have hcalls : (List.range nLines).map (f x) = row.map .ret := by
    refine List.ext_getElem (by simp [h.1]) fun k hk hk' => ?_
    have hlt : k < row.length := by simpa using hk'
    simpa using h.2 k row[k] (List.getElem?_eq_getElem hlt)
  rw [hcalls, Outcome.all_map_ret]

theorem IsRow.joined_eq (h : IsRow f nLines x row) :
    joined f nLines join x = (join row).map some := by
  rw [joined, h.all_eq, Outcome.bind]

theorem joined_eq_panic (hk : k < nLines) (h : f x k = .panic) :
    joined f nLines join x = .panic := by
  have hmem : Outcome.panic ∈ (List.range nLines).map (f x) :=
    List.mem_map.mpr ⟨k, List.mem_range.mpr hk, h⟩
  rw [joined, Outcome.all_eq_panic hmem]
  rfl

/-- A line that died was dealt an item on which `fork_join` as a whole dies. -/
theorem panics_of_line (hk : k < nLines) (h : Panics (fun x => (f x k).map some) xs) :
    Panics (joined f nLines join) xs := by
  obtain ⟨x, hmem, hpanic⟩ := h
  exact ⟨x, hmem, joined_eq_panic hk (Outcome.map_eq_panic.mp hpanic)⟩

theorem of_cons_prefix_lineResults (h : y :: ys <+: lineResults f k xs) :
    ∃ x rest, xs = x :: rest ∧ f x k = .ret y ∧ ys <+: lineResults f k rest := by
  cases xs with
  | nil => simp [lineResults] at h
  | cons x rest =>
      cases hx : f x k with
      | panic => simp [lineResults, emitted, hx] at h
      | ret result =>
          simp only [lineResults, emitted, hx, Outcome.map_ret, List.cons_prefix_cons] at h
          obtain ⟨rfl, hrest⟩ := h
          exact ⟨x, rest, rfl, hx, hrest⟩

/-- **Rows belong to items.**  If every column is a prefix of what its line makes of the
items `xs`, the rows are those of the first items of `xs`, and what was gathered since
comes from the rest. -/
theorem exists_split (hlines : 1 ≤ nLines) (hrows : ∀ row ∈ rows, row.length = nLines)
    (hcolumns : ∀ k < nLines, column (rows ++ [acc]) k <+: lineResults f k xs) :
    ∃ before rest, xs = before ++ rest ∧ List.Forall₂ (IsRow f nLines) before rows ∧
      ∀ k < nLines, column [acc] k <+: lineResults f k rest := by
  -- by induction on the rows that are complete
  induction rows generalizing xs with
  | nil => exact ⟨[], xs, rfl, .nil, hcolumns⟩
  | cons row rows ih =>
      have hlength : row.length = nLines := hrows row List.mem_cons_self
      have hhead : ∀ k < nLines, ∃ y, row[k]? = some y ∧
          y :: column (rows ++ [acc]) k <+: lineResults f k xs := by
        intro k hk
        have hrow : row[k]? = some row[k] := List.getElem?_eq_getElem _
        exact ⟨row[k], hrow, by simpa [column, hrow] using hcolumns k hk⟩
      -- line 0 fixes the item of the first row, and then it is the item of all lines
      obtain ⟨_, -, hfirst⟩ := hhead 0 hlines
      obtain ⟨x, tail, rfl, -, -⟩ := of_cons_prefix_lineResults hfirst
      have htail : ∀ k < nLines, ∃ y, row[k]? = some y ∧ f x k = .ret y ∧
          column (rows ++ [acc]) k <+: lineResults f k tail := by
        intro k hk
        obtain ⟨y, hy, hhead⟩ := hhead k hk
        obtain ⟨x', tail', heq, hx, hinitial⟩ := of_cons_prefix_lineResults hhead
        cases heq
        exact ⟨y, hy, hx, hinitial⟩
      have hcolumns' : ∀ k < nLines, column (rows ++ [acc]) k <+: lineResults f k tail := by
        intro k hk
        obtain ⟨y, -, -, hinitial⟩ := htail k hk
        exact hinitial
      obtain ⟨before, rest, rfl, hforall, hacc⟩ :=
        ih (fun row hmem => hrows row (List.mem_cons_of_mem _ hmem)) hcolumns'
      refine ⟨x :: before, rest, rfl, .cons ⟨hlength, fun k y hy => ?_⟩ hforall, hacc⟩
      have hk : k < nLines := hlength ▸ (List.getElem?_eq_some_iff.mp hy).1
      obtain ⟨y', hy', hx, -⟩ := htail k hk
      rwa [Option.some.inj (hy.symm.trans hy')]

/-- A line that has put out its column exactly makes nothing of what else it was dealt. -/
theorem exists_dealt_rest {dealt : List O} (h : List.Forall₂ (IsRow f nLines) before rows)
    (hk : k < nLines) (hdealt : dealt <+: before ++ rest)
    (hcolumn : lineResults f k dealt = column rows k) :
    ∃ more, dealt = before ++ more ∧ more <+: rest ∧ lineResults f k more = [] := by
  induction h generalizing dealt with
  | nil => exact ⟨dealt, rfl, hdealt, hcolumn⟩
  | @cons x row before rows hrow _ ih =>
      have hlt : k < row.length := hrow.1 ▸ hk
      have hentry : row[k]? = some row[k] := List.getElem?_eq_getElem hlt
      have hhead : column (row :: rows) k = row[k] :: column rows k := by
        simp [column, hentry]
      rw [hhead] at hcolumn
      obtain ⟨x', tail, rfl, -, -⟩ := of_cons_prefix_lineResults ⟨[], by simpa using hcolumn.symm⟩
      obtain ⟨rfl, htail⟩ := List.cons_prefix_cons.mp hdealt
      have hcons : lineResults f k (x' :: tail) = row[k] :: lineResults f k tail := by
        simp [lineResults, emitted, hrow.2 k _ hentry]
      rw [hcons, List.cons.injEq] at hcolumn
      obtain ⟨more, rfl, hmore, hnothing⟩ := ih htail hcolumn.2
      exact ⟨more, rfl, hmore, hnothing⟩

/-- A line makes nothing of a list only if it is empty or starts with a panic. -/
theorem of_lineResults_eq_nil (h : lineResults f k xs = []) :
    xs = [] ∨ ∃ x rest, xs = x :: rest ∧ f x k = .panic := by
  cases xs with
  | nil => exact .inl rfl
  | cons x rest =>
      cases hx : f x k with
      | panic => exact .inr ⟨x, rest, rfl, hx⟩
      | ret y => simp [lineResults, emitted, hx] at h

/-- What `fork_join` makes of items whose rows are complete and were joined. -/
theorem emitted_of_rows {us : List U} (h : List.Forall₂ (IsRow f nLines) before rows)
    (hus : rows.map join = us.map .ret) (rest : List O) :
    emitted (joined f nLines join) (before ++ rest) =
        us ++ emitted (joined f nLines join) rest ∧
      ¬ Panics (joined f nLines join) before := by
  induction h generalizing us with
  | nil =>
      obtain rfl : us = [] := by simpa using hus.symm
      exact ⟨rfl, not_panics_nil⟩
  | @cons x row before rows hrow _ ih =>
      cases us with
      | nil => simp at hus
      | cons u us =>
          simp only [List.map_cons, List.cons.injEq] at hus
          have hx : joined f nLines join x = .ret (some u) := by
            rw [hrow.joined_eq, hus.1]
            rfl
          obtain ⟨hemitted, hpanics⟩ := ih hus.2
          refine ⟨by simp [emitted, hx, hemitted], ?_⟩
          rintro ⟨z, hmem, hpanic⟩
          rcases List.mem_cons.mp hmem with rfl | hmem
          · simp [hx] at hpanic
          · exact hpanics ⟨z, hmem, hpanic⟩

end Rows

/-! ## The parties -/

namespace ForkJoin

variable {nLines : ℕ} {Line : Component (O × ℕ) L} {f : O → ℕ → Outcome L}
  {join : List L → Outcome U}

/-- Every line is at the end of a run with the given signals. -/
def LinesRun (lines : Fin nLines → Line.State) (jobs : Fin nLines → List (Signal (O × ℕ)))
    (results : Fin nLines → List (Signal L)) : Prop :=
  ∀ k, ∃ trace, Line.Runs trace (lines k) ∧ inputs trace = jobs k ∧ outputs trace = results k

/-- The items dealt to the lines. -/
structure Dealt (ins : List (Signal O)) (jobs : Fin nLines → List (Signal (O × ℕ)))
    (dealt : Fin nLines → List O) : Prop where
  jobs : ∀ k, items (jobs k) = (dealt k).map fun x => (x, k.val)
  received : ∀ k, dealt k <+: items ins

/-- What the distributer has dealt, and why it stopped; `gone` says that the gatherer
stopped before it. -/
def Distributed (h : O → Outcome (Option U)) (ins : List (Signal O))
    (jobs : Fin nLines → List (Signal (O × ℕ))) (gone : Prop) : Distributer O → Prop
  | .waiting => ¬ Ended ins ∧ ¬ HungUp ins ∧ (∀ k, ¬ Ended (jobs k)) ∧
      Dealt ins jobs fun _ => items ins
  | .sending o line => line < nLines ∧ ¬ Ended ins ∧ ¬ HungUp ins ∧ (∀ k, ¬ Ended (jobs k)) ∧
      ∃ before, items ins = before ++ [o] ∧
        Dealt ins jobs fun k => if k < line then before ++ [o] else before
  | .exiting _ _ => ∃ dealt, Dealt ins jobs dealt ∧
      ((Ended ins ∧ ∀ k, dealt k = items ins) ∨ gone ∨ ∃ xs, Panics h xs ∧ ∀ k, xs <+: dealt k)

/-- The rows the gatherer has completed and joined, and why it stopped. -/
def Gathered (h : O → Outcome (Option U)) (join : List L → Outcome U) (ins : List (Signal O))
    (outs : List (Signal U)) (results : Fin nLines → List (Signal L)) : Gatherer L U → Prop
  | .gathering acc => ¬ Ended outs ∧ ¬ HungUp outs ∧ (∀ k, ¬ HungUp (results k)) ∧
      acc.length ≤ nLines ∧ ∃ rows, (∀ row ∈ rows, row.length = nLines) ∧
        rows.map join = (items outs).map .ret ∧ ∀ k, items (results k) = column (rows ++ [acc]) k
  | .sending u => ¬ Ended outs ∧ ¬ HungUp outs ∧ (∀ k, ¬ HungUp (results k)) ∧
      ∃ rows, (∀ row ∈ rows, row.length = nLines) ∧
        rows.map join = (items outs ++ [u]).map .ret ∧
        ∀ k, items (results k) = column (rows ++ [[]]) k
  | .exiting _ _ => items outs <+: emitted h (items ins) ∧
      (HungUp outs ∨ items outs = emitted h (items ins) ∧ (Ended ins ∨ Panics h (items ins)))

/-- The gatherer stopped although the input may go on. -/
def Gone (h : O → Outcome (Option U)) (ins : List (Signal O)) (outs : List (Signal U))
    (gatherer : Gatherer L U) : Prop :=
  (∃ sender line, gatherer = .exiting sender line) ∧ (HungUp outs ∨ Panics h (items ins))

/-- What holds between the two ports, the lines, the distributer and the gatherer. -/
structure Invariant (f : O → ℕ → Outcome L) (join : List L → Outcome U) (ins : List (Signal O))
    (outs : List (Signal U)) (s : State O U Line nLines)
    (jobs : Fin nLines → List (Signal (O × ℕ))) (results : Fin nLines → List (Signal L)) :
    Prop where
  lines : LinesRun s.lines jobs results
  distributed : Distributed (joined f nLines join) ins jobs
    (Gone (joined f nLines join) ins outs s.gatherer) s.distributer
  gathered : Gathered (joined f nLines join) join ins outs results s.gatherer

theorem LinesRun.update {lines : Fin nLines → Line.State}
    {jobs : Fin nLines → List (Signal (O × ℕ))} {results : Fin nLines → List (Signal L)}
    (h : LinesRun lines jobs results) {k : Fin nLines} {l : Exchange (O × ℕ) L} {line : Line.State}
    (hstep : Line.step (lines k) l line) :
    LinesRun (Function.update lines k line) (Function.update jobs k (jobs k ++ l.1.toList))
      (Function.update results k (results k ++ l.2.toList)) := by
  intro k'
  by_cases hk : k' = k
  · subst hk
    obtain ⟨trace, hrun, hin, hout⟩ := h k'
    refine ⟨trace ++ [(lines k', l)], ?_, ?_, ?_⟩
    · rw [Function.update_self]
      exact hrun.snoc hstep
    · simp [hin]
    · simp [hout]
  · simpa [hk] using h k'

theorem Distributed.imp {h : O → Outcome (Option U)} {ins : List (Signal O)}
    {jobs : Fin nLines → List (Signal (O × ℕ))} {gone gone' : Prop} {d : Distributer O}
    (hd : Distributed h ins jobs gone d) (himp : gone → gone') :
    Distributed h ins jobs gone' d := by
  cases d with
  | waiting | sending => exact hd
  | exiting =>
      obtain ⟨dealt, hdealt, hcause⟩ := hd
      exact ⟨dealt, hdealt, hcause.imp_right (Or.imp_left himp)⟩

/-- In every state there is a list of items dealt to every line; only a distributer that
stopped ends the input of a line. -/
theorem Distributed.exists_dealt {h : O → Outcome (Option U)} {ins : List (Signal O)}
    {jobs : Fin nLines → List (Signal (O × ℕ))} {gone : Prop} {d : Distributer O}
    (hd : Distributed h ins jobs gone d) :
    ∃ dealt, Dealt ins jobs dealt ∧ ∀ k, Ended (jobs k) →
      (Ended ins ∧ ∀ k, dealt k = items ins) ∨ gone ∨ ∃ xs, Panics h xs ∧ ∀ k, xs <+: dealt k := by
  cases d with
  | waiting =>
      obtain ⟨-, -, hjobs, hdealt⟩ := hd
      exact ⟨_, hdealt, fun k hended => absurd hended (hjobs k)⟩
  | sending =>
      obtain ⟨-, -, -, hjobs, before, -, hdealt⟩ := hd
      exact ⟨_, hdealt, fun k hended => absurd hended (hjobs k)⟩
  | exiting =>
      obtain ⟨dealt, hdealt, hcause⟩ := hd
      exact ⟨dealt, hdealt, fun _ _ => hcause⟩

section Line

variable {lines : Fin nLines → Line.State} {jobs : Fin nLines → List (Signal (O × ℕ))}
  {results : Fin nLines → List (Signal L)} {ins : List (Signal O)} {dealt : Fin nLines → List O}

theorem panics_jobs {k : ℕ} {xs : List O} :
    Panics (fun job : O × ℕ => (f job.1 job.2).map some) (xs.map fun x => (x, k)) ↔
      Panics (fun x => (f x k).map some) xs := by
  simp [Panics]

theorem emitted_jobs {k : ℕ} {xs : List O} :
    emitted (fun job : O × ℕ => (f job.1 job.2).map some) (xs.map fun x => (x, k)) =
      lineResults f k xs :=
  emitted_map _ _

variable (hline : Implements Line (each fun job => (f job.1 job.2).map some))
  (hruns : LinesRun lines jobs results) (hdealt : Dealt ins jobs dealt)

include hline hruns hdealt

private theorem items_of_line (k : Fin nLines) :
    items (results k) <+: lineResults f k (dealt k) := by
  obtain ⟨trace, hrun, hin, hout⟩ := hruns k
  rw [← hout, ← emitted_jobs, ← hdealt.jobs k, ← hin]
  exact hline.items hrun

theorem ended_of_line {k : Fin nLines} (h : Ended (results k)) :
    items (results k) = lineResults f k (dealt k) ∧
      (Ended (jobs k) ∨ Panics (fun x => (f x k).map some) (dealt k)) := by
  obtain ⟨trace, hrun, hin, hout⟩ := hruns k
  rw [← hout] at h ⊢
  rw [← emitted_jobs, ← panics_jobs, ← hdealt.jobs k, ← hin]
  exact hline.ended hrun h

private theorem hungUp_of_line {k : Fin nLines} (h : HungUp (jobs k)) :
    HungUp (results k) ∨ Panics (fun x => (f x k).map some) (dealt k) := by
  obtain ⟨trace, hrun, hin, hout⟩ := hruns k
  rw [← hin] at h
  rw [← hout, ← panics_jobs, ← hdealt.jobs k, ← hin]
  exact hline.hungUp hrun h

/-- The rows of the gatherer are those of the first items received. -/
theorem exists_split_of_lines (hlines : 1 ≤ nLines) {rows : List (List L)} {acc : List L}
    (hrows : ∀ row ∈ rows, row.length = nLines)
    (hcolumns : ∀ k, items (results k) = column (rows ++ [acc]) k) :
    ∃ before rest, items ins = before ++ rest ∧ List.Forall₂ (IsRow f nLines) before rows ∧
      ∀ k < nLines, column [acc] k <+: lineResults f k rest := by
  refine exists_split hlines hrows fun k hk => ?_
  rw [← hcolumns ⟨k, hk⟩]
  exact (items_of_line hline hruns hdealt ⟨k, hk⟩).trans (emitted_mono (hdealt.received ⟨k, hk⟩))

end Line

/-! ## One step -/

section Steps

variable {h : O → Outcome (Option U)} {ins ins' : List (Signal O)} {outs : List (Signal U)}
  {jobs : Fin nLines → List (Signal (O × ℕ))} {results : Fin nLines → List (Signal L)}
  {gone : Prop} {g : Gatherer L U} {o : O} {k : Fin nLines}

/-- Nothing the gatherer has done is undone by more input. -/
theorem Gathered.of_ins (hg : Gathered h join ins outs results g)
    (hitems : items ins <+: items ins') (hended : Ended ins → Ended ins' ∧ items ins' = items ins) :
    Gathered h join ins' outs results g := by
  cases g with
  | gathering | sending => exact hg
  | exiting =>
      obtain ⟨hdelivered, hcause⟩ := hg
      refine ⟨hdelivered.trans (emitted_mono hitems), hcause.imp_right fun ⟨heq, hcause⟩ => ?_⟩
      rcases hcause with hends | hpanics
      · exact ⟨by rw [heq, (hended hends).2], .inl (hended hends).1⟩
      · obtain ⟨rest, hrest⟩ := hitems
        exact ⟨by rw [heq, ← hrest, emitted_stable hpanics],
          .inr (hrest ▸ hpanics.mono (List.prefix_append _ _))⟩

theorem Distributed.receive (hlines : 1 ≤ nLines) (hd : Distributed h ins jobs gone .waiting) :
    Distributed h (ins ++ [.item o]) jobs gone (.sendFrom nLines o 0) := by
  obtain ⟨hended, hhungUp, hjobs, hdealt⟩ := hd
  rw [Distributer.sendFrom, if_pos (show 0 < nLines from hlines)]
  refine ⟨hlines, by simpa using hended, by simpa using hhungUp, hjobs, items ins, by simp, ?_⟩
  exact ⟨by simpa using hdealt.jobs, fun k => by simp⟩

/-- One more line was dealt the item. -/
theorem Distributed.distribute (hd : Distributed h ins jobs gone (.sending o k)) :
    Distributed h ins (Function.update jobs k (jobs k ++ [.item (o, k.val)])) gone
      (.sendFrom nLines o (k + 1)) := by
  obtain ⟨-, hended, hhungUp, hjobs, before, hitems, hdealt⟩ := hd
  -- the line that is dealt the item has not been told the end
  have hjobs' : ∀ k', ¬ Ended (Function.update jobs k (jobs k ++ [.item (o, k.val)]) k') := by
    intro k'
    by_cases hk : k' = k
    · subst hk
      simpa using hjobs k'
    · simpa [hk] using hjobs k'
  have hdealt' : Dealt ins (Function.update jobs k (jobs k ++ [.item (o, k.val)]))
      fun k' => if k'.val < k + 1 then before ++ [o] else before := by
    constructor
    · intro k'
      by_cases hk : k' = k
      · subst hk
        simp [hdealt.jobs k']
      · have hne : k'.val ≠ k.val := fun heq => hk (Fin.ext heq)
        have hlt : k'.val < k.val + 1 ↔ k'.val < k.val := by omega
        simpa [hk, hlt] using hdealt.jobs k'
    · intro k'
      split
      · rw [hitems]
      · rw [hitems]
        exact List.prefix_append _ _
  -- was it the last line?
  rw [Distributer.sendFrom]
  split
  · next hlast => exact ⟨hlast, hended, hhungUp, hjobs', before, hitems, hdealt'⟩
  · next hlast =>
      refine ⟨hended, hhungUp, hjobs', ?_⟩
      have hall : ∀ k' : Fin nLines, k'.val < k + 1 := fun k' => by omega
      simpa only [hall, if_true, ← hitems] using hdealt'

theorem Dealt.of_items {jobs' : Fin nLines → List (Signal (O × ℕ))} {dealt : Fin nLines → List O}
    (hdealt : Dealt ins jobs dealt) (hitems : ∀ k, items (jobs' k) = items (jobs k)) :
    Dealt ins jobs' dealt :=
  ⟨fun k => (hitems k).trans (hdealt.jobs k), hdealt.received⟩

/-- Closing signals deal nothing. -/
theorem items_update {α : Type} {signals : Fin nLines → List (Signal α)} (k : Fin nLines)
    (more : List (Signal α)) (hmore : items (signals k ++ more) = items (signals k))
    (k' : Fin nLines) :
    items (Function.update signals k (signals k ++ more) k') = items (signals k') := by
  by_cases hk : k' = k
  · subst hk
    simpa using hmore
  · simp [hk]

theorem Gathered.gather {acc : List L} {y : L} (hk : acc.length = k.val)
    (hg : Gathered h join ins outs results (.gathering acc)) :
    Gathered h join ins outs (Function.update results k (results k ++ [.item y]))
      (.gathering (acc ++ [y])) := by
  obtain ⟨hended, hhungUp, hresults, -, rows, hrows, hjoined, hcolumns⟩ := hg
  refine ⟨hended, hhungUp, ?_, by simp; omega, rows, hrows, hjoined, ?_⟩
  · intro k'
    by_cases hk' : k' = k
    · subst hk'
      simpa using hresults k'
    · simpa [hk'] using hresults k'
  · intro k'
    have hrest := hcolumns k'
    rw [column_append, column_single] at hrest ⊢
    by_cases hk' : k' = k
    · subst hk'
      have hnew : acc[k'.val]? = none := by simp [hk]
      have hlast : (acc ++ [y])[k'.val]? = some y := by simp [← hk]
      rw [hnew, Option.toList_none, List.append_nil] at hrest
      simp [hlast, hrest]
    · have hne : k'.val ≠ acc.length := fun heq => hk' (Fin.ext (heq.trans hk))
      have hsame : (acc ++ [y])[k'.val]? = acc[k'.val]? := by
        rw [List.getElem?_append]
        split
        · rfl
        · next hge =>
            rw [List.getElem?_eq_none (by simp; omega), List.getElem?_eq_none (by omega)]
      simpa [hk', hsame] using hrest

/-- Nothing is made of items of which the first panics. -/
theorem emitted_of_panic {h : O → Outcome (Option U)} {x : O} {rest : List O} (hx : h x = .panic) :
    emitted h (x :: rest) = [] := by
  simp [emitted, hx]

section Line

variable (hline : Implements Line (each fun job => (f job.1 job.2).map some)) (hlines : 1 ≤ nLines)

include hline hlines

/-- **A gatherer that finds a line ended** has joined all there is to join. -/
theorem starved {lines : Fin nLines → Line.State} {d : Distributer O} {acc : List L}
    (hruns : LinesRun lines jobs results)
    (hd : Distributed (joined f nLines join) ins jobs False d)
    (hg : Gathered (joined f nLines join) join ins outs results (.gathering acc))
    {results' : Fin nLines → List (Signal L)} {lines' : Fin nLines → Line.State}
    (hruns' : LinesRun lines' jobs results') (hk : acc.length = k.val) (hends : Ended (results' k))
    (hitems : items (results' k) = items (results k)) :
    items outs = emitted (joined f nLines join) (items ins) ∧
      (Ended ins ∨ Panics (joined f nLines join) (items ins)) := by
  obtain ⟨-, -, -, -, rows, hrows, hjoined, hcolumns⟩ := hg
  obtain ⟨dealt, hdealt, hstopped⟩ := hd.exists_dealt
  obtain ⟨before, rest, hins, hforall, -⟩ :=
    exists_split_of_lines hline hruns hdealt hlines hrows hcolumns
  obtain ⟨hemitted, hreturns⟩ := emitted_of_rows hforall hjoined rest
  obtain ⟨hresults, hcause⟩ := ended_of_line hline hruns' hdealt hends
  -- what the line has put out is the column of the complete rows
  have hcolumn : lineResults f k (dealt k) = column rows k := by
    have hnone : acc[k.val]? = none := by simp [hk]
    rw [← hresults, hitems, hcolumns k, column_append, column_single, hnone, Option.toList_none,
      List.append_nil]
  obtain ⟨more, hmore, hrest, hnothing⟩ :=
    exists_dealt_rest hforall k.isLt (hins ▸ hdealt.received k) hcolumn
  rw [hins, hemitted]
  rcases of_lineResults_eq_nil hnothing with rfl | ⟨x, tail, rfl, hpanic⟩
  · -- the line has finished everything it was dealt
    rw [List.append_nil] at hmore
    have hfine : ¬ Panics (fun x => (f x k).map some) (dealt k) := by
      rw [hmore]
      exact fun hpanics => hreturns (panics_of_line k.isLt hpanics)
    rcases hstopped k (hcause.resolve_right hfine) with ⟨hended, hall⟩ | hgone | ⟨xs, hpanics, hxs⟩
    · obtain rfl : rest = [] := by simpa [hins, hmore] using (hall k).symm
      exact ⟨by simp, .inl hended⟩
    · exact hgone.elim
    · exact absurd (hpanics.mono (hmore ▸ hxs k)) hreturns
  · -- the line died on the next item
    obtain ⟨rest', rfl⟩ := hrest
    have hx : joined f nLines join x = .panic := joined_eq_panic k.isLt hpanic
    refine ⟨?_, .inr ⟨x, by simp, hx⟩⟩
    rw [List.cons_append, emitted_of_panic hx, List.append_nil]

/-- A gatherer whose join panics has joined all there is to join. -/
theorem joined_of_panic {lines : Fin nLines → Line.State} {d : Distributer O} {acc : List L}
    (hruns : LinesRun lines jobs results)
    (hd : Distributed (joined f nLines join) ins jobs gone d)
    (hg : Gathered (joined f nLines join) join ins outs results (.gathering acc))
    (hacc : acc.length = nLines) (hpanic : join acc = .panic) :
    items outs = emitted (joined f nLines join) (items ins) ∧
      Panics (joined f nLines join) (items ins) := by
  obtain ⟨-, -, -, -, rows, hrows, hjoined, hcolumns⟩ := hg
  obtain ⟨dealt, hdealt, -⟩ := hd.exists_dealt
  obtain ⟨before, rest, hins, hforall, hacc'⟩ :=
    exists_split_of_lines hline hruns hdealt hlines hrows hcolumns
  -- the row that is complete but not joined belongs to the next item
  have hcolumn : ∀ k < nLines, column ([acc] ++ [[]]) k <+: lineResults f k rest := by
    intro k hk
    rw [column_append]
    simpa [column_single] using hacc' k hk
  obtain ⟨before', rest', rfl, hlast, -⟩ := exists_split hlines (by simpa using hacc) hcolumn
  cases hlast with
  | @cons x _ before' _ hrow hnil =>
      cases hnil
      have hx : joined f nLines join x = .panic := by
        rw [hrow.joined_eq, hpanic]
        rfl
      rw [hins, (emitted_of_rows hforall hjoined _).1]
      exact ⟨by simp [emitted_of_panic hx], x, by simp, hx⟩

/-- What was put out so far. -/
theorem delivered {lines : Fin nLines → Line.State} {d : Distributer O} {rows : List (List L)}
    {acc : List L} {us : List U} (hruns : LinesRun lines jobs results)
    (hd : Distributed (joined f nLines join) ins jobs gone d)
    (hrows : ∀ row ∈ rows, row.length = nLines) (hjoined : rows.map join = us.map .ret)
    (hcolumns : ∀ k, items (results k) = column (rows ++ [acc]) k) :
    us <+: emitted (joined f nLines join) (items ins) := by
  obtain ⟨dealt, hdealt, -⟩ := hd.exists_dealt
  obtain ⟨before, rest, hins, hforall, -⟩ :=
    exists_split_of_lines hline hruns hdealt hlines hrows hcolumns
  rw [hins, (emitted_of_rows hforall hjoined rest).1]
  exact List.prefix_append _ _

end Line

/-- The gatherer hung up on line `k` only because it stopped, and it stopped before the
input ended. -/
theorem gone_of_hungUp (hg : Gathered h join ins outs results g) (hended : ¬ Ended ins)
    (hhungUp : HungUp (results k)) : Gone h ins outs g := by
  cases g with
  | gathering => exact absurd hhungUp (hg.2.2.1 k)
  | sending => exact absurd hhungUp (hg.2.2.1 k)
  | exiting sender line =>
      exact ⟨⟨sender, line, rfl⟩, hg.2.imp_right fun hcause => hcause.2.resolve_left hended⟩

theorem not_gone_gathering {acc : List L} : ¬ Gone h ins outs (.gathering acc : Gatherer L U) := by
  simp [Gone]

private theorem not_gone_sending {u : U} : ¬ Gone h ins outs (.sending u : Gatherer L U) := by
  simp [Gone]

end Steps

/-! ## Every step -/

theorem Invariant.step {ins : List (Signal O)} {outs : List (Signal U)}
    {s s' : State O U Line nLines}
    {l : Exchange O U} {jobs : Fin nLines → List (Signal (O × ℕ))}
    {results : Fin nLines → List (Signal L)}
    (hline : Implements Line (each fun job => (f job.1 job.2).map some)) (hlines : 1 ≤ nLines)
    (h : Invariant f join ins outs s jobs results) (hstep : Step Line join s l s') :
    ∃ jobs' results',
      Invariant f join (ins ++ l.1.toList) (outs ++ l.2.toList) s' jobs' results' := by
  obtain ⟨hruns, hd, hg⟩ := h
  cases hstep with
  -- the distributer: the gatherer is not concerned
  | @receive o lines g =>
      have hopen : ¬ Ended ins := hd.1
      have hmore : items ins <+: items (ins ++ [.item o]) := by simp
      refine ⟨jobs, results, hruns, ?_,
        by simpa using hg.of_ins hmore fun hended => absurd hended hopen⟩
      exact (hd.receive hlines).imp fun ⟨hexit, hcause⟩ =>
        ⟨hexit, by simpa using hcause.imp_right (Panics.mono hmore)⟩
  -- the input has ended with everything dealt
  | recvFails =>
      obtain ⟨hopen, hhungUp, hjobs, hdealt⟩ := hd
      have hsame : items ins <+: items (ins ++ [.eof]) := by simp
      refine ⟨jobs, results, hruns, ?_,
        by simpa using hg.of_ins hsame fun hended => absurd hended hopen⟩
      exact ⟨fun _ => items ins, ⟨hdealt.jobs, by simp⟩, .inl ⟨by simpa using hhungUp, by simp⟩⟩
  | @distribute o lines g k line hline' =>
      refine ⟨_, _, hruns.update hline', ?_, ?_⟩
      · simpa using hd.distribute
      · simpa using hg
  -- a line hung up: because the gatherer is gone, or because a function panicked
  | @distributeFails o lines g k line hline' =>
      have hruns' := hruns.update hline'
      obtain ⟨-, hended, hhungUp, hjobs, before, hitems, hdealt⟩ := hd
      have hdealt' := hdealt.of_items (items_update k [.hangup] (by simp))
      have hcause := hungUp_of_line hline hruns' hdealt' (k := k) (by simpa using hjobs k)
      refine ⟨_, _, hruns', ⟨_, by simpa using hdealt', .inr ?_⟩, by simpa using hg⟩
      rcases hcause with hresults | hpanics
      · refine .inl ?_
        simpa using gone_of_hungUp hg hended (by simpa using hresults)
      · refine .inr ⟨before, by simpa using panics_of_line k.isLt hpanics, fun k' => ?_⟩
        split
        · exact List.prefix_append _ _
        · exact List.prefix_refl _
  | @dropReceiver line lines g =>
      obtain ⟨dealt, hdealt, hcause⟩ := hd
      have hsame : items ins <+: items (ins ++ [.hangup]) := by simp
      refine ⟨jobs, results, hruns, ⟨dealt, ⟨hdealt.jobs, by simpa using hdealt.received⟩, ?_⟩,
        by simpa using hg.of_ins hsame fun hended => ⟨by simpa using hended, by simp⟩⟩
      simpa [Gone] using hcause
  | @dropLineSender receiver lines g k line hline' =>
      obtain ⟨dealt, hdealt, hcause⟩ := hd
      have hdealt' := hdealt.of_items (items_update k [.eof] (by simp))
      exact ⟨_, _, hruns.update hline', ⟨dealt, by simpa using hdealt', by simpa using hcause⟩,
        by simpa using hg⟩
  | work hline' =>
      exact ⟨_, _, hruns.update hline', by simpa using hd, by simpa using hg⟩
  -- the gatherer: the distributer is not concerned, unless the gatherer is gone
  | @gather d lines acc y k line hk hline' =>
      refine ⟨_, _, hruns.update hline', ?_, by simpa using hg.gather hk⟩
      simpa using hd.imp fun hgone => absurd hgone not_gone_gathering
  -- a line has ended, so what it was dealt is used up
  | @gatherFails d lines acc k line hk hline' =>
      have hruns' := hruns.update hline'
      have hhungUp : ¬ HungUp (results k) := hg.2.2.1 k
      have hd' := hd.imp not_gone_gathering
      simp only [Option.toList_none, List.append_nil, Function.update_eq_self] at hruns'
      obtain ⟨hall, hcause⟩ := starved hline hlines hruns hd' hg hruns' hk
        (by simpa using hhungUp) (by simp)
      exact ⟨jobs, _, hruns', by simpa using hd'.imp False.elim,
        by simp [hall], by simpa using .inr ⟨hall, hcause⟩⟩
  | @join d lines acc u hacc hjoin =>
      obtain ⟨hended, hhungUp, hresults, -, rows, hrows, hjoined, hcolumns⟩ := hg
      refine ⟨jobs, results, hruns,
        by simpa using hd.imp fun hgone => absurd hgone not_gone_gathering,
        by simpa using hended, by simpa using hhungUp, hresults, rows ++ [acc], ?_, ?_, ?_⟩
      · simpa [or_imp, forall_and, hacc] using hrows
      · simp [hjoined, hjoin]
      · intro k
        rw [hcolumns k, column_append _ [[]]]
        simp [column_single]
  | @joinPanics d lines acc hacc hjoin =>
      obtain ⟨hall, hpanics⟩ := joined_of_panic hline hlines hruns hd hg hacc hjoin
      refine ⟨jobs, results, hruns, ?_, by simp [hall], by simpa using .inr ⟨hall, .inr hpanics⟩⟩
      simpa using hd.imp fun hgone => absurd hgone not_gone_gathering
  | @send d lines u =>
      obtain ⟨hended, hhungUp, hresults, rows, hrows, hjoined, hcolumns⟩ := hg
      refine ⟨jobs, results, hruns,
        by simpa using hd.imp fun hgone => absurd hgone not_gone_sending,
        by simpa using hended, by simpa using hhungUp, hresults, by simp, rows, hrows, ?_, hcolumns⟩
      simpa using hjoined
  | @sendFails d lines u =>
      obtain ⟨hended, hhungUp, hresults, rows, hrows, hjoined, hcolumns⟩ := hg
      have hdelivered := delivered hline hlines hruns hd hrows hjoined hcolumns
      refine ⟨jobs, results, hruns,
        by simpa using hd.imp fun hgone => absurd hgone not_gone_sending,
        ?_, .inl (by simpa using hended)⟩
      simpa using (List.prefix_append _ _).trans hdelivered
  | @dropSender d k lines =>
      obtain ⟨hdelivered, hcause⟩ := hg
      refine ⟨jobs, results, hruns, ?_, by simpa using hdelivered, by simpa using hcause⟩
      simpa using hd.imp fun ⟨_, hgone⟩ => (⟨⟨_, _, rfl⟩, by simpa using hgone⟩ : Gone _ _ _ _)
  | @dropLineReceiver d lines sender k line hline' =>
      obtain ⟨hdelivered, hcause⟩ := hg
      refine ⟨_, _, hruns.update hline', ?_, by simpa using hdelivered, by simpa using hcause⟩
      simpa using hd.imp fun ⟨_, hgone⟩ => (⟨⟨_, _, rfl⟩, hgone⟩ : Gone _ _ _ _)

theorem exists_invariant (hline : Implements Line (each fun job => (f job.1 job.2).map some))
    (hlines : 1 ≤ nLines) {trace : List (State O U Line nLines × Exchange O U)}
    {s : State O U Line nLines} (hrun : (ForkJoin.lines Line nLines join).Runs trace s) :
    ∃ jobs results, Invariant f join (inputs trace) (outputs trace) s jobs results := by
  refine hrun.invariantTrace (I := fun trace s =>
    ∃ jobs results, Invariant f join (inputs trace) (outputs trace) s jobs results) ?_ ?_
  · refine ⟨fun _ => [], fun _ => [], fun _ => ⟨[], .nil, rfl, rfl⟩, ?_, ?_⟩
    · exact ⟨by simp, by simp, by simp, fun _ => rfl, fun _ => List.prefix_refl _⟩
    · exact ⟨by simp, by simp, by simp, by simp, [], by simp, rfl, fun k => by simp [column]⟩
  · rintro trace s l s' - ⟨jobs, results, h⟩ hstep
    obtain ⟨jobs', results', h'⟩ := h.step hline hlines hstep
    exact ⟨jobs', results', by simpa using h'⟩

/-- **`fork_join`** is the loop that forks and joins one item after the other. -/
theorem lines_implements (hline : Implements Line (each fun job => (f job.1 job.2).map some))
    (hlines : 1 ≤ nLines) :
    Implements (ForkJoin.lines Line nLines join) (each (joined f nLines join)) where
  items := by
    intro trace s hrun
    obtain ⟨jobs, results, hruns, hd, hg⟩ := exists_invariant hline hlines hrun
    revert hg
    cases s.gatherer with
    | gathering acc =>
        rintro ⟨-, -, -, -, rows, hrows, hjoined, hcolumns⟩
        exact delivered hline hlines hruns hd hrows hjoined hcolumns
    | sending u =>
        rintro ⟨-, -, -, rows, hrows, hjoined, hcolumns⟩
        exact (List.prefix_append _ _).trans
          (delivered hline hlines hruns hd hrows hjoined hcolumns)
    | exiting => exact fun hg => hg.1
  -- the gatherer ends its output only when it leaves
  ended := by
    intro trace s hrun hended
    obtain ⟨jobs, results, hruns, hd, hg⟩ := exists_invariant hline hlines hrun
    revert hg
    cases s.gatherer with
    | gathering | sending => exact fun hg => absurd hended hg.1
    | exiting => exact fun hg => hg.2.resolve_left hended.not_hungUp
  hungUp := by
    intro trace s hrun hhungUp
    obtain ⟨jobs, results, hruns, hd, hg⟩ := exists_invariant hline hlines hrun
    revert hd
    cases s.distributer with
    | waiting => exact fun hd => absurd hhungUp hd.2.1
    | sending => exact fun hd => absurd hhungUp hd.2.2.1
    | exiting =>
        -- it leaves at the end of its input, or after the gatherer, or after a panic
        rintro ⟨dealt, hdealt, ⟨hended, -⟩ | ⟨-, hgone⟩ | ⟨xs, hpanics, hxs⟩⟩
        · exact absurd hhungUp hended.not_hungUp
        · exact hgone
        · exact .inr (hpanics.mono ((hxs ⟨0, hlines⟩).trans (hdealt.received _)))

theorem worker_implements (queueSize : ℕ) (f : O → ℕ → Outcome L) :
    Implements (worker queueSize f) (each fun job => (f job.1 job.2).map some) :=
  ((syncChannel_implements queueSize).seq ((thread_implements _).channel queueSize)).congr
    (fun _ => rfl) fun _ => by simp [Behaviour.comp, Behaviour.forward, Behaviour.total]

end ForkJoin

end RustCourse.Lesson07
