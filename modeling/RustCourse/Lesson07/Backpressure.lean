import RustCourse.Lesson07.Pipeline
import RustCourse.Lib.Backpressure

/-!
# Backpressure

Sending into a pipeline applies backpressure: between the sender and a receiver that is slow
there is room for so many items and no more.  A thread holds the item it handles and a
channel what it stores.  `fork_join` is bounded by its first line: the distributer may have
one item that it has not dealt to that line yet, the line holds what a worker between two
channels holds, and the gatherer one result of it that is not joined (`lines_holds`).

The rooms of the stages add up to the `capacity` of the pipeline (`pipeline_is_bounded`).
-/

namespace RustCourse.Lesson07

open Dataflow Transition

variable {A I O L U : Type}

/-! ## One thread -/

theorem each_atMostOne (f : I → Outcome (Option U)) : (each f).AtMostOne := by
  intro xs x
  change (emitted f (xs ++ [x])).length ≤ (emitted f xs).length + 1
  by_cases hpanics : Panics f xs
  · rw [emitted_stable hpanics]
    exact Nat.le_succ _
  · have hlast : (emitted f [x]).length ≤ 1 := by
      cases hx : f x with
      | panic => simp [emitted, hx]
      | ret result => cases result <;> simp [emitted, hx]
    rw [emitted_append hpanics, List.length_append]
    omega

/-- A thread holds the item it is about to send. -/
theorem thread_holds (f : I → Outcome (Option U)) : Holds (thread f) (each f) 1 := by
  intro trace s hrun hreading
  have h := thread_invariant hrun
  change (emitted f (items (inputs trace))).length ≤ _
  cases s with
  | waiting =>
      rw [h.1]
      exact Nat.le_succ _
  | sending u => rw [h.1, List.length_append, List.length_singleton]
  | exiting =>
      obtain ⟨hflow, -⟩ := h.resolve_left fun hgone => hreading hgone.1
      rw [hflow]
      exact Nat.le_succ _

/-- A thread between two channels holds one item more than they store. -/
theorem between_holds (f : I → Outcome (Option U)) (queueSize : ℕ) :
    Holds ((syncChannel I queueSize).seq ((thread f).seq (syncChannel U queueSize))) (each f)
      (2 * queueSize + 1) := by
  have himpl := thread_implements f
  have hbetween := (syncChannel_holds queueSize).seq ((thread_holds f).channel himpl queueSize)
    (syncChannel_implements queueSize) (himpl.channel queueSize) (each_atMostOne f)
  rw [show 2 * queueSize + 1 = queueSize + (1 + queueSize) by omega]
  exact hbetween.congr fun _ => rfl

/-! ## `fork_join` -/

/-- An item that is joined has a result of the first line. -/
theorem length_emitted_joined {f : O → ℕ → Outcome L} {nLines : ℕ} {join : List L → Outcome U}
    (hlines : 1 ≤ nLines) (xs : List O) :
    (emitted (joined f nLines join) xs).length ≤ (lineResults f 0 xs).length := by
  induction xs with
  | nil => exact Nat.le_refl _
  | cons x rest ih =>
      rw [lineResults] at ih
      cases hx : f x 0 with
      | panic => simp [emitted, joined_eq_panic hlines hx]
      | ret y =>
          cases hjoined : joined f nLines join x with
          | panic => simp [emitted, hjoined]
          | ret result => cases result <;> simp [lineResults, emitted, hjoined, hx] <;> omega

private theorem length_column_le (rows : List (List L)) (k : ℕ) :
    (column rows k).length ≤ rows.length :=
  List.length_filterMap_le ..

namespace ForkJoin

variable {nLines n : ℕ} {Line : Component (O × ℕ) L} {f : O → ℕ → Outcome L}
  {join : List L → Outcome U} {h : O → Outcome (Option U)} {ins : List (Signal O)}
  {outs : List (Signal U)} {jobs : Fin nLines → List (Signal (O × ℕ))}
  {results : Fin nLines → List (Signal L)}

/-- The distributer is at most one item ahead of what it dealt to a line. -/
theorem Distributed.exists_behind {gone : Prop} {d : Distributer O}
    (hd : Distributed h ins jobs gone d) (hgone : ¬ gone) (k : Fin nLines) :
    ∃ dealt, Dealt ins jobs dealt ∧
      (emitted h (items ins)).length ≤ (emitted h (dealt k)).length + 1 := by
  cases d with
  | waiting =>
      obtain ⟨-, -, -, hdealt⟩ := hd
      exact ⟨_, hdealt, Nat.le_succ _⟩
  | sending o line =>
      obtain ⟨-, -, -, -, before, hitems, hdealt⟩ := hd
      refine ⟨_, hdealt, (each_atMostOne h).length_out_le (hdealt.received k) ?_⟩
      rw [hitems]
      split <;> simp
  | exiting receiver line =>
      obtain ⟨dealt, hdealt, ⟨-, hall⟩ | hgone' | ⟨xs, hpanics, hxs⟩⟩ := hd
      · refine ⟨dealt, hdealt, ?_⟩
        rw [hall k]
        exact Nat.le_succ _
      · exact absurd hgone' hgone
      · refine ⟨dealt, hdealt, ?_⟩
        have hstable := (each h).out_stable (hdealt.received k) (hpanics.mono (hxs k))
        rw [show emitted h (items ins) = emitted h (dealt k) from hstable]
        exact Nat.le_succ _

/-- A gatherer that did not stop has at most one result of a line that is not put out. -/
theorem Gathered.length_results_le {g : Gatherer L U} (hg : Gathered h join ins outs results g)
    (hrunning : ∀ sender line, g ≠ .exiting sender line) (k : Fin nLines) :
    ¬ HungUp (results k) ∧ (items (results k)).length ≤ (items outs).length + 1 := by
  cases g with
  | gathering acc =>
      obtain ⟨-, -, hhungUp, -, rows, -, hjoined, hcolumns⟩ := hg
      have hrows : rows.length = (items outs).length := by
        simpa using congrArg List.length hjoined
      refine ⟨hhungUp k, ?_⟩
      calc (items (results k)).length
          = (column (rows ++ [acc]) k).length := by rw [hcolumns k]
        _ ≤ (rows ++ [acc]).length := length_column_le _ _
        _ = (items outs).length + 1 := by simp [hrows]
  | sending u =>
      obtain ⟨-, -, hhungUp, rows, -, hjoined, hcolumns⟩ := hg
      have hrows : rows.length = (items outs).length + 1 := by
        simpa using congrArg List.length hjoined
      refine ⟨hhungUp k, ?_⟩
      calc (items (results k)).length
          = (column (rows ++ [[]]) k).length := by rw [hcolumns k]
        _ = (column rows k).length := by simp [column]
        _ ≤ (items outs).length + 1 := hrows ▸ length_column_le _ _
  | exiting sender line => exact absurd rfl (hrunning sender line)

section Line

variable (hline : Implements Line (each fun job => (f job.1 job.2).map some))
  (hholds : Holds Line (each fun job => (f job.1 job.2).map some) n) (hlines : 1 ≤ nLines)

include hholds hlines

theorem Invariant.length_emitted_le {s : State O U Line nLines}
    (hinv : Invariant f join ins outs s jobs results) (hreading : ¬ HungUp outs) :
    (emitted (joined f nLines join) (items ins)).length ≤ (items outs).length + (n + 2) := by
  obtain ⟨hruns, hd, hg⟩ := hinv
  by_cases hstopped : ∃ sender line, s.gatherer = .exiting sender line
  · obtain ⟨sender, line, hexit⟩ := hstopped
    rw [hexit] at hg
    obtain ⟨hall, -⟩ := hg.2.resolve_left hreading
    rw [hall]
    exact Nat.le_add_right _ _
  · let first : Fin nLines := ⟨0, hlines⟩
    obtain ⟨dealt, hdealt, hbehind⟩ := hd.exists_behind (fun hgone => hstopped hgone.1) first
    obtain ⟨hopen, hresults⟩ :=
      hg.length_results_le (fun sender line hexit => hstopped ⟨sender, line, hexit⟩) first
    obtain ⟨run, hfirst, hin, hout⟩ := hruns first
    have hheld := hholds run _ hfirst (hout ▸ hopen)
    rw [hin, hout, hdealt.jobs first] at hheld
    calc (emitted (joined f nLines join) (items ins)).length
        ≤ (emitted (joined f nLines join) (dealt first)).length + 1 := hbehind
      _ ≤ (lineResults f 0 (dealt first)).length + 1 :=
          Nat.succ_le_succ (length_emitted_joined hlines _)
      _ ≤ (items (results first)).length + n + 1 := by
          rw [← emitted_jobs]
          exact Nat.succ_le_succ hheld
      _ ≤ (items outs).length + (n + 2) := by omega

include hline

/-- **The lines** hold what their first line holds, one item of the distributer and one
result of the gatherer. -/
theorem lines_holds :
    Holds (ForkJoin.lines Line nLines join) (each (joined f nLines join)) (n + 2) := by
  intro trace s hrun hreading
  obtain ⟨jobs, results, hinv⟩ := exists_invariant hline hlines hrun
  exact hinv.length_emitted_le hholds hlines hreading

end Line

end ForkJoin

/-! ## Pipelines -/

namespace FactorioBuilder

private theorem new_holds (T : Type) (queueSize : ℕ) :
    Holds (new T queueSize).pipeline .forward (2 * queueSize + 1) := by
  refine (between_holds (fun t : T => .ret (some t)) queueSize).congr fun xs => ?_
  change xs = emitted _ xs
  rw [emitted_of_returns (g := some) fun _ => rfl, List.filterMap_some]

variable {builder : FactorioBuilder I O} {B : Behaviour I O} {n : ℕ}

theorem filterMap_holds (h : Holds builder.pipeline B n) (himpl : Implements builder.pipeline B)
    (f : O → Outcome (Option U)) :
    Holds (builder.filterMap f).pipeline (B.comp (each f)) (n + (1 + builder.queueSize)) :=
  h.seq ((thread_holds f).channel (thread_implements f) _) himpl ((thread_implements f).channel _)
    (each_atMostOne f)

private theorem forkJoin_holds (h : Holds builder.pipeline B n)
    (himpl : Implements builder.pipeline B) (workerFunction : O → ℕ → Outcome L)
    {nLines : ℕ} (hlines : 1 ≤ nLines) (join : List L → Outcome U) :
    Holds (builder.forkJoin workerFunction nLines join).pipeline
      (B.comp (each (joined workerFunction nLines join)))
      (n + (2 * builder.queueSize + 1 + 2 + builder.queueSize)) := by
  have hworker := ForkJoin.worker_implements builder.queueSize workerFunction
  have hlines' : Implements (ForkJoin.lines _ nLines join) _ :=
    ForkJoin.lines_implements hworker hlines
  exact h.seq ((ForkJoin.lines_holds hworker (between_holds _ _) hlines).channel hlines' _)
    himpl (hlines'.channel _) (each_atMostOne _)

end FactorioBuilder

namespace Stages

/-- How many results the stages can be behind.  A builder starts with a thread between two
channels, and every stage adds its threads and the channel behind them. -/
def capacity (queueSize : ℕ) : {O : Type} → Stages I O → ℕ
  | _, none => 2 * queueSize + 1
  | _, map stages _ => capacity queueSize stages + (1 + queueSize)
  | _, filter stages _ => capacity queueSize stages + (1 + queueSize)
  | _, filterMap stages _ => capacity queueSize stages + (1 + queueSize)
  | _, forkJoin stages _ _ _ _ =>
      capacity queueSize stages + (2 * queueSize + 1 + 2 + queueSize)

/-- No stage discards items. -/
def KeepsAll : {O : Type} → Stages I O → Prop
  | _, none => True
  | _, map stages _ => KeepsAll stages
  | _, filter _ _ => False
  | _, filterMap _ _ => False
  | _, forkJoin stages _ _ _ _ => KeepsAll stages

private theorem length_semantics {stages : Stages I O} (h : stages.KeepsAll) (xs : List I) :
    (stages.semantics xs).length = xs.length := by
  induction stages with
  | none => rfl
  | map stages f ih => rw [semantics, List.length_map, ih h]
  | filter | filterMap => exact absurd h id
  | forkJoin stages f nLines join hlines ih => rw [semantics, List.length_map, ih h]

@[simp] theorem queueSize_configure (builder : FactorioBuilder A I) (stages : Stages I O) :
    (stages.configure builder).queueSize = builder.queueSize := by
  induction stages with
  | none => rfl
  | map _ _ ih | filter _ _ ih | filterMap _ _ ih => exact ih
  | forkJoin _ _ _ _ _ ih => exact ih

theorem configure_holds (stages : Stages I O) (queueSize : ℕ) :
    Holds (stages.configure (.new I queueSize)).pipeline stages.behaviour
      (stages.capacity queueSize) := by
  -- stage by stage; only `fork_join` holds more than the item of a thread
  induction stages with
  | none => exact FactorioBuilder.new_holds I queueSize
  | map stages f ih =>
      have h := FactorioBuilder.filterMap_holds ih (stages.configure_new_implements queueSize)
        fun o => .ret (some (f o))
      rw [queueSize_configure] at h
      exact h.congr fun xs =>
        (stages.semantics_map f xs).trans (emitted_of_returns (fun _ => rfl) _).symm
  | filter stages f ih =>
      have h := FactorioBuilder.filterMap_holds ih (stages.configure_new_implements queueSize)
        fun o => .ret (if f o then some o else Option.none)
      rw [queueSize_configure] at h
      exact h.congr fun xs =>
        (stages.semantics_filter f xs).trans (emitted_of_returns (fun _ => rfl) _).symm
  | filterMap stages f ih =>
      have h := FactorioBuilder.filterMap_holds ih (stages.configure_new_implements queueSize)
        fun o => .ret (f o)
      rw [queueSize_configure] at h
      exact h.congr fun xs => (emitted_of_returns (fun _ => rfl) _).symm
  | forkJoin stages f nLines join hlines ih =>
      have h := FactorioBuilder.forkJoin_holds ih (stages.configure_new_implements queueSize)
        (fun o line => .ret (f o line)) hlines fun outputs => .ret (join outputs)
      rw [queueSize_configure] at h
      exact h.congr fun xs => (stages.semantics_forkJoin f join hlines xs).trans
        (emitted_of_returns (joined_of_returns f nLines join) _).symm

end Stages

/-! ## The bound -/

/-- **Backpressure.**  As long as the receiver is not dropped, a pipeline is at most its
capacity behind: of the results of what was sent, all but so many were received.  If no
stage discards items, this bounds the items that a sender can get rid of before it
blocks. -/
theorem pipeline_is_bounded (stages : Stages I O) (queueSize : ℕ)
    {trace : List ((stages.configure (.new I queueSize)).pipeline.State × Exchange I O)}
    {s : (stages.configure (.new I queueSize)).pipeline.State}
    (hrun : (stages.configure (.new I queueSize)).pipeline.Runs trace s)
    (hreading : ¬ HungUp (outputs trace)) :
    (stages.semantics (items (inputs trace))).length ≤
        (items (outputs trace)).length + stages.capacity queueSize ∧
      (stages.KeepsAll → (items (inputs trace)).length ≤
        (items (outputs trace)).length + stages.capacity queueSize) := by
  have hbehind := stages.configure_holds queueSize trace s hrun hreading
  refine ⟨hbehind, fun hkeeps => ?_⟩
  rw [← Stages.length_semantics hkeeps (items (inputs trace))]
  exact hbehind

/-- With channels that store nothing, `new(0).map(|x| x + 1)` takes two items, one for each of
its threads. -/
theorem pipeline_is_bounded_full :
    ∃ trace s, ((Stages.none.map (· + 1)).configure (.new ℕ 0)).pipeline.Runs trace s ∧
      items (inputs trace) = [1, 2] ∧ items (outputs trace) = [] ∧
      (items (inputs trace)).length ≤
        (items (outputs trace)).length + (Stages.none.map (· + 1) : Stages ℕ ℕ).capacity 0 := by
  have start : (((syncChannel ℕ 0).seq ((thread fun t => .ret (some t)).seq (syncChannel ℕ 0))).seq
      ((thread fun o => (Outcome.ret (o + 1)).map some).seq (syncChannel ℕ 0))).Runs []
      (((⟨[], true, true⟩ : SyncChannel ℕ), (Thread.waiting : Thread ℕ),
          (⟨[], true, true⟩ : SyncChannel ℕ)),
        (Thread.waiting : Thread ℕ), (⟨[], true, true⟩ : SyncChannel ℕ)) := .nil
  have hrun := ((start.snoc
    (.left (.both (.handOver (x := 1) rfl) (.left (.produce rfl))))).snoc
    (.both (.right (.both .send (.handOver rfl))) (.left (.produce rfl)))).snoc
    (.left (.both (.handOver (x := 2) rfl) (.left (.produce rfl))))
  refine ⟨_, _, hrun, rfl, rfl, (pipeline_is_bounded _ 0 hrun ?_).2 trivial⟩
  exact not_hungUp_nil

end RustCourse.Lesson07
