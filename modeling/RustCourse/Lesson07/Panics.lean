import Mathlib.Data.List.TakeWhile
import RustCourse.Lesson07.Pipeline

/-!
# A stage that panics

The functions of one stage of a pipeline may panic, those of the others return.  The thread
that runs the function ends, channels close towards both sides, and the rest of the
pipeline winds down at its own pace.  What the consumer gets nevertheless is what the items
before the first panic are worth, no less and no more (`items_before_panic`).

The stage is again a loop over one item at a time (`FaultyStage.step`), which dies on the
first item that makes it panic, and the behaviours of components already say what a death in
the middle of a pipeline means: from then on more input changes nothing
(`Behaviour.out_stable`).
-/

namespace RustCourse.Lesson07

open Dataflow Transition

variable {I A B O L U : Type}

namespace Outcome

variable {α : Type}

/-- The call panics. -/
def isPanic : Outcome α → Bool
  | ret _ => false
  | panic => true

/-- The result, if the call returned. -/
def result? : Outcome α → Option α
  | ret result => some result
  | panic => none

theorem isPanic_iff {o : Outcome α} : o.isPanic = true ↔ o = .panic := by
  cases o <;> simp [isPanic]

end Outcome

/-! ## The stage -/

/-- One stage, configured with functions that may panic. -/
inductive FaultyStage (O : Type) : Type → Type 1
  | map {U : Type} (f : O → Outcome U) : FaultyStage O U
  | filter (f : O → Outcome Bool) : FaultyStage O O
  | filterMap {U : Type} (f : O → Outcome (Option U)) : FaultyStage O U
  | forkJoin {L U : Type} (workerFunction : O → ℕ → Outcome L) (nLines : ℕ)
      (join : List L → Outcome U) (hlines : 1 ≤ nLines) : FaultyStage O U

/-- What the lines of a `fork_join` make of an item. -/
def row (workerFunction : O → ℕ → Outcome L) (nLines : ℕ) (x : O) : List L :=
  (List.range nLines).filterMap fun line => (workerFunction x line).result?

namespace FaultyStage

/-- The stage is put behind the pipeline of a builder. -/
def configure (builder : FactorioBuilder I O) : FaultyStage O U → FactorioBuilder I U
  | map f => builder.map f
  | filter f => builder.filter f
  | filterMap f => builder.filterMap f
  | forkJoin workerFunction nLines join _ => builder.forkJoin workerFunction nLines join

/-- A function of the stage panics on the item: of a `fork_join` the fork function on any
line, or the join function on the results of all lines. -/
def panicsOn : FaultyStage O U → O → Bool
  | map f, x => (f x).isPanic
  | filter f, x => (f x).isPanic
  | filterMap f, x => (f x).isPanic
  | forkJoin workerFunction nLines join _, x =>
      ((List.range nLines).any fun line => (workerFunction x line).isPanic) ||
        (join (row workerFunction nLines x)).isPanic

/-- What the stage computes from items on which nothing panics, as a function on lists. -/
def semantics : FaultyStage O U → List O → List U
  | map f, inputs => inputs.filterMap fun x => (f x).result?
  | filter f, inputs => inputs.filter fun x => (f x).result? = some true
  | filterMap f, inputs => inputs.filterMap fun x => (f x).result?.join
  | forkJoin workerFunction nLines join _, inputs =>
      inputs.filterMap fun x => (join (row workerFunction nLines x)).result?

/-- The items before the first one on which a function panics. -/
def untilPanic (stage : FaultyStage O U) (inputs : List O) : List O :=
  inputs.takeWhile fun x => !stage.panicsOn x

/-- What the stage does with one item. -/
def step : FaultyStage O U → O → Outcome (Option U)
  | map f => fun x => (f x).map some
  | filter f => fun x => (f x).map fun keep => if keep then some x else none
  | filterMap f => f
  | forkJoin workerFunction nLines join _ => joined workerFunction nLines join

theorem configure_implements {builder : FactorioBuilder I O} {B : Behaviour I O}
    (h : Implements builder.pipeline B) (stage : FaultyStage O U) :
    Implements (stage.configure builder).pipeline (B.comp (each stage.step)) := by
  cases stage with
  | map f => exact FactorioBuilder.filterMap_implements h _
  | filter f => exact FactorioBuilder.filterMap_implements h _
  | filterMap f => exact FactorioBuilder.filterMap_implements h _
  | forkJoin workerFunction nLines join hlines =>
      exact FactorioBuilder.forkJoin_implements h workerFunction hlines join

end FaultyStage

/-! ## Up to the first panic -/

/-- A loop puts out the results of the items before the first panic. -/
theorem emitted_eq_filterMap (f : O → Outcome (Option U)) (xs : List O) :
    emitted f xs =
      (xs.takeWhile fun x => !(f x).isPanic).filterMap fun x => (f x).result?.join := by
  induction xs with
  | nil => rfl
  | cons x rest ih =>
      cases hx : f x with
      | panic => simp [emitted, hx, Outcome.isPanic]
      | ret result =>
          cases result <;> simp [emitted, hx, ih, Outcome.isPanic, Outcome.result?]

theorem Outcome.all_eq_ret {α : Type} {calls : List (Outcome α)}
    (h : ∀ call ∈ calls, call.isPanic = false) :
    Outcome.all calls = .ret (calls.filterMap Outcome.result?) := by
  induction calls with
  | nil => rfl
  | cons call rest ih =>
      have hrest := ih fun call hmem => h call (List.mem_cons_of_mem _ hmem)
      cases call with
      | panic => exact absurd (h .panic List.mem_cons_self) (by simp [Outcome.isPanic])
      | ret result => simp [Outcome.all, hrest, Outcome.result?]

/-- An item on which no line panics is joined. -/
theorem joined_of_row {f : O → ℕ → Outcome L} {nLines : ℕ} {join : List L → Outcome U} {x : O}
    (h : ∀ line < nLines, (f x line).isPanic = false) :
    joined f nLines join x = (join (row f nLines x)).map some := by
  have hcalls : ∀ call ∈ (List.range nLines).map (f x), call.isPanic = false := by
    simpa using h
  rw [joined, Outcome.all_eq_ret hcalls, List.filterMap_map]
  rfl

namespace FaultyStage

private theorem isPanic_step (stage : FaultyStage O U) (x : O) :
    (stage.step x).isPanic = stage.panicsOn x := by
  cases stage with
  | map f | filter f => cases h : f x <;> simp [step, panicsOn, h, Outcome.isPanic]
  | filterMap f => rfl
  | forkJoin workerFunction nLines join hlines =>
      by_cases hline : ∃ line < nLines, workerFunction x line = .panic
      · obtain ⟨line, hlt, hpanic⟩ := hline
        have hany : (List.range nLines).any (fun line => (workerFunction x line).isPanic) = true :=
          List.any_eq_true.mpr ⟨line, List.mem_range.mpr hlt, Outcome.isPanic_iff.mpr hpanic⟩
        simp only [step, panicsOn, joined_eq_panic hlt hpanic, hany, Bool.true_or]
        rfl
      · have hrow : ∀ line < nLines, (workerFunction x line).isPanic = false := fun line hlt =>
          Bool.eq_false_iff.mpr fun hpanic => hline ⟨line, hlt, Outcome.isPanic_iff.mp hpanic⟩
        have hany : (List.range nLines).any (fun line => (workerFunction x line).isPanic) = false :=
          List.any_eq_false.mpr fun line hmem => by simp [hrow line (List.mem_range.mp hmem)]
        simp only [step, panicsOn, joined_of_row hrow, hany, Bool.false_or]
        cases join (row workerFunction nLines x) <;> rfl

theorem semantics_eq (stage : FaultyStage O U) {xs : List O}
    (h : ∀ x ∈ xs, stage.panicsOn x = false) :
    stage.semantics xs = xs.filterMap fun x => (stage.step x).result?.join := by
  cases stage with
  | map f =>
      refine List.filterMap_congr fun x _ => ?_
      cases hx : f x <;> simp [step, hx, Outcome.result?]
  | filter f =>
      rw [semantics, ← List.filterMap_eq_filter]
      refine List.filterMap_congr fun x _ => ?_
      cases hx : f x with
      | panic => simp [step, hx, Outcome.result?]
      | ret keep => cases keep <;> simp [step, hx, Outcome.result?, Option.guard]
  | filterMap f => rfl
  | forkJoin workerFunction nLines join hlines =>
      refine List.filterMap_congr fun x hx => ?_
      have hlines : ∀ line < nLines, (workerFunction x line).isPanic = false := by
        have hpanics := h x hx
        simp only [panicsOn, Bool.or_eq_false_iff, List.any_eq_false, List.mem_range] at hpanics
        exact fun line hlt => Bool.eq_false_iff.mpr (hpanics.1 line hlt)
      rw [step, joined_of_row hlines]
      cases join (row workerFunction nLines x) <;> simp [Outcome.result?]

private theorem emitted_step (stage : FaultyStage O U) (xs : List O) :
    emitted stage.step xs = stage.semantics (stage.untilPanic xs) := by
  rw [emitted_eq_filterMap, stage.semantics_eq]
  · simp only [untilPanic, isPanic_step]
  · intro x hx
    simpa using List.mem_takeWhile_imp hx

end FaultyStage

/-! ## The pipeline -/

/-- **Items before a panic survive.**  A producer sends `xs` as far as its sends succeed,
and drops its sender at the end or when one has failed.  In every state the items received
are a prefix of what the pipeline computes from the items before the first panic, and when
the receiver has seen the end of the stream they are all of it. -/
theorem items_before_panic (pre : Stages I A) (stage : FaultyStage A B) (post : Stages B O)
    (queueSize : ℕ) {xs : List I}
    {trace : List ((post.configure (stage.configure
      (pre.configure (.new I queueSize)))).pipeline.State × Exchange I O)}
    {s : (post.configure (stage.configure (pre.configure (.new I queueSize)))).pipeline.State}
    (hrun : (post.configure (stage.configure
      (pre.configure (.new I queueSize)))).pipeline.Runs trace s)
    (hsent : items (inputs trace) <+: xs)
    (hdropped : Ended (inputs trace) → items (inputs trace) = xs) :
    items (outputs trace) <+:
        post.semantics (stage.semantics (stage.untilPanic (pre.semantics xs))) ∧
      (Ended (outputs trace) → items (outputs trace) =
        post.semantics (stage.semantics (stage.untilPanic (pre.semantics xs)))) := by
  have himpl := Stages.configure_implements (FaultyStage.configure_implements
    (pre.configure_new_implements queueSize) stage) post
  rw [← stage.emitted_step]
  set whole := (pre.behaviour.comp (each stage.step)).comp post.behaviour
  change _ <+: whole.out xs ∧ (_ → _ = whole.out xs)
  refine ⟨(himpl.items hrun).trans (whole.out_mono hsent), fun hended => ?_⟩
  obtain ⟨hitems, hcause | hdies⟩ := himpl.ended hrun hended
  · rw [hitems, hdropped hcause]
  · rw [hitems, whole.out_stable hsent hdies]

/-- A `map` that panics on 2. -/
def faultyMap : FaultyStage ℕ ℕ :=
  .map fun x => if x = 2 then .panic else .ret (10 * x)

/-- The result of 1 is received, then the map panics on 2 and the receiver sees the end. -/
theorem items_before_panic_map :
    ∃ trace s, ((Stages.none (I := ℕ)).configure (faultyMap.configure
        ((Stages.none (I := ℕ)).configure (.new ℕ 1)))).pipeline.Runs trace s ∧
      items (inputs trace) = [1, 2] ∧ Ended (outputs trace) ∧
      items (outputs trace) = faultyMap.semantics (faultyMap.untilPanic [1, 2, 3]) := by
  have start : (((syncChannel ℕ 1).seq ((thread fun t => .ret (some t)).seq (syncChannel ℕ 1))).seq
      ((thread faultyMap.step).seq (syncChannel ℕ 1))).Runs []
      (((⟨[], true, true⟩ : SyncChannel ℕ), (Thread.waiting : Thread ℕ),
          (⟨[], true, true⟩ : SyncChannel ℕ)),
        (Thread.waiting : Thread ℕ), (⟨[], true, true⟩ : SyncChannel ℕ)) := .nil
  have hfirst := (((((start.snoc
    (.left (.left (.send (x := 1) (by simp))))).snoc
    (.left (.both .recv (.left (.produce rfl))))).snoc
    (.left (.right (.both .send (.send (by simp)))))).snoc
    (.both (.right (.right .recv)) (.left (.produce rfl)))).snoc
    (.right (.both .send (.send (by simp))))).snoc
    (.right (.right .recv))
  have hpanics := (((hfirst.snoc
    (.left (.left (.send (x := 2) (by simp))))).snoc
    (.left (.both .recv (.left (.produce rfl))))).snoc
    (.left (.right (.both .send (.send (by simp)))))).snoc
    (.both (.right (.right .recv)) (.left (.panics rfl)))
  have hrun := ((hpanics.snoc
    (.both (.right (.right .dropReceiver)) (.left .dropReceiver))).snoc
    (.right (.both .dropSender .dropSender))).snoc
    (.right (.right .recvFails))
  refine ⟨_, _, hrun, rfl, rfl, ?_⟩
  exact (items_before_panic .none faultyMap .none 1 hrun ⟨[3], rfl⟩ (fun h => by cases h)).2 rfl

end RustCourse.Lesson07
